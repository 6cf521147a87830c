import Mathlib.Data.Nat.Digits.Lemmas
import Mathlib.Tactic.Ring

/-!
# Big-endian byte strings as numbers

A byte string is read most significant byte first. Leading zero bytes do not
change the number, and among the strings of one length each number has at most
one. The shortest string of a number has no leading zero.
-/

namespace Numeral

/-- The number written by a byte string, most significant byte first. -/
def bigEndian (bytes : List UInt8) : ℕ := bytes.foldl (fun n b => 256 * n + b.toNat) 0

/-- The shortest byte string of a number; the empty string for zero. -/
def minimalBytes (n : ℕ) : List UInt8 := ((Nat.digits 256 n).map UInt8.ofNat).reverse

@[simp] theorem bigEndian_nil : bigEndian [] = 0 := rfl

/-- The accumulator form of `bigEndian`. -/
theorem bigEndian_foldl (bytes : List UInt8) (start : ℕ) :
    bytes.foldl (fun n b => 256 * n + b.toNat) start =
      start * 256 ^ bytes.length + bigEndian bytes := by
  induction bytes generalizing start with
  | nil => simp
  | cons b bytes ih =>
    simp only [bigEndian, List.foldl_cons, List.length_cons, Nat.mul_zero, Nat.zero_add]
    rw [ih (256 * start + b.toNat), ih b.toNat]
    ring

/-- The first byte weighs `256` to the number of bytes after it. -/
theorem bigEndian_cons (b : UInt8) (bytes : List UInt8) :
    bigEndian (b :: bytes) = b.toNat * 256 ^ bytes.length + bigEndian bytes := by
  rw [bigEndian, List.foldl_cons, bigEndian_foldl]
  simp

/-- Concatenation shifts the first number past the second string. -/
theorem bigEndian_append (left right : List UInt8) :
    bigEndian (left ++ right) = bigEndian left * 256 ^ right.length + bigEndian right := by
  rw [bigEndian, List.foldl_append]
  exact bigEndian_foldl right _

/-- A string of `k` bytes writes a number below `256 ^ k`. -/
theorem bigEndian_lt (bytes : List UInt8) : bigEndian bytes < 256 ^ bytes.length := by
  induction bytes with
  | nil => simp
  | cons b bytes ih =>
    have hb : b.toNat < 256 := b.toNat_lt
    rw [bigEndian_cons, List.length_cons, pow_succ]
    nlinarith [Nat.one_le_pow bytes.length 256 (by omega)]

/-- Leading zero bytes do not count. -/
theorem bigEndian_replicate_zero (k : ℕ) (bytes : List UInt8) :
    bigEndian (List.replicate k 0 ++ bytes) = bigEndian bytes := by
  rw [bigEndian_append]
  have hzero : bigEndian (List.replicate k 0) = 0 := by
    induction k with
    | zero => rfl
    | succ k ih => rw [List.replicate_succ, bigEndian_cons, ih]; simp
  simp [hzero]

/-- Strings of one length that write the same number are the same string. -/
theorem bigEndian_injective {xs ys : List UInt8} (hlength : xs.length = ys.length)
    (h : bigEndian xs = bigEndian ys) : xs = ys := by
  induction xs generalizing ys with
  | nil => exact (List.length_eq_zero_iff.mp hlength.symm).symm
  | cons x xs ih =>
    cases ys with
    | nil => simp at hlength
    | cons y ys =>
      have hlen : xs.length = ys.length := by simpa using hlength
      rw [bigEndian_cons, bigEndian_cons, hlen] at h
      have hx := bigEndian_lt xs
      have hy := bigEndian_lt ys
      rw [hlen] at hx
      have hhead : x.toNat = y.toNat := by
        have hxdiv := Nat.add_mul_div_right (bigEndian xs) x.toNat
          (by positivity : 0 < 256 ^ ys.length)
        have hydiv := Nat.add_mul_div_right (bigEndian ys) y.toNat
          (by positivity : 0 < 256 ^ ys.length)
        rw [Nat.div_eq_of_lt hx, Nat.zero_add, Nat.add_comm, h] at hxdiv
        rw [Nat.div_eq_of_lt hy, Nat.zero_add, Nat.add_comm] at hydiv
        omega
      have htail : bigEndian xs = bigEndian ys := by rw [hhead] at h; omega
      rw [UInt8.toNat_inj.mp hhead, ih hlen htail]

/-- The shortest string of a number writes that number. -/
theorem bigEndian_minimalBytes (n : ℕ) : bigEndian (minimalBytes n) = n := by
  have hread (digits : List ℕ) (hd : ∀ d ∈ digits, d < 256) :
      bigEndian (digits.map UInt8.ofNat).reverse = Nat.ofDigits 256 digits := by
    induction digits with
    | nil => rfl
    | cons d digits ih =>
      have hlt : d < 256 := hd d (by simp)
      rw [List.map_cons, List.reverse_cons, bigEndian_append,
        ih (fun e he => hd e (by simp [he])), Nat.ofDigits_cons]
      have hbyte : bigEndian [UInt8.ofNat d] = d := by
        simp [bigEndian, UInt8.toNat_ofNat', Nat.mod_eq_of_lt hlt]
      rw [hbyte, List.length_singleton, pow_one]
      ring
  rw [minimalBytes, hread _ (fun d hd => Nat.digits_lt_base (by omega) hd), Nat.ofDigits_digits]

/-- A number below `256 ^ k` has a string of at most `k` bytes. -/
theorem minimalBytes_length_le {n k : ℕ} (h : n < 256 ^ k) : (minimalBytes n).length ≤ k := by
  simpa [minimalBytes] using (Nat.digits_length_le_iff (by omega : 1 < 256) n).mpr h

/-- Only zero has the empty string. -/
theorem minimalBytes_length_pos {n : ℕ} (h : n ≠ 0) : 0 < (minimalBytes n).length := by
  simpa [minimalBytes, List.length_pos_iff] using Nat.digits_ne_nil_iff_ne_zero.mpr h

end Numeral

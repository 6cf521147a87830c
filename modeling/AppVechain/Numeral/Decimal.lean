import Mathlib.Data.List.DropRight
import Mathlib.Data.Nat.Digits.Lemmas
import Mathlib.Tactic.Ring

/-!
# Numerals and decimal fractions

A number is written in a base by its digits, most significant first, with the
one digit `0` for zero. A number of `b ^ d`-ths is written by the numeral of its
integer part and `d` digits of fraction, of which the trailing zeros are left
out. The value of such a text gives the number back.
-/

namespace Numeral

/-- The digits of a number, most significant first. -/
def numeral (b n : ℕ) : List ℕ := if n = 0 then [0] else (Nat.digits b n).reverse

/-- The last `k` digits of a number, with leading zeros. -/
def paddedDigits (b : ℕ) : ℕ → ℕ → List ℕ
  | 0, _ => []
  | k + 1, n => paddedDigits b k (n / b) ++ [n % b]

/-- The number written by a list of digits. -/
def digitsValue (b : ℕ) (digits : List ℕ) : ℕ := digits.foldl (fun v x => v * b + x) 0

/-- A list of digits without its trailing zeros. -/
def trimZeros (digits : List ℕ) : List ℕ := digits.rdropWhile (· == 0)

section Numerals

variable {b n k : ℕ}

theorem numeral_of_lt (h : n < b) : numeral b n = [n] := by
  rw [numeral]
  split
  case isTrue hzero => rw [hzero]
  case isFalse hzero => rw [Nat.digits_of_lt b n hzero h, List.reverse_singleton]

theorem numeral_of_le (hb : 1 < b) (h : b ≤ n) : numeral b n = numeral b (n / b) ++ [n % b] := by
  have hdiv : n / b ≠ 0 := (Nat.div_pos h (by omega)).ne'
  rw [numeral, numeral, if_neg (by omega), if_neg hdiv, Nat.digits_def' hb (by omega),
    List.reverse_cons]

theorem numeral_ne_nil : numeral b n ≠ [] := by
  rw [numeral]
  split
  case isTrue h => simp
  case isFalse h => simpa using Nat.digits_ne_nil_iff_ne_zero.mpr h

/-- Every digit is below the base. -/
theorem numeral_lt_base (hb : 1 < b) {x : ℕ} (hx : x ∈ numeral b n) : x < b := by
  rw [numeral] at hx
  split at hx
  · have hzero : x = 0 := by simpa using hx
    omega
  · exact Nat.digits_lt_base hb (List.mem_reverse.mp hx)

/-- A number has at most `k` digits when it is below the `k`-th power of the base. -/
theorem numeral_length_le_iff (hb : 1 < b) (hk : 0 < k) : (numeral b n).length ≤ k ↔ n < b ^ k := by
  rw [numeral]
  split
  case isTrue h =>
    subst h
    exact iff_of_true hk (by positivity)
  case isFalse h => rw [List.length_reverse, Nat.digits_length_le_iff hb]

/-- Larger numbers do not have fewer digits. -/
theorem numeral_length_mono (hb : 1 < b) : Monotone fun n => (numeral b n).length := by
  intro n m hle
  have hpos : 0 < (numeral b m).length := List.length_pos_iff.mpr numeral_ne_nil
  exact (numeral_length_le_iff hb hpos).mpr
    (hle.trans_lt ((numeral_length_le_iff hb hpos).mp le_rfl))

/-- What stands behind a text of its length is found again. -/
theorem append_length_injective {α : Type*} {text : ℕ → List α}
    (hmono : Monotone fun n => (text n).length) {xs ys : List α}
    (h : text xs.length ++ xs = text ys.length ++ ys) : xs = ys := by
  have hlength := congrArg List.length h
  rw [List.length_append, List.length_append] at hlength
  have heq : xs.length = ys.length := by
    rcases Nat.le_total xs.length ys.length with hle | hle
    · have htext := hmono hle
      dsimp only at htext
      omega
    · have htext := hmono hle
      dsimp only at htext
      omega
  rw [heq] at h
  exact List.append_cancel_left h

/-- Only zero has a leading zero. -/
theorem numeral_head (hb : 1 < b) (hn : n ≠ 0) : ∃ x rest, numeral b n = x :: rest ∧ x ≠ 0 := by
  induction n using Nat.strong_induction_on with
  | _ n ih =>
    obtain hlt | hle := Nat.lt_or_ge n b
    · exact ⟨n, [], numeral_of_lt hlt, hn⟩
    · obtain ⟨x, rest, hrest, hx⟩ := ih (n / b) (Nat.div_lt_self (by omega) hb)
        (Nat.div_pos hle (by omega)).ne'
      exact ⟨x, rest ++ [n % b], by rw [numeral_of_le hb hle, hrest, List.cons_append], hx⟩

@[simp] theorem paddedDigits_length : (paddedDigits b k n).length = k := by
  induction k generalizing n with
  | zero => rfl
  | succ k ih => rw [paddedDigits, List.length_append, ih, List.length_singleton]

theorem paddedDigits_lt_base (hb : 0 < b) {x : ℕ} (hx : x ∈ paddedDigits b k n) : x < b := by
  induction k generalizing n with
  | zero => cases hx
  | succ k ih =>
    rw [paddedDigits, List.mem_append, List.mem_singleton] at hx
    obtain hx | rfl := hx
    · exact ih hx
    · exact Nat.mod_lt _ hb

theorem paddedDigits_zero : paddedDigits b k 0 = List.replicate k 0 := by
  induction k with
  | zero => rfl
  | succ k ih => rw [paddedDigits, Nat.zero_div, ih, Nat.zero_mod, List.replicate_succ']

/-- A long number is a shorter one followed by its last digits. -/
theorem numeral_split (hb : 1 < b) (h : b ^ k ≤ n) :
    numeral b n = numeral b (n / b ^ k) ++ paddedDigits b k n := by
  induction k generalizing n with
  | zero => simp [paddedDigits]
  | succ k ih =>
    have hle : b ≤ n := (Nat.le_self_pow (by omega) b).trans h
    have hdiv : b ^ k ≤ n / b := (Nat.le_div_iff_mul_le (by omega)).mpr (by rwa [← pow_succ])
    rw [numeral_of_le hb hle, ih hdiv, Nat.div_div_eq_div_mul, ← pow_succ', paddedDigits,
      List.append_assoc]

/-- The last digits of a number, from the first of them on. -/
theorem paddedDigits_succ : paddedDigits b (k + 1) n = n / b ^ k % b :: paddedDigits b k n := by
  induction k generalizing n with
  | zero => simp [paddedDigits]
  | succ k ih =>
    calc
      paddedDigits b (k + 2) n = paddedDigits b (k + 1) (n / b) ++ [n % b] := rfl
      _ = n / b ^ (k + 1) % b :: (paddedDigits b k (n / b) ++ [n % b]) := by
        rw [ih, Nat.div_div_eq_div_mul, ← pow_succ', List.cons_append]
      _ = _ := rfl

/-- The digits of a number are its last ones, when there are not more. -/
theorem numeral_eq_paddedDigits (hb : 1 < b) (hle : k = 0 ∨ b ^ k ≤ n) (hlt : n < b ^ (k + 1)) :
    numeral b n = paddedDigits b (k + 1) n := by
  rw [paddedDigits_succ]
  have hdiv : n / b ^ k < b := Nat.div_lt_of_lt_mul (by rwa [← pow_succ])
  rw [Nat.mod_eq_of_lt hdiv]
  obtain rfl | hle := hle
  · rw [pow_zero, Nat.div_one] at hdiv ⊢
    exact numeral_of_lt hdiv
  · rw [numeral_split hb hle, numeral_of_lt hdiv]
    rfl

/-- The last digits of a short number are the number with leading zeros. -/
theorem paddedDigits_of_lt (hb : 1 < b) (hn : n ≠ 0) (h : n < b ^ k) :
    paddedDigits b k n = List.replicate (k - (numeral b n).length) 0 ++ numeral b n := by
  induction k generalizing n with
  | zero => rw [pow_zero] at h; omega
  | succ k ih =>
    rw [paddedDigits]
    obtain hlt | hle := Nat.lt_or_ge n b
    · rw [Nat.div_eq_of_lt hlt, paddedDigits_zero, numeral_of_lt hlt, Nat.mod_eq_of_lt hlt]
      rfl
    · have hdiv : n / b < b ^ k := Nat.div_lt_of_lt_mul (by rwa [← pow_succ'])
      rw [ih (Nat.div_pos hle (by omega)).ne' hdiv, numeral_of_le hb hle, List.length_append,
        List.length_singleton, Nat.add_sub_add_right, List.append_assoc]

theorem digitsValue_concat (digits : List ℕ) (x : ℕ) :
    digitsValue b (digits ++ [x]) = digitsValue b digits * b + x := by
  rw [digitsValue, digitsValue, List.foldl_append]
  rfl

/-- The digits of a number write the number. -/
theorem digitsValue_numeral (hb : 1 < b) : digitsValue b (numeral b n) = n := by
  induction n using Nat.strong_induction_on with
  | _ n ih =>
    obtain hlt | hle := Nat.lt_or_ge n b
    · rw [numeral_of_lt hlt]
      simp [digitsValue]
    · rw [numeral_of_le hb hle, digitsValue_concat, ih _ (Nat.div_lt_self (by omega) hb),
        Nat.div_add_mod']

/-- The last digits of a number write its remainder. -/
theorem digitsValue_paddedDigits : digitsValue b (paddedDigits b k n) = n % b ^ k := by
  induction k generalizing n with
  | zero => simp [paddedDigits, digitsValue, Nat.mod_one]
  | succ k ih =>
    rw [paddedDigits, digitsValue_concat, ih, pow_succ', Nat.mod_mul, Nat.add_comm, Nat.mul_comm b]

end Numerals

/-- Trimming takes zeros away. -/
theorem trimZeros_append (digits : List ℕ) :
    trimZeros digits ++ List.replicate (digits.length - (trimZeros digits).length) 0 = digits := by
  induction digits using List.reverseRecOn with
  | nil => rfl
  | append_singleton digits x ih =>
    have hle : (trimZeros digits).length ≤ digits.length := (List.rdropWhile_prefix _ _).length_le
    by_cases hx : x = 0
    · have htrim : trimZeros (digits ++ [x]) = trimZeros digits :=
        List.rdropWhile_concat_pos _ _ _ (by simpa using hx)
      rw [htrim, List.length_append, List.length_singleton,
        show digits.length + 1 - (trimZeros digits).length =
          digits.length - (trimZeros digits).length + 1 by omega, List.replicate_succ',
        ← List.append_assoc, ih, hx]
    · have htrim : trimZeros (digits ++ [x]) = digits ++ [x] :=
        List.rdropWhile_concat_neg _ _ _ (by simpa using hx)
      rw [htrim]
      simp

/-- Trimming leaves the digits before one that is not zero. -/
theorem trimZeros_append_of_ne_nil (front : List ℕ) {digits : List ℕ} (h : trimZeros digits ≠ []) :
    trimZeros (front ++ digits) = front ++ trimZeros digits := by
  rw [trimZeros, List.rdropWhile, ne_eq, List.reverse_eq_nil_iff] at h
  rw [trimZeros, trimZeros, List.rdropWhile, List.rdropWhile, List.reverse_append,
    List.dropWhile_append, if_neg (by simpa using h), List.reverse_append, List.reverse_reverse]

/-- The digits of a number other than zero are not all zero. -/
theorem trimZeros_numeral_ne_nil {b n : ℕ} (hb : 1 < b) (hn : n ≠ 0) :
    trimZeros (numeral b n) ≠ [] := by
  obtain ⟨x, rest, hrest, hx⟩ := numeral_head hb hn
  intro h
  have hall := List.rdropWhile_eq_nil_iff.mp h x (by rw [hrest]; simp)
  exact hx (by simpa using hall)

/-- The trimmed digits of a fraction are few when the number ends in many zeros. -/
theorem trimZeros_paddedDigits_length_le {b k n j : ℕ} (hb : 0 < b) :
    (trimZeros (paddedDigits b k n)).length ≤ j ↔ b ^ (k - j) ∣ n := by
  induction k generalizing n with
  | zero =>
    rw [Nat.zero_sub, pow_zero]
    exact iff_of_true (Nat.zero_le j) (one_dvd n)
  | succ k ih =>
    rw [paddedDigits]
    by_cases hx : n % b = 0
    · have htrim : trimZeros (paddedDigits b k (n / b) ++ [n % b]) =
          trimZeros (paddedDigits b k (n / b)) :=
        List.rdropWhile_concat_pos _ _ _ (by simpa using hx)
      rw [htrim, ih]
      obtain hj | hj := Nat.lt_or_ge k j
      · rw [show k - j = 0 by omega, show k + 1 - j = 0 by omega, pow_zero]
        exact iff_of_true (one_dvd _) (one_dvd _)
      · obtain ⟨m, rfl⟩ := Nat.dvd_of_mod_eq_zero hx
        rw [Nat.mul_div_cancel_left m hb, show k + 1 - j = k - j + 1 by omega, pow_succ',
          Nat.mul_dvd_mul_iff_left hb]
    · have htrim : trimZeros (paddedDigits b k (n / b) ++ [n % b]) =
          paddedDigits b k (n / b) ++ [n % b] :=
        List.rdropWhile_concat_neg _ _ _ (by simpa using hx)
      rw [htrim, List.length_append, paddedDigits_length, List.length_singleton]
      obtain hj | hj := Nat.lt_or_ge k j
      · rw [show k + 1 - j = 0 by omega, pow_zero]
        exact iff_of_true hj (one_dvd n)
      · refine iff_of_false (by omega) fun hdvd => hx (Nat.mod_eq_zero_of_dvd ?_)
        exact (dvd_pow_self b (by omega)).trans hdvd

/-- The digits of `n / b ^ d` before the point. -/
def integerDigits (b d n : ℕ) : List ℕ := numeral b (n / b ^ d)

/-- The digits of `n / b ^ d` after the point, up to the last one that is not zero. -/
def fractionDigits (b d n : ℕ) : List ℕ := trimZeros (paddedDigits b d n)

/-- The number of characters of `n / b ^ d`: the point is written before a fraction. -/
def fractionLength (b d n : ℕ) : ℕ :=
  (integerDigits b d n).length +
    if fractionDigits b d n = [] then 0 else (fractionDigits b d n).length + 1

/-- Whether `n / b ^ d` has at most `room` characters: it is an integer below
`b ^ room`, or it ends after `j` digits of fraction and leaves room for its
integer part. -/
def FractionFits (b d room n : ℕ) : Prop :=
  b ^ d ∣ n ∧ n < b ^ (d + room) ∨
    ∃ j, 0 < j ∧ j ≤ d ∧ j + 1 < room ∧ b ^ (d - j) ∣ n ∧ n < b ^ (d + room - (j + 1))

/-- The integer part has at most `k` digits when the number is small. -/
theorem integerDigits_length_le {b d n k : ℕ} (hb : 1 < b) (hk : 0 < k) :
    (integerDigits b d n).length ≤ k ↔ n < b ^ (d + k) := by
  rw [integerDigits, numeral_length_le_iff hb hk, Nat.div_lt_iff_lt_mul (by positivity), pow_add,
    Nat.mul_comm]

/-- **The length of a fraction**, told from the number alone. -/
theorem fractionLength_le_iff {b d room n : ℕ} (hb : 1 < b) (hroom : 0 < room) :
    fractionLength b d n ≤ room ↔ FractionFits b d room n := by
  have hlength (j : ℕ) : (fractionDigits b d n).length ≤ j ↔ b ^ (d - j) ∣ n :=
    trimZeros_paddedDigits_length_le (by omega)
  have hpos : 0 < (integerDigits b d n).length := List.length_pos_of_ne_nil numeral_ne_nil
  have hle : (fractionDigits b d n).length ≤ d := (hlength d).mpr (by simp)
  rw [fractionLength]
  constructor
  · intro h
    split at h
    case isTrue hnil =>
      refine .inl ⟨?_, (integerDigits_length_le hb hroom).mp (by omega)⟩
      simpa using (hlength 0).mp (by rw [hnil, List.length_nil])
    case isFalse hcons =>
      have hcons : 0 < (fractionDigits b d n).length := List.length_pos_of_ne_nil hcons
      refine .inr ⟨(fractionDigits b d n).length, hcons, hle, by omega, (hlength _).mp le_rfl, ?_⟩
      have hint := (integerDigits_length_le (d := d) (n := n) hb
        (k := room - ((fractionDigits b d n).length + 1)) (by omega)).mp (by omega)
      rwa [show d + (room - ((fractionDigits b d n).length + 1)) =
        d + room - ((fractionDigits b d n).length + 1) by omega] at hint
  · rintro (⟨hdvd, hlt⟩ | ⟨j, hj, -, hjroom, hdvd, hlt⟩)
    · have hnil : (fractionDigits b d n).length ≤ 0 := (hlength 0).mpr hdvd
      rw [if_pos (List.length_eq_zero_iff.mp (by omega))]
      exact (integerDigits_length_le hb hroom).mpr hlt
    · have hint := (integerDigits_length_le (d := d) (n := n) hb (k := room - (j + 1))
        (by omega)).mpr (by rwa [show d + (room - (j + 1)) = d + room - (j + 1) by omega])
      have hfrac := (hlength j).mpr hdvd
      split <;> omega

end Numeral

import AppVechain.Numeral.Decimal
import AppVechain.Uint256.Division
import Mathlib.Data.List.GetD

/-!
# Numbers as text

`tostring256` of `common/uint256.c` and `adjustDecimals` of `common/vetUtils.c`.
A function that writes to a character buffer returns the bytes it wrote, from
the start of the buffer on; `none` stands for a loop that does not end and for
reading what was never written.
-/

namespace AppVechain

open Numeral Loop

/-- The bytes of a string literal, with the NUL. -/
def cString (literal : String) : List UInt8 := literal.toList.map (fun c => c.val.toUInt8) ++ [0]

/-- `HEXDIGITS` -/
def HEXDIGITS : List UInt8 := cString "0123456789abcdef"

/-- `getStringLength`: the place of the first NUL. -/
def getStringLength (string : List UInt8) : Option ℕ := string.findIdx? (· == 0)

/-- The local variables of `reverseString`. -/
structure ReverseState where
  i : ℕ
  j : ℕ
  str : List UInt8

/-- The body of the loop of `reverseString`. -/
def reverseBody (s : ReverseState) : ReverseState where
  i := s.i + 1
  j := s.j - 1
  str := (s.str.set s.i (s.str.getD s.j 0)).set s.j (s.str.getD s.i 0)

/-- `reverseString`, for a string of at least one character. -/
def reverseString (str : List UInt8) : Option (List UInt8) :=
  (whileLoop (fun s => decide (s.i < s.j)) reverseBody (str.length + 1)
    ⟨0, str.length - 1, str⟩).map ReverseState.str

/-- The loop of `tostring256`; `out` holds the digits written so far. -/
def tostringLoop (base : Uint256) (outLength : UInt32) :
    ℕ → Uint256 → List UInt8 → Option (Bool × List UInt8)
  | 0, _, _ => none
  | fuel + 1, rDiv, out =>
    if out.length > (outLength - 1).toNat then some (false, out)
    else do
      let (rDiv, rMod) ← divmod256 rDiv base
      let digit ← HEXDIGITS[rMod.lower.lower.toUInt8.toNat]?
      let out := out ++ [digit]
      if !zero256 rDiv then tostringLoop base outLength fuel rDiv out
      else (reverseString out).map fun str => (true, str ++ [0])

/-- `tostring256`. The loop is cut off after 257 turns, more than a number has digits. -/
def tostring256 (number : Uint256) (baseParam outLength : UInt32) : Option (Bool × List UInt8) :=
  let base : Uint256 := ⟨clear128, ⟨0, baseParam.toUInt64⟩⟩
  if baseParam < 2 ∨ baseParam > 16 then some (false, [])
  else tostringLoop base outLength 257 number []

/-- The character of a digit. -/
def digitByte (x : ℕ) : UInt8 := HEXDIGITS.getD x 0

/-- The invariant of `reverseString`: what is left of `i` and right of `j` is in
place, what is between them is not. -/
def ReverseState.Inv (orig : List UInt8) (s : ReverseState) : Prop :=
  ∃ left mid right, s.str = left ++ mid ++ right ∧ orig.reverse = left ++ mid.reverse ++ right ∧
    s.i = left.length ∧ s.j + 1 = left.length + mid.length

/-- A turn swaps the ends of what is not in place. -/
theorem reverseBody_inv {orig : List UInt8} {s : ReverseState} (hinv : s.Inv orig)
    (hcond : s.i < s.j) : (reverseBody s).Inv orig := by
  obtain ⟨i, j, str⟩ := s
  obtain ⟨left, mid, right, rfl, horig, rfl, hj⟩ := hinv
  simp only at hj hcond
  obtain ⟨a, rest, rfl⟩ := List.exists_cons_of_length_pos (l := mid) (by omega)
  rw [List.length_cons] at hj
  obtain rfl | ⟨inner, b, rfl⟩ := List.eq_nil_or_concat' rest
  · simp at hj
    omega
  · rw [List.length_append, List.length_singleton] at hj
    obtain rfl : j = left.length + (inner.length + 1) := by omega
    refine ⟨left ++ [b], inner, a :: right, ?_, ?_, by simp [reverseBody], ?_⟩
    · simp [reverseBody, List.set_append_right]
    · simpa using horig
    · simp [reverseBody]
      omega

/-- A turn brings the two offsets closer. -/
theorem reverseBody_measure {s : ReverseState} (hcond : s.i < s.j) :
    (reverseBody s).j - (reverseBody s).i < s.j - s.i := by
  simp only [reverseBody]
  omega

/-- `reverseString` reverses. -/
theorem reverseString_eq {str : List UInt8} (h : str ≠ []) :
    reverseString str = some str.reverse := by
  have hpos : 0 < str.length := List.length_pos_of_ne_nil h
  have hstart : ReverseState.Inv str ⟨0, str.length - 1, str⟩ :=
    ⟨[], str, [], by simp, by simp, rfl, by simp; omega⟩
  obtain ⟨s, hs, ⟨left, mid, right, hstr, horig, hi, hj⟩, hend⟩ :=
    whileLoop_total (ReverseState.Inv str) (fun s => s.j - s.i)
      (fun s hs (hcond : decide (s.i < s.j) = true) =>
        ⟨reverseBody_inv hs (of_decide_eq_true hcond),
          reverseBody_measure (of_decide_eq_true hcond)⟩)
      (str.length + 1) hstart (by simp only; omega)
  have hmid : mid.reverse = mid := by
    have hlt : ¬s.i < s.j := of_decide_eq_false hend
    match mid, hj with
    | [], _ => rfl
    | [a], _ => rfl
    | a :: b :: rest, hj => simp at hj; omega
  rw [reverseString, hs, Option.map_some, hstr, horig, hmid]

theorem HEXDIGITS_getElem? {x : ℕ} (h : x < 16) : HEXDIGITS[x]? = some (digitByte x) := by
  have hlength : x < HEXDIGITS.length := h.trans (by decide)
  rw [digitByte, List.getD_eq_getElem?_getD, List.getElem?_eq_getElem hlength, Option.getD_some]

/-- The low byte of a remainder below 256 is the remainder. -/
theorem toUInt8_toNat_of_lt {m : Uint256} (h : m.toNat < 256) :
    m.lower.lower.toUInt8.toNat = m.toNat := by
  simp only [Uint256.toNat, Uint128.toNat] at h ⊢
  rw [UInt64.toNat_toUInt8]
  omega

/-- The loop of `tostring256` writes the digits of a number, the last one first. -/
theorem tostringLoop_eq {base : Uint256} {outLength : UInt32} (hb : 1 < base.toNat)
    (hb16 : base.toNat ≤ 16) {fuel : ℕ} {n : Uint256} {out : List UInt8}
    (hfuel : (numeral base.toNat n.toNat).length ≤ fuel)
    (hroom : out.length + (numeral base.toNat n.toNat).length ≤ (outLength - 1).toNat + 1) :
    tostringLoop base outLength fuel n out =
      some (true, (numeral base.toNat n.toNat).map digitByte ++ out.reverse ++ [0]) := by
  induction fuel generalizing n out with
  | zero => exact absurd (List.length_eq_zero_iff.mp (Nat.le_zero.mp hfuel)) numeral_ne_nil
  | succ fuel ih =>
    have hpos : 0 < (numeral base.toNat n.toNat).length := List.length_pos_of_ne_nil numeral_ne_nil
    obtain ⟨q, m, hdivmod, hq, hm⟩ := divmod256_eq n (r := base) (by omega)
    have hlt : m.toNat < base.toNat := by rw [hm]; exact Nat.mod_lt _ (by omega)
    have hdigit : HEXDIGITS[m.lower.lower.toUInt8.toNat]? = some (digitByte m.toNat) := by
      rw [toUInt8_toNat_of_lt (by omega), HEXDIGITS_getElem? (by omega)]
    have hoffset : ¬out.length > (outLength - 1).toNat := by omega
    rw [tostringLoop, if_neg hoffset, hdivmod]
    simp only [Option.bind_eq_bind, Option.bind_some, hdigit]
    obtain hsmall | hlarge := Nat.lt_or_ge n.toNat base.toNat
    · have hzero : (!zero256 q) = false := by
        rw [zero256_eq, hq, Nat.div_eq_of_lt hsmall]
        rfl
      rw [hzero, if_neg Bool.false_ne_true, reverseString_eq (by simp), Option.map_some,
        numeral_of_lt hsmall, hm, Nat.mod_eq_of_lt hsmall]
      simp
    · have hnonzero : (!zero256 q) = true := by
        have hdiv : 0 < n.toNat / base.toNat := Nat.div_pos hlarge (by omega)
        rw [zero256_eq, hq, decide_eq_false hdiv.ne']
        rfl
      have hnumeral := numeral_of_le hb hlarge
      rw [← hq, ← hm] at hnumeral
      rw [hnumeral, List.length_append, List.length_singleton] at hfuel hroom
      rw [hnonzero, if_pos rfl,
        ih (by omega) (by rw [List.length_append, List.length_singleton]; omega),
        hnumeral]
      simp

/-- The base of `tostring256` as a number. -/
theorem tostringBase_toNat (baseParam : UInt32) :
    (⟨clear128, ⟨0, baseParam.toUInt64⟩⟩ : Uint256).toNat = baseParam.toNat := by
  simp only [Uint256.toNat, Uint128.toNat, clear128, UInt64.toNat_zero, UInt32.toNat_toUInt64]
  omega

theorem tostring256_base {n : Uint256} {baseParam outLength : UInt32} (hb : 2 ≤ baseParam.toNat)
    (hb16 : baseParam.toNat ≤ 16) :
    tostring256 n baseParam outLength =
      tostringLoop ⟨clear128, ⟨0, baseParam.toUInt64⟩⟩ outLength 257 n [] := by
  have hrange : ¬(baseParam < 2 ∨ baseParam > 16) := by
    simp only [gt_iff_lt, UInt32.lt_iff_toNat_lt, UInt32.reduceToNat]
    omega
  rw [tostring256, if_neg hrange]

/-- A number of 256 bits has at most 256 digits. -/
theorem numeral_length_le_256 {b : ℕ} (hb : 2 ≤ b) (n : Uint256) :
    (numeral b n.toNat).length ≤ 256 := by
  rw [numeral_length_le_iff (by omega) (by omega)]
  exact n.toNat_lt.trans_le (Nat.pow_le_pow_left hb 256)

/-- **`tostring256` writes the digits of a number** when they fit. -/
theorem tostring256_eq (n : Uint256) (baseParam outLength : UInt32) (hb : 2 ≤ baseParam.toNat)
    (hb16 : baseParam.toNat ≤ 16)
    (hroom : (numeral baseParam.toNat n.toNat).length ≤ (outLength - 1).toNat + 1) :
    tostring256 n baseParam outLength =
      some (true, (numeral baseParam.toNat n.toNat).map digitByte ++ [0]) := by
  have hbase := tostringBase_toNat baseParam
  have hlength := numeral_length_le_256 hb n
  rw [tostring256_base hb hb16, tostringLoop_eq (by rw [hbase]; omega) (by rw [hbase]; omega)
    (by rw [hbase]; omega) (by rw [hbase]; simpa using hroom), hbase]
  simp

end AppVechain

import AppVechain.Display.Reading

/-!
# What `tostring256` leaves in its buffer

`tostring256` compares the number of digits written so far with `outLength - 1`
and writes the NUL after the loop. It prints every number for which there is
room. Where there is room for the digits only, it writes the NUL behind the
buffer, and no bound is left for an `outLength` of zero.
-/

namespace AppVechain

open Numeral

/-- The loop of `tostring256` stops in front of the digit for which there is no
room, with `outLength` digits written. -/
theorem tostringLoop_full {base : Uint256} {outLength : UInt32} (hb : 1 < base.toNat)
    (hb16 : base.toNat ≤ 16) {fuel : ℕ} {n : Uint256} {out : List UInt8}
    (hfuel : (numeral base.toNat n.toNat).length ≤ fuel)
    (hout : out.length ≤ (outLength - 1).toNat + 1)
    (hroom : (outLength - 1).toNat + 1 < out.length + (numeral base.toNat n.toNat).length) :
    ∃ written, tostringLoop base outLength fuel n out = some (false, written) ∧
      written.length = (outLength - 1).toNat + 1 := by
  induction fuel generalizing n out with
  | zero => exact absurd (List.length_eq_zero_iff.mp (Nat.le_zero.mp hfuel)) numeral_ne_nil
  | succ fuel ih =>
    rw [tostringLoop]
    by_cases hoffset : out.length > (outLength - 1).toNat
    · exact ⟨out, if_pos hoffset, by omega⟩
    · obtain ⟨q, m, hdivmod, hq, hm⟩ := divmod256_eq n (r := base) (by omega)
      have hlt : m.toNat < base.toNat := by rw [hm]; exact Nat.mod_lt _ (by omega)
      have hdigit : HEXDIGITS[m.lower.lower.toUInt8.toNat]? = some (digitByte m.toNat) := by
        rw [toUInt8_toNat_of_lt (by omega), HEXDIGITS_getElem? (by omega)]
      -- a number of one digit would fit
      have hlarge : base.toNat ≤ n.toNat := by
        by_contra hsmall
        rw [numeral_of_lt (Nat.lt_of_not_le hsmall), List.length_singleton] at hroom
        omega
      have hnonzero : (!zero256 q) = true := by
        have hdiv : 0 < n.toNat / base.toNat := Nat.div_pos hlarge (by omega)
        rw [zero256_eq, hq, decide_eq_false hdiv.ne']
        rfl
      rw [numeral_of_le hb hlarge, ← hq, List.length_append, List.length_singleton] at hfuel hroom
      rw [if_neg hoffset, hdivmod]
      simp only [Option.bind_eq_bind, Option.bind_some, hdigit]
      rw [if_pos hnonzero]
      apply ih (by omega)
      · rw [List.length_append, List.length_singleton]
        omega
      · rw [List.length_append, List.length_singleton]
        omega

/-- **`tostring256` gives up** when there are more digits than bytes. -/
theorem tostring256_full (n : Uint256) {baseParam outLength : UInt32} (hb : 2 ≤ baseParam.toNat)
    (hb16 : baseParam.toNat ≤ 16)
    (hroom : (outLength - 1).toNat + 1 < (numeral baseParam.toNat n.toNat).length) :
    ∃ written, tostring256 n baseParam outLength = some (false, written) ∧
      written.length = (outLength - 1).toNat + 1 := by
  rw [tostring256_base hb hb16]
  have hlength := numeral_length_le_256 hb n
  have hbase := tostringBase_toNat baseParam
  have hout : ([] : List UInt8).length ≤ (outLength - 1).toNat + 1 := Nat.zero_le _
  apply tostringLoop_full (by omega) (by omega) _ hout
  · rw [hbase, List.length_nil, Nat.zero_add]
    exact hroom
  · rw [hbase]
    omega

/-- **`tostring256` prints the number.** The text is the canonical one that says the
number in the base, and a NUL follows it. -/
theorem tostring256_prints (n : Uint256) {baseParam outLength : UInt32}
    (hb : 2 ≤ baseParam.toNat) (hb16 : baseParam.toNat ≤ 16)
    (hroom : (numeral baseParam.toNat n.toNat).length < outLength.toNat) :
    ∃ text, tostring256 n baseParam outLength = some (true, text ++ [0]) ∧
      text = digitsText (numeral baseParam.toNat n.toNat) ∧
      CanonicalNumeral baseParam.toNat text ∧ readNumeral baseParam.toNat text = some n.toNat := by
  have hcanonical := (canonicalNumeral_iff (n := n.toNat) (by omega) hb16).mpr rfl
  have hminus : (outLength - 1).toNat = outLength.toNat - 1 :=
    UInt32.toNat_sub_of_le _ _ (UInt32.le_iff_toNat_le.mpr (by simp; omega))
  exact ⟨_, tostring256_eq n baseParam outLength hb hb16 (by omega), rfl,
    hcanonical.1, hcanonical.2⟩

/-- The number `2 ^ 64 + 2` has twenty digits. -/
theorem tostring256_prints_twenty :
    ∃ text, tostring256 ⟨⟨0, 0⟩, ⟨1, 2⟩⟩ 10 21 = some (true, text ++ [0]) ∧
      text = digitsText (numeral 10 (⟨⟨0, 0⟩, ⟨1, 2⟩⟩ : Uint256).toNat) ∧
      CanonicalNumeral 10 text ∧ readNumeral 10 text = some (⟨⟨0, 0⟩, ⟨1, 2⟩⟩ : Uint256).toNat := by
  refine @tostring256_prints ⟨⟨0, 0⟩, ⟨1, 2⟩⟩ 10 21 (by decide) (by decide) ?_
  have hlength : (numeral 10 (⟨⟨0, 0⟩, ⟨1, 2⟩⟩ : Uint256).toNat).length ≤ 20 :=
    (numeral_length_le_iff (by omega) (by omega)).mpr (by decide)
  exact hlength.trans_lt (by decide)

/-- `tostring256` keeps to the `outLength` bytes of its buffer, and tells whether the
digits of the number and the NUL fit in them. -/
def KeepsToBuffer (n : Uint256) (baseParam outLength : UInt32) : Prop :=
  ∃ printed written, tostring256 n baseParam outLength = some (printed, written) ∧
    written.length ≤ outLength.toNat ∧
    (printed = true ↔ (numeral baseParam.toNat n.toNat).length + 1 ≤ outLength.toNat)

/-- **When `tostring256` keeps to its buffer**: unless `outLength` is zero or the
number of digits. -/
theorem keepsToBuffer_iff (n : Uint256) {baseParam outLength : UInt32} (hb : 2 ≤ baseParam.toNat)
    (hb16 : baseParam.toNat ≤ 16) :
    KeepsToBuffer n baseParam outLength ↔
      outLength ≠ 0 ∧ outLength.toNat ≠ (numeral baseParam.toNat n.toNat).length := by
  have hlength := numeral_length_le_256 hb n
  have hpos : 0 < (numeral baseParam.toNat n.toNat).length :=
    List.length_pos_of_ne_nil numeral_ne_nil
  have hzero : outLength = 0 ↔ outLength.toNat = 0 := by
    rw [← UInt32.toNat_inj, UInt32.toNat_zero]
  have hminus : (outLength - 1).toNat + 1 =
      if outLength = 0 then 2 ^ 32 else outLength.toNat := by
    split
    case isTrue h => rw [h]; rfl
    case isFalse h =>
      have hone : 1 ≤ outLength.toNat := Nat.pos_of_ne_zero (mt hzero.mpr h)
      have hle : (1 : UInt32) ≤ outLength := UInt32.le_iff_toNat_le.mpr hone
      rw [UInt32.toNat_sub_of_le _ _ hle]
      exact Nat.sub_add_cancel hone
  obtain hfits | hfull :=
    Nat.lt_or_ge ((outLength - 1).toNat + 1) (numeral baseParam.toNat n.toNat).length
  · obtain ⟨written, hwritten, hcount⟩ := tostring256_full n hb hb16 hfits
    have hne : outLength ≠ 0 := by
      rintro rfl
      rw [if_pos rfl] at hminus
      omega
    rw [if_neg hne] at hminus
    refine iff_of_true ⟨false, written, hwritten, by omega, ?_⟩ ⟨hne, by omega⟩
    exact iff_of_false Bool.false_ne_true (by omega)
  · have hprinted := tostring256_eq n baseParam outLength hb hb16 hfull
    have hwritten : ((numeral baseParam.toNat n.toNat).map digitByte ++ [0]).length =
        (numeral baseParam.toNat n.toNat).length + 1 := by
      rw [List.length_append, List.length_map, List.length_singleton]
    constructor
    · rintro ⟨printed, written, hsome, hbound, -⟩
      rw [hprinted, Option.some.injEq, Prod.mk.injEq] at hsome
      rw [← hsome.2, hwritten] at hbound
      constructor
      · intro h
        rw [hzero.mp h] at hbound
        omega
      · omega
    · rintro ⟨hne, hdigits⟩
      rw [if_neg hne] at hminus
      exact ⟨true, _, hprinted, by omega, iff_of_true rfl (by omega)⟩

theorem keepsToBuffer_iff_hex :
    KeepsToBuffer ⟨⟨0, 0⟩, ⟨1, 2⟩⟩ 16 18 ↔
      (18 : UInt32) ≠ 0 ∧
        (18 : UInt32).toNat ≠
          (numeral (16 : UInt32).toNat (⟨⟨0, 0⟩, ⟨1, 2⟩⟩ : Uint256).toNat).length :=
  keepsToBuffer_iff ⟨⟨0, 0⟩, ⟨1, 2⟩⟩ (by decide) (by decide)

/-- The digit of seven fills a buffer of one byte; the NUL is written behind it. -/
theorem not_keepsToBuffer_seven :
    tostring256 ⟨⟨0, 0⟩, ⟨0, 7⟩⟩ 10 1 = some (true, [55, 0]) ∧
      ¬KeepsToBuffer ⟨⟨0, 0⟩, ⟨0, 7⟩⟩ 10 1 := by
  have hrun : tostring256 ⟨⟨0, 0⟩, ⟨0, 7⟩⟩ 10 1 = some (true, [55, 0]) := by decide
  refine ⟨hrun, ?_⟩
  rintro ⟨printed, written, hsome, hbound, -⟩
  rw [hrun, Option.some.injEq, Prod.mk.injEq] at hsome
  rw [← hsome.2] at hbound
  exact absurd hbound (by decide)

end AppVechain

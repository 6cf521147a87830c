import AppVechain.Display.Reading

/-!
# Scaling a number

`adjustDecimals` of `common/vetUtils.c` for every text of digits, every number of
decimals and every size of the target. Its two layouts check the size of the
target in their own way; what is refused has not enough room for the text with
all its zeros and two more bytes.
-/

namespace AppVechain

open Numeral

/-- The text that `adjustDecimals` writes before it cuts the zeros at the end off. -/
def untrimmedText (text : List UInt8) (decimals : UInt8) : List UInt8 :=
  if text.length = 1 ∧ text.head? = some zeroChar then text
  else if text.length ≤ decimals.toNat then
    zeroChar :: pointChar :: (List.replicate (decimals.toNat - text.length) zeroChar ++ text)
  else
    text.take (text.length - decimals.toNat) ++ (if decimals ≠ 0 then [pointChar] else []) ++
      text.drop (text.length - decimals.toNat)

/-- `adjustDecimals` keeps to the target, leaves the canonical text of the fraction
there, and refuses only a target that is too small. -/
structure ScalesExactly (src text : List UInt8) (targetLength : UInt32) (decimals : UInt8) (n : ℕ) :
    Prop where
  bounded : (adjustDecimals src text.length targetLength.toNat decimals).2.length ≤
    targetLength.toNat
  scaled : (adjustDecimals src text.length targetLength.toNat decimals).1 = true →
    ∃ out, HoldsString (adjustDecimals src text.length targetLength.toNat decimals).2 out ∧
      CanonicalDecimal out ∧ readDecimal out = some ((n : ℚ) / 10 ^ decimals.toNat)
  refused : (adjustDecimals src text.length targetLength.toNat decimals).1 = false →
    targetLength.toNat < (untrimmedText text decimals).length + 2

@[simp] theorem trimTarget_length (target : List UInt8) (startOffset : ℕ) :
    (trimTarget target startOffset).length = target.length + 1 := by
  rw [trimTarget]
  split
  · simp only
    split <;> simp
  · simp

/-- **No byte is written behind the target** when the sizes are added without wrapping. -/
theorem adjustDecimals_length_le (src : List UInt8) {srcLength : ℕ} (targetLength : ℕ)
    (decimals : UInt8) (h : srcLength + 2 < 2 ^ 32) :
    (adjustDecimals src srcLength targetLength decimals).2.length ≤ targetLength := by
  have hsize := decimals.toNat_lt
  rw [adjustDecimals]
  split
  · split
    · exact Nat.zero_le _
    · simp only [List.length_cons, List.length_nil]
      omega
  · split
    · simp only
      split
      · exact Nat.zero_le _
      · simp only [trimTarget_length, List.length_append, List.length_cons, List.length_replicate,
          List.length_take]
        omega
    · simp only
      split
      · exact Nat.zero_le _
      · have hpoint : (if decimals ≠ 0 then [pointChar] else []).length ≤ 1 := by
          split <;> simp
        simp only [trimTarget_length, List.length_append, List.length_take, List.length_drop]
        omega

/-- What follows the digits in the source is not read. -/
theorem adjustDecimals_append {text : List UInt8} (hne : text ≠ []) (rest rest' : List UInt8)
    (targetLength : ℕ) (decimals : UInt8) :
    adjustDecimals (text ++ rest) text.length targetLength decimals =
      adjustDecimals (text ++ rest') text.length targetLength decimals := by
  have hfirst (rest : List UInt8) : (text ++ rest).getD 0 0 = text.getD 0 0 := by
    rw [List.getD_append _ _ _ _ (List.length_pos_of_ne_nil hne)]
  have htake (rest : List UInt8) : (text ++ rest).take text.length = text := List.take_left
  have hhead (rest : List UInt8) : (text ++ rest).take (text.length - decimals.toNat) =
      text.take (text.length - decimals.toNat) :=
    List.take_append_of_le_length (Nat.sub_le _ _)
  simp only [adjustDecimals, hfirst, htake, hhead]

/-- **The two outcomes of `adjustDecimals`**: the target is too small, or the fraction is
left there. -/
theorem adjustDecimals_cases (n : ℕ) (targetLength : UInt32) (decimals : UInt8)
    (hlength : (numeral 10 n).length + 2 < 2 ^ 32) :
    (adjustDecimals (digitsText (numeral 10 n) ++ [0]) (numeral 10 n).length targetLength.toNat
        decimals = (false, []) ∧
      targetLength.toNat < (untrimmedText (digitsText (numeral 10 n)) decimals).length + 2) ∨
    ∃ out, adjustDecimals (digitsText (numeral 10 n) ++ [0]) (numeral 10 n).length
        targetLength.toNat decimals = (true, out) ∧
      HoldsString out (decimalText decimals.toNat n) := by
  have hsize := decimals.toNat_lt
  have htext : (digitsText (numeral 10 n)).length = (numeral 10 n).length := List.length_map _
  have huntrimmed (hn : n ≠ 0) : (untrimmedText (digitsText (numeral 10 n)) decimals).length =
      if (numeral 10 n).length ≤ decimals.toNat then decimals.toNat + 2
      else (numeral 10 n).length + if decimals ≠ 0 then 1 else 0 := by
    have hfirst : ¬((digitsText (numeral 10 n)).length = 1 ∧
        (digitsText (numeral 10 n)).head? = some zeroChar) := by
      rintro ⟨hone, hhead⟩
      refine numeral_ne_zeroText hn ⟨htext ▸ hone, ?_⟩
      rw [List.getD_append _ _ _ _ (by omega), List.getD_eq_getElem?_getD, ← List.head?_eq_getElem?,
        hhead]
      rfl
    rw [untrimmedText, if_neg hfirst, htext]
    split
    · simp only [List.length_cons, List.length_append, List.length_replicate, htext]
      omega
    · rw [List.length_append, List.length_append, List.length_take, List.length_drop, htext]
      split <;> simp only [List.length_singleton, List.length_nil] <;> omega
  by_cases hn : n = 0
  · subst hn
    by_cases hroom : targetLength.toNat < 2
    · refine .inl ⟨?_, hroom.trans_le (Nat.le_add_left 2 _)⟩
      rw [adjustDecimals, if_pos ⟨rfl, rfl⟩, if_pos hroom]
    · refine .inr ⟨[zeroChar, 0], ?_, ?_⟩
      · rw [adjustDecimals, if_pos ⟨rfl, rfl⟩, if_neg hroom]
      · rw [decimalText_zero]
        exact ⟨[], rfl, by simp [zeroChar]⟩
  · obtain hlong | hshort := Nat.lt_or_ge decimals.toNat (numeral 10 n).length
    · obtain hsmall | hroom := Nat.lt_or_ge targetLength.toNat ((numeral 10 n).length + 2)
      · refine .inl ⟨?_, ?_⟩
        · rw [adjustDecimals, if_neg (numeral_ne_zeroText hn), if_neg (by omega)]
          simp only
          rw [if_pos (by omega)]
        · rw [huntrimmed hn, if_neg (by omega)]
          omega
      · exact .inr (adjustDecimals_long hn hlong hroom targetLength.toNat_lt)
    · obtain hsmall | hroom := Nat.lt_or_ge targetLength.toNat (decimals.toNat + 3)
      · refine .inl ⟨?_, ?_⟩
        · rw [adjustDecimals, if_neg (numeral_ne_zeroText hn), if_pos hshort]
          simp only
          rw [if_pos (by omega)]
        · rw [huntrimmed hn, if_pos hshort]
          omega
      · exact .inr (adjustDecimals_short hn hshort hroom)

/-- **`adjustDecimals` scales exactly** every number whose size can be added to. -/
theorem adjustDecimals_scalesExactly {src text : List UInt8} {n : ℕ} (targetLength : UInt32)
    (decimals : UInt8) (hsrc : HoldsString src text) (hcanonical : CanonicalNumeral 10 text)
    (hvalue : readNumeral 10 text = some n) (hlength : text.length + 2 < 2 ^ 32) :
    ScalesExactly src text targetLength decimals n := by
  obtain ⟨rest, rfl, -⟩ := hsrc
  have hne := hcanonical.ne_nil
  obtain rfl := (canonicalNumeral_iff (by omega) (by omega)).mp ⟨hcanonical, hvalue⟩
  have htext : (digitsText (numeral 10 n)).length = (numeral 10 n).length := List.length_map _
  have hsource := adjustDecimals_append hne (0 :: rest) [0] targetLength.toNat decimals
  refine ⟨adjustDecimals_length_le _ _ _ hlength, ?_, ?_⟩
  all_goals
    rw [hsource, htext]
    intro hresult
    obtain ⟨hrun, hsmall⟩ | ⟨out, hrun, hholds⟩ :=
      adjustDecimals_cases n targetLength decimals (htext ▸ hlength)
  · rw [hrun] at hresult
    exact absurd hresult Bool.false_ne_true
  · rw [hrun]
    exact ⟨_, hholds, canonicalDecimal_decimalText _ _, readDecimal_decimalText _ _⟩
  · exact hsmall
  · rw [hrun] at hresult
    exact absurd hresult.symm Bool.false_ne_true

/-- One unit of a currency with eighteen decimals, in a target of 21 bytes. -/
theorem adjustDecimals_scalesExactly_unit : ScalesExactly [49, 0] [49] 21 18 1 :=
  adjustDecimals_scalesExactly 21 18 ⟨[], rfl, by decide⟩
    ⟨by decide, by decide, by decide⟩ (by decide) (by decide)

/-- A text of ones is canonical. -/
theorem ones_canonical {k : ℕ} (hk : 0 < k) : CanonicalNumeral 10 (List.replicate k 49) := by
  have hdigits : readDigits 10 (List.replicate k 49) = some (List.replicate k 1) := by
    rw [readDigits_eq_some_iff (by omega)]
    refine ⟨fun x hx => ?_, ?_⟩
    · rw [List.eq_of_mem_replicate hx]
      omega
    · rw [digitsText, List.map_replicate]
      rfl
  refine ⟨by rw [readNumeral, hdigits]; rfl, ?_, fun hhead => ?_⟩
  · exact List.ne_nil_of_length_pos (by rwa [List.length_replicate])
  · have hmem := List.eq_of_mem_replicate (List.mem_of_head? hhead)
    exact absurd hmem (by decide)

/-- Two more than the size of the source wraps to zero, and no target is too small. -/
theorem not_scalesExactly_wrap :
    ∃ n, readNumeral 10 (List.replicate (2 ^ 32 - 2) 49) = some n ∧
      CanonicalNumeral 10 (List.replicate (2 ^ 32 - 2) 49) ∧
      ¬ScalesExactly (List.replicate (2 ^ 32 - 2) 49 ++ [0]) (List.replicate (2 ^ 32 - 2) 49) 0 0
        n := by
  generalize hk : 2 ^ 32 - 2 = k
  have hcanonical := ones_canonical (k := k) (by omega)
  obtain ⟨n, hn⟩ := Option.isSome_iff_exists.mp hcanonical.readable
  refine ⟨n, hn, hcanonical, fun h => ?_⟩
  have hbounded := h.bounded
  rw [List.length_replicate, adjustDecimals, if_neg (by omega),
    if_neg (by rw [UInt8.toNat_zero]; omega)] at hbounded
  simp only at hbounded
  rw [if_neg (by rw [UInt32.toNat_zero]; omega), trimTarget_length] at hbounded
  exact absurd hbounded (by rw [UInt32.toNat_zero]; omega)

end AppVechain

import AppVechain.Display.Decimals
import AppVechain.Numeral.Canonical

/-!
# Reading numbers back

What a printed number says to its reader: the number of a text of digits, and
the fraction of a text with a point. The texts that the application prints are
canonical and say the number that was printed.
-/

namespace AppVechain

open Numeral

/-- The digit below `b` that a character stands for. -/
def charDigit (b : ℕ) (c : UInt8) : Option ℕ :=
  if 48 ≤ c.toNat ∧ c.toNat ≤ 57 ∧ c.toNat - 48 < b then some (c.toNat - 48)
  else if 97 ≤ c.toNat ∧ c.toNat ≤ 102 ∧ c.toNat - 87 < b then some (c.toNat - 87)
  else none

/-- The digits that a text stands for, if all its characters are digits. -/
def readDigits (b : ℕ) : List UInt8 → Option (List ℕ)
  | [] => some []
  | c :: text => do
    let x ← charDigit b c
    let digits ← readDigits b text
    some (x :: digits)

/-- The number that a text says in base `b`. -/
def readNumeral (b : ℕ) (text : List UInt8) : Option ℕ := (readDigits b text).map (digitsValue b)

/-- A text of digits that is not empty and has no superfluous leading zero. -/
structure CanonicalNumeral (b : ℕ) (text : List UInt8) : Prop where
  readable : (readNumeral b text).isSome
  ne_nil : text ≠ []
  leading : text.head? = some zeroChar → text = [zeroChar]

/-- The characters before and after the point. -/
def integerText (text : List UInt8) : List UInt8 := text.takeWhile (· != pointChar)
def fractionText (text : List UInt8) : List UInt8 := (text.dropWhile (· != pointChar)).drop 1

/-- The fraction that a text says. -/
def readDecimal (text : List UInt8) : Option ℚ := do
  let integer ← readDigits 10 (integerText text)
  let fraction ← readDigits 10 (fractionText text)
  some (fractionValue 10 integer fraction)

/-- A decimal text with at least one integer digit, no superfluous leading zero, a
point only if a digit follows, and no zero at the end of the fraction. -/
structure CanonicalDecimal (text : List UInt8) : Prop where
  readable : (readDecimal text).isSome
  integer : integerText text ≠ []
  leading : (integerText text).head? = some zeroChar → integerText text = [zeroChar]
  point : pointChar ∈ text → fractionText text ≠ []
  trailing : (fractionText text).getLast? ≠ some zeroChar

/-- The characters of the digits. -/
theorem digitByte_toNat : ∀ x < 16, (digitByte x).toNat = if x < 10 then 48 + x else 87 + x := by
  decide

/-- A character stands for the digit that it is printed for, and for no other. -/
theorem charDigit_eq_some_iff {b : ℕ} (hb : b ≤ 16) {c : UInt8} {x : ℕ} :
    charDigit b c = some x ↔ x < b ∧ c = digitByte x := by
  rw [charDigit]
  constructor
  · intro h
    have hbyte (hx : x < b) (hc : c.toNat = if x < 10 then 48 + x else 87 + x) :
        x < b ∧ c = digitByte x := by
      refine ⟨hx, UInt8.toNat_inj.mp ?_⟩
      rw [hc, digitByte_toNat x (by omega)]
    split_ifs at h with hdecimal hletter
    · rw [Option.some.injEq] at h
      exact hbyte (by omega) (by rw [if_pos (by omega)]; omega)
    · rw [Option.some.injEq] at h
      exact hbyte (by omega) (by rw [if_neg (by omega)]; omega)
  · rintro ⟨hx, rfl⟩
    rw [digitByte_toNat x (by omega)]
    by_cases hten : x < 10
    · rw [if_pos hten, if_pos (by omega), Nat.add_sub_cancel_left]
    · rw [if_neg hten, if_neg (by omega), if_pos (by omega), Nat.add_sub_cancel_left]

/-- A text stands for the digits that it is printed for, and for no others. -/
theorem readDigits_eq_some_iff {b : ℕ} (hb : b ≤ 16) {text : List UInt8} {digits : List ℕ} :
    readDigits b text = some digits ↔ (∀ x ∈ digits, x < b) ∧ text = digitsText digits := by
  induction text generalizing digits with
  | nil =>
    rw [readDigits, Option.some.injEq]
    constructor
    · rintro rfl
      exact ⟨by simp, rfl⟩
    · rintro ⟨-, h⟩
      simpa [digitsText] using h
  | cons c text ih =>
    simp only [readDigits, Option.bind_eq_bind, Option.bind_eq_some_iff, Option.some.injEq,
      charDigit_eq_some_iff hb, ih]
    constructor
    · rintro ⟨x, ⟨hx, rfl⟩, rest, ⟨hrest, rfl⟩, rfl⟩
      exact ⟨List.forall_mem_cons.mpr ⟨hx, hrest⟩, rfl⟩
    · rintro ⟨hlt, htext⟩
      cases digits with
      | nil => simp [digitsText] at htext
      | cons x rest =>
        obtain ⟨rfl, rfl⟩ := List.cons.inj htext
        obtain ⟨hx, hrest⟩ := List.forall_mem_cons.mp hlt
        exact ⟨x, ⟨hx, rfl⟩, rest, ⟨hrest, rfl⟩, rfl⟩

theorem readDigits_digitsText {b : ℕ} (hb : b ≤ 16) {digits : List ℕ} (h : ∀ x ∈ digits, x < b) :
    readDigits b (digitsText digits) = some digits :=
  (readDigits_eq_some_iff hb).mpr ⟨h, rfl⟩

/-- Of the digits, only `0` is written by the character of zero. -/
theorem digitByte_eq_zeroChar_iff {x : ℕ} (h : x < 16) : digitByte x = zeroChar ↔ x = 0 := by
  revert x
  decide

/-- A text of digits starts with `'0'` when its digits do. -/
theorem digitsText_head {digits : List ℕ} (h : ∀ x ∈ digits, x < 16)
    (hhead : (digitsText digits).head? = some zeroChar) : digits.head? = some 0 := by
  rw [digitsText, List.head?_map, Option.map_eq_some_iff] at hhead
  obtain ⟨x, hx, hzero⟩ := hhead
  rw [hx, (digitByte_eq_zeroChar_iff (h x (List.mem_of_head? hx))).mp hzero]

/-- **Printing and reading.** The canonical texts that say a number are one: its numeral. -/
theorem canonicalNumeral_iff {b n : ℕ} (hb : 1 < b) (hb16 : b ≤ 16) {text : List UInt8} :
    CanonicalNumeral b text ∧ readNumeral b text = some n ↔ text = digitsText (numeral b n) := by
  constructor
  · rintro ⟨⟨-, hne, hleading⟩, hread⟩
    obtain ⟨digits, hdigits, rfl⟩ := Option.map_eq_some_iff.mp hread
    obtain ⟨hlt, rfl⟩ := (readDigits_eq_some_iff hb16).mp hdigits
    have hcanonical : CanonicalDigits b digits := by
      refine ⟨fun hnil => hne (by rw [hnil]; rfl), hlt, fun hhead => ?_⟩
      have htext := hleading (by rw [digitsText, List.head?_map, hhead]; rfl)
      have hlength : digits.length = 1 := by simpa [digitsText] using congrArg List.length htext
      obtain ⟨x, rfl⟩ := List.length_eq_one_iff.mp hlength
      rw [List.head?_cons, Option.some.injEq] at hhead
      rw [hhead]
    rw [numeral_digitsValue hb hcanonical]
  · rintro rfl
    have hcanonical := canonicalDigits_numeral hb n
    have hread : readNumeral b (digitsText (numeral b n)) = some n := by
      rw [readNumeral, readDigits_digitsText hb16 hcanonical.lt_base, Option.map_some,
        digitsValue_numeral hb]
    refine ⟨⟨by rw [hread]; rfl, by simpa [digitsText] using hcanonical.ne_nil, fun hhead => ?_⟩,
      hread⟩
    rw [hcanonical.leading (digitsText_head (fun x hx => (hcanonical.lt_base x hx).trans_le hb16)
      hhead)]
    rfl

theorem integerDigits_lt (d n : ℕ) : ∀ x ∈ integerDigits 10 d n, x < 10 :=
  (canonicalDigits_integerDigits (by omega) d n).lt_base

theorem fractionDigits_lt (d n : ℕ) : ∀ x ∈ fractionDigits 10 d n, x < 10 := fun _ hx =>
  fractionDigits_lt_base (by omega) hx

/-- Digits are no points. -/
theorem digitsText_ne_pointChar {digits : List ℕ} (h : ∀ x ∈ digits, x < 10) :
    ∀ c ∈ digitsText digits, (c != pointChar) = true := by
  intro c hc
  obtain ⟨x, hx, rfl⟩ := List.mem_map.mp hc
  simpa using (digitByte_spec (h x hx)).2.1

/-- The characters before the point are those of the integer part. -/
theorem integerText_decimalText (d n : ℕ) :
    integerText (decimalText d n) = digitsText (integerDigits 10 d n) := by
  rw [integerText, decimalText, ← digitsText,
    List.takeWhile_append_of_pos (digitsText_ne_pointChar (integerDigits_lt d n))]
  split <;> simp

/-- The characters after the point are those of the fraction. -/
theorem fractionText_decimalText (d n : ℕ) :
    fractionText (decimalText d n) = digitsText (fractionDigits 10 d n) := by
  rw [fractionText, decimalText, ← digitsText,
    List.dropWhile_append_of_pos (digitsText_ne_pointChar (integerDigits_lt d n))]
  split
  case isTrue hnil => rw [hnil]; rfl
  case isFalse hcons => simp [digitsText]

/-- **A printed fraction is read as the fraction.** -/
theorem readDecimal_decimalText (d n : ℕ) :
    readDecimal (decimalText d n) = some ((n : ℚ) / 10 ^ d) := by
  rw [readDecimal, integerText_decimalText, fractionText_decimalText,
    readDigits_digitsText (by omega) (integerDigits_lt d n),
    readDigits_digitsText (by omega) (fractionDigits_lt d n), Option.bind_eq_bind,
    Option.bind_some, Option.bind_some, fractionValue_digits (by omega) d n]
  rfl

/-- **A printed fraction is canonical.** -/
theorem canonicalDecimal_decimalText (d n : ℕ) : CanonicalDecimal (decimalText d n) := by
  have hinteger := canonicalDigits_integerDigits (b := 10) (by omega) d n
  have hlt : ∀ x ∈ integerDigits 10 d n, x < 16 := fun x hx =>
    (hinteger.lt_base x hx).trans (by omega)
  constructor
  · rw [readDecimal_decimalText]
    rfl
  · rw [integerText_decimalText]
    simpa [digitsText] using hinteger.ne_nil
  · rw [integerText_decimalText]
    intro hhead
    rw [hinteger.leading (digitsText_head hlt hhead)]
    rfl
  · intro hpoint
    rw [fractionText_decimalText]
    intro hnil
    have hfraction : fractionDigits 10 d n = [] := by simpa [digitsText] using hnil
    rw [decimalText, if_pos hfraction, List.append_nil, ← digitsText] at hpoint
    have hne := digitsText_ne_pointChar (integerDigits_lt d n) _ hpoint
    exact bne_iff_ne.mp hne rfl
  · rw [fractionText_decimalText, digitsText, List.getLast?_map]
    intro hlast
    obtain ⟨x, hx, hzero⟩ := Option.map_eq_some_iff.mp hlast
    have hmem := fractionDigits_lt d n x (List.mem_of_getLast? hx)
    rw [(digitByte_spec hmem).2.2.mp hzero] at hx
    exact fractionDigits_getLast? 10 d n hx

end AppVechain

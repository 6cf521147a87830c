import AppVechain.Numeral.Decimal
import Mathlib.Data.Rat.Cast.Order
import Mathlib.Tactic.FieldSimp

/-!
# Canonical numerals and fractions

A list of digits without a superfluous leading zero is the numeral of its value.
The digits before and after the point of `n / b ^ d` have the value `n / b ^ d`,
the first of them are canonical and the last of them is not zero.
-/

namespace Numeral

variable {b : ℕ}

/-- Digits of a numeral: at least one, and a leading zero only in `0`. -/
structure CanonicalDigits (b : ℕ) (digits : List ℕ) : Prop where
  ne_nil : digits ≠ []
  lt_base : ∀ x ∈ digits, x < b
  leading : digits.head? = some 0 → digits = [0]

/-- The digits of a number are canonical. -/
theorem canonicalDigits_numeral (hb : 1 < b) (n : ℕ) : CanonicalDigits b (numeral b n) := by
  refine ⟨numeral_ne_nil, fun x hx => numeral_lt_base hb hx, fun hhead => ?_⟩
  by_cases hn : n = 0
  · rw [numeral, if_pos hn]
  · obtain ⟨x, rest, hrest, hx⟩ := numeral_head hb hn
    rw [hrest, List.head?_cons, Option.some.injEq] at hhead
    exact absurd hhead hx

/-- A canonical list without its last digit is canonical. -/
theorem CanonicalDigits.front {front : List ℕ} {x : ℕ} (h : CanonicalDigits b (front ++ [x]))
    (hne : front ≠ []) : CanonicalDigits b front ∧ front.head? ≠ some 0 := by
  have hhead : front.head? ≠ some 0 := by
    intro hzero
    have hall := h.leading (by rw [List.head?_append_of_ne_nil _ hne, hzero])
    have hlength := congrArg List.length hall
    rw [List.length_append, List.length_singleton, List.length_singleton] at hlength
    exact hne (List.length_eq_zero_iff.mp (by omega))
  exact ⟨⟨hne, fun y hy => h.lt_base y (List.mem_append_left _ hy),
    fun hzero => absurd hzero hhead⟩,
    hhead⟩

/-- **Uniqueness.** A canonical list of digits is the numeral of its value. -/
theorem numeral_digitsValue (hb : 1 < b) {digits : List ℕ} (h : CanonicalDigits b digits) :
    numeral b (digitsValue b digits) = digits := by
  induction digits using List.reverseRecOn with
  | nil => exact absurd rfl h.ne_nil
  | append_singleton front x ih =>
    have hx : x < b := h.lt_base x (by simp)
    rw [digitsValue_concat]
    by_cases hnil : front = []
    · subst hnil
      have hzero : digitsValue b [] = 0 := rfl
      rw [hzero, Nat.zero_mul, Nat.zero_add, numeral_of_lt hx, List.nil_append]
    · obtain ⟨hfront, hhead⟩ := h.front hnil
      have hvalue : digitsValue b front ≠ 0 := by
        intro hzero
        have hnumeral := ih hfront
        rw [hzero, numeral_of_lt (by omega)] at hnumeral
        rw [← hnumeral] at hhead
        exact hhead rfl
      have hle : b ≤ digitsValue b front * b + x :=
        (Nat.le_mul_of_pos_left b (Nat.pos_of_ne_zero hvalue)).trans (Nat.le_add_right _ x)
      have hdiv : (digitsValue b front * b + x) / b = digitsValue b front := by
        rw [Nat.add_comm, Nat.add_mul_div_right _ _ (by omega), Nat.div_eq_of_lt hx, Nat.zero_add]
      have hmod : (digitsValue b front * b + x) % b = x := by
        rw [Nat.add_comm, Nat.add_mul_mod_self_right, Nat.mod_eq_of_lt hx]
      rw [numeral_of_le hb hle, hdiv, hmod, ih hfront]

/-- Zeros at the end of the digits scale the number. -/
theorem digitsValue_append_zeros (digits : List ℕ) (k : ℕ) :
    digitsValue b (digits ++ List.replicate k 0) = digitsValue b digits * b ^ k := by
  induction k with
  | zero => simp
  | succ k ih =>
    rw [List.replicate_succ', ← List.append_assoc, digitsValue_concat, ih, Nat.add_zero, pow_succ,
      Nat.mul_assoc]

/-- The digits before the point are canonical. -/
theorem canonicalDigits_integerDigits (hb : 1 < b) (d n : ℕ) :
    CanonicalDigits b (integerDigits b d n) :=
  canonicalDigits_numeral hb _

theorem fractionDigits_lt_base (hb : 1 < b) {d n x : ℕ} (hx : x ∈ fractionDigits b d n) : x < b :=
  paddedDigits_lt_base (by omega) ((List.rdropWhile_prefix _ _).subset hx)

/-- No zero is left at the end of the digits after the point. -/
theorem fractionDigits_getLast? (b d n : ℕ) : (fractionDigits b d n).getLast? ≠ some 0 := by
  intro hlast
  have hne : fractionDigits b d n ≠ [] := by
    intro hnil
    rw [hnil] at hlast
    cases hlast
  have hkept := List.rdropWhile_last_not (· == 0) (paddedDigits b d n) hne
  rw [List.getLast?_eq_some_getLast hne, Option.some.injEq] at hlast
  exact hkept (by simpa [fractionDigits, trimZeros] using hlast)

/-- The number that digits before and after a point stand for. -/
def fractionValue (b : ℕ) (integer fraction : List ℕ) : ℚ :=
  digitsValue b integer + digitsValue b fraction / (b : ℚ) ^ fraction.length

/-- **The digits of `n / b ^ d` have the value `n / b ^ d`.** -/
theorem fractionValue_digits (hb : 1 < b) (d n : ℕ) :
    fractionValue b (integerDigits b d n) (fractionDigits b d n) = n / (b : ℚ) ^ d := by
  have hpos : (b : ℚ) ≠ 0 := by
    rw [Nat.cast_ne_zero]
    omega
  have hle : (fractionDigits b d n).length ≤ d := by
    rw [fractionDigits, trimZeros_paddedDigits_length_le (by omega), Nat.sub_self, pow_zero]
    exact one_dvd n
  -- the zeros that were trimmed count for the remainder
  have hfraction : digitsValue b (fractionDigits b d n) * b ^ (d - (fractionDigits b d n).length) =
      n % b ^ d := by
    rw [← digitsValue_append_zeros, ← digitsValue_paddedDigits (b := b) (k := d) (n := n)]
    have htrim := trimZeros_append (paddedDigits b d n)
    rw [paddedDigits_length] at htrim
    exact congrArg (digitsValue b) htrim
  have hpow : (b : ℚ) ^ d =
      b ^ (d - (fractionDigits b d n).length) * b ^ (fractionDigits b d n).length := by
    rw [← pow_add, Nat.sub_add_cancel hle]
  have hremainder : (digitsValue b (fractionDigits b d n) : ℚ) / b ^ (fractionDigits b d n).length =
      (n % b ^ d : ℕ) / (b : ℚ) ^ d := by
    rw [← hfraction, hpow, Nat.cast_mul, Nat.cast_pow]
    field_simp
  have hdivision : (n : ℚ) = (n / b ^ d : ℕ) * (b : ℚ) ^ d + (n % b ^ d : ℕ) := by
    exact_mod_cast (Nat.div_add_mod' n (b ^ d)).symm
  rw [fractionValue, hremainder, integerDigits, digitsValue_numeral hb, eq_div_iff (by positivity),
    add_mul, div_mul_cancel₀ _ (by positivity), ← hdivision]

end Numeral

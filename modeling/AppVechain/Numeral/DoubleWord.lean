import Mathlib.Data.Nat.Bitwise
import Mathlib.Tactic.Positivity
import Mathlib.Tactic.Ring

/-!
# Numbers of two words

A number below `W * W` is held as an upper and a lower word below `W`, and its
value is `upper * W + lower`. The identities below say how sums, differences,
comparisons, shifts and disjunctions act on the two words. They hold for every
word size, so that a pair of pairs is covered as well.
-/

namespace Numeral

section Words

variable {W a₁ a₀ b₁ b₀ : ℕ}

/-- Two words below `W` hold a number below `W * W`. -/
theorem doubleWord_lt (h₁ : a₁ < W) (h₀ : a₀ < W) : a₁ * W + a₀ < W * W := by
  calc a₁ * W + a₀ < a₁ * W + W := by omega
    _ = (a₁ + 1) * W := by ring
    _ ≤ W * W := Nat.mul_le_mul_right W h₁

/-- Two words are determined by the number they hold. -/
theorem doubleWord_inj (ha : a₀ < W) (hb : b₀ < W) :
    a₁ * W + a₀ = b₁ * W + b₀ ↔ a₁ = b₁ ∧ a₀ = b₀ := by
  refine ⟨fun h => ?_, fun ⟨h₁, h₀⟩ => by rw [h₁, h₀]⟩
  have hupper : a₁ = b₁ := by
    have hdiv := congrArg (· / W) h
    simpa [Nat.mul_comm _ W, Nat.mul_add_div (by omega : 0 < W), Nat.div_eq_of_lt ha,
      Nat.div_eq_of_lt hb] using hdiv
  exact ⟨hupper, by rw [hupper] at h; omega⟩

/-- Comparison looks at the lower words when the upper words are equal. -/
theorem doubleWord_lt_iff (ha : a₀ < W) (hb : b₀ < W) :
    a₁ * W + a₀ < b₁ * W + b₀ ↔ a₁ < b₁ ∨ a₁ = b₁ ∧ a₀ < b₀ := by
  obtain h | rfl | h := Nat.lt_trichotomy a₁ b₁
  · have hle : a₁ * W + W ≤ b₁ * W := by
      calc a₁ * W + W = (a₁ + 1) * W := by ring
        _ ≤ b₁ * W := Nat.mul_le_mul_right W h
    constructor <;> intro _ <;> omega
  · constructor <;> intro _ <;> omega
  · have hle : b₁ * W + W ≤ a₁ * W := by
      calc b₁ * W + W = (b₁ + 1) * W := by ring
        _ ≤ a₁ * W := Nat.mul_le_mul_right W h
    constructor <;> intro _ <;> omega

/-- The remainder by `W * W` leaves the lower word alone. -/
theorem doubleWord_mod (ha : a₀ < W) : (a₁ * W + a₀) % (W * W) = a₁ % W * W + a₀ := by
  have hW : 0 < W := by omega
  have hsplit : a₁ * W + a₀ = W * W * (a₁ / W) + (a₁ % W * W + a₀) := by
    conv_lhs => rw [← Nat.div_add_mod a₁ W]
    ring
  rw [hsplit, Nat.mul_add_mod, Nat.mod_eq_of_lt (doubleWord_lt (Nat.mod_lt _ hW) ha)]

/-- The carry is seen by comparing the lower sum with a summand. -/
theorem add_mod_lt_iff (ha : a₀ < W) (hb : b₀ < W) : (a₀ + b₀) % W < a₀ ↔ W ≤ a₀ + b₀ := by
  obtain h | h := Nat.lt_or_ge (a₀ + b₀) W
  · rw [Nat.mod_eq_of_lt h]; omega
  · rw [Nat.mod_eq_sub_mod h, Nat.mod_eq_of_lt (by omega)]; omega

/-- Addition of two words, with the carry into the upper word. -/
theorem doubleWord_add (a₁ b₁ : ℕ) (ha : a₀ < W) (hb : b₀ < W) :
    (a₁ + b₁ + if (a₀ + b₀) % W < a₀ then 1 else 0) % W * W + (a₀ + b₀) % W =
      (a₁ * W + a₀ + (b₁ * W + b₀)) % (W * W) := by
  have hW : 0 < W := by omega
  rw [← doubleWord_mod (Nat.mod_lt _ hW)]
  congr 1
  split
  case isTrue h =>
    rw [add_mod_lt_iff ha hb] at h
    rw [Nat.mod_eq_sub_mod h, Nat.mod_eq_of_lt (by omega), Nat.add_mul, Nat.add_mul]
    omega
  case isFalse h =>
    rw [add_mod_lt_iff ha hb] at h
    rw [Nat.mod_eq_of_lt (by omega), Nat.add_mul, Nat.add_mul]
    omega

/-- Subtraction modulo `W`. -/
def subMod (W a b : ℕ) : ℕ := (W - b + a) % W

/-- The borrow is seen by comparing the lower difference with the minuend. -/
theorem lt_subMod_iff (ha : a₀ < W) (hb : b₀ < W) : a₀ < subMod W a₀ b₀ ↔ a₀ < b₀ := by
  rw [subMod]
  obtain h | h := Nat.lt_or_ge a₀ b₀
  · rw [Nat.mod_eq_of_lt (by omega)]; omega
  · rw [Nat.mod_eq_sub_mod (by omega), Nat.mod_eq_of_lt (by omega)]; omega

/-- Subtraction of two words, with the borrow from the upper word. -/
theorem doubleWord_sub (a₁ : ℕ) (ha : a₀ < W) (hb : b₀ < W) (hb₁ : b₁ < W) :
    subMod W (subMod W a₁ b₁) (if a₀ < subMod W a₀ b₀ then 1 else 0) * W + subMod W a₀ b₀ =
      subMod (W * W) (a₁ * W + a₀) (b₁ * W + b₀) := by
  have hW : 0 < W := by omega
  have hlow : subMod W a₀ b₀ < W := Nat.mod_lt _ hW
  have hupper (c : ℕ) (hc : c ≤ 1) :
      subMod W (subMod W a₁ b₁) c = (2 * W - b₁ - c + a₁) % W := by
    rw [subMod, subMod, Nat.add_mod_mod]
    have hone : 1 ≤ W := hW
    rw [show W - c + (W - b₁ + a₁) = 2 * W - b₁ - c + a₁ by omega]
  have hlt : b₁ * W + b₀ < W * W := doubleWord_lt hb₁ hb
  have hbW : b₁ * W ≤ W * W := Nat.mul_le_mul_right W hb₁.le
  conv_rhs => rw [subMod]
  split
  case isTrue h =>
    rw [lt_subMod_iff ha hb] at h
    have hval : subMod W a₀ b₀ = W - b₀ + a₀ := Nat.mod_eq_of_lt (by omega)
    rw [hupper 1 le_rfl, ← doubleWord_mod hlow, hval, ← Nat.add_mod_right (W * W - _ + _)]
    congr 1
    have hfactor : (2 * W - b₁ - 1 + a₁) * W = 2 * (W * W) - b₁ * W - W + a₁ * W := by
      rw [Nat.add_mul, Nat.sub_mul, Nat.sub_mul, Nat.one_mul, Nat.mul_assoc]
    have hone : W + b₁ * W ≤ 2 * (W * W) := by
      have : W * 1 ≤ W * W := Nat.mul_le_mul_left W hW
      omega
    omega
  case isFalse h =>
    rw [lt_subMod_iff ha hb] at h
    have hval : subMod W a₀ b₀ = a₀ - b₀ := by
      rw [subMod, Nat.mod_eq_sub_mod (by omega), Nat.mod_eq_of_lt (by omega)]
      omega
    rw [hupper 0 (by omega), ← doubleWord_mod hlow, hval, ← Nat.add_mod_right (W * W - _ + _)]
    congr 1
    have hfactor : (2 * W - b₁ - 0 + a₁) * W = 2 * (W * W) - b₁ * W + a₁ * W := by
      rw [Nat.sub_zero, Nat.add_mul, Nat.sub_mul, Nat.mul_assoc]
    omega

@[simp] theorem subMod_zero (W a : ℕ) : subMod W a 0 = a % W := by simp [subMod]

/-- A difference that is not negative is exact. -/
theorem subMod_of_le (hle : b₀ ≤ a₀) (ha : a₀ < W) : subMod W a₀ b₀ = a₀ - b₀ := by
  rw [subMod, Nat.mod_eq_sub_mod (by omega), Nat.mod_eq_of_lt (by omega)]
  omega

/-- `subMod` is the difference of the integers modulo `W`. -/
theorem subMod_cast (a : ℕ) {b : ℕ} (hb : b ≤ W) : (subMod W a b : ℤ) = ((a : ℤ) - b) % W := by
  rw [subMod, Int.natCast_mod, Nat.cast_add, Nat.cast_sub hb, ← Int.add_emod_right ((a : ℤ) - b) W]
  congr 1
  omega

end Words

section Bits

variable {w a₁ a₀ b₁ b₀ v : ℕ}

/-- Disjunction acts on each word by itself. -/
theorem doubleWord_or (a₁ b₁ : ℕ) (ha : a₀ < 2 ^ w) (hb : b₀ < 2 ^ w) :
    (a₁ ||| b₁) * 2 ^ w + (a₀ ||| b₀) = (a₁ * 2 ^ w + a₀) ||| (b₁ * 2 ^ w + b₀) := by
  have hor : a₀ ||| b₀ < 2 ^ w := Nat.or_lt_two_pow ha hb
  rw [Nat.mul_comm (a₁ ||| b₁), Nat.mul_comm a₁, Nat.mul_comm b₁]
  apply Nat.eq_of_testBit_eq
  intro i
  rw [Nat.testBit_or, Nat.testBit_two_pow_mul_add _ hor, Nat.testBit_two_pow_mul_add _ ha,
    Nat.testBit_two_pow_mul_add _ hb]
  split <;> rw [Nat.testBit_or]

/-- The parts of two words that a shift puts together do not overlap. -/
theorem shifted_fits (a₁ : ℕ) (ha : a₀ < 2 ^ w) (hv : v ≤ w) :
    a₁ * 2 ^ (w - v) % 2 ^ w + a₀ / 2 ^ v < 2 ^ w := by
  have hW : 2 ^ w = 2 ^ v * 2 ^ (w - v) := by rw [← pow_add, Nat.add_sub_cancel' hv]
  have hmod : a₁ * 2 ^ (w - v) % 2 ^ w = a₁ % 2 ^ v * 2 ^ (w - v) := by
    rw [hW, Nat.mul_mod_mul_right]
  have hlow : a₀ / 2 ^ v < 2 ^ (w - v) := Nat.div_lt_of_lt_mul (by rwa [← hW])
  rw [hmod]
  conv_rhs => rw [hW]
  calc _ < a₁ % 2 ^ v * 2 ^ (w - v) + 2 ^ (w - v) := by omega
    _ = (a₁ % 2 ^ v + 1) * 2 ^ (w - v) := by ring
    _ ≤ 2 ^ v * 2 ^ (w - v) := Nat.mul_le_mul_right _ (Nat.mod_lt _ (by positivity))

/-- A left shift by less than a word moves the top of the lower word up. -/
theorem doubleWord_shiftLeft (a₁ : ℕ) (ha : a₀ < 2 ^ w) (hv : v ≤ w) :
    (a₁ * 2 ^ v % 2 ^ w + a₀ / 2 ^ (w - v)) * 2 ^ w + a₀ * 2 ^ v % 2 ^ w =
      (a₁ * 2 ^ w + a₀) * 2 ^ v % (2 ^ w * 2 ^ w) := by
  have hW : 2 ^ w = 2 ^ (w - v) * 2 ^ v := by rw [← pow_add, Nat.sub_add_cancel hv]
  have hmod : a₀ * 2 ^ v % 2 ^ w < 2 ^ w := Nat.mod_lt _ (by positivity)
  have hdiv : a₀ * 2 ^ v / 2 ^ w = a₀ / 2 ^ (w - v) := by
    rw [hW, Nat.mul_div_mul_right _ _ (by positivity)]
  have hshift : (a₁ * 2 ^ w + a₀) * 2 ^ v =
      (a₁ * 2 ^ v + a₀ / 2 ^ (w - v)) * 2 ^ w + a₀ * 2 ^ v % 2 ^ w := by
    have hsplit := Nat.div_add_mod (a₀ * 2 ^ v) (2 ^ w)
    rw [hdiv] at hsplit
    calc (a₁ * 2 ^ w + a₀) * 2 ^ v = a₁ * 2 ^ v * 2 ^ w + a₀ * 2 ^ v := by ring
      _ = a₁ * 2 ^ v * 2 ^ w + (2 ^ w * (a₀ / 2 ^ (w - v)) + a₀ * 2 ^ v % 2 ^ w) := by rw [hsplit]
      _ = _ := by ring
  have hfits : a₁ * 2 ^ v % 2 ^ w + a₀ / 2 ^ (w - v) < 2 ^ w := by
    simpa [Nat.sub_sub_self hv] using shifted_fits (v := w - v) a₁ ha (by omega)
  rw [hshift, doubleWord_mod hmod, ← Nat.mod_add_mod, Nat.mod_eq_of_lt hfits]

/-- A left shift by a word or more leaves nothing of the upper word. -/
theorem doubleWord_shiftLeft_ge (a₁ a₀ : ℕ) (hv : w ≤ v) :
    a₀ * 2 ^ (v - w) % 2 ^ w * 2 ^ w + 0 = (a₁ * 2 ^ w + a₀) * 2 ^ v % (2 ^ w * 2 ^ w) := by
  rw [← doubleWord_mod (by positivity : 0 < 2 ^ w)]
  have hpow : 2 ^ v = 2 ^ (v - w) * 2 ^ w := by rw [← pow_add, Nat.sub_add_cancel hv]
  have hshift : (a₁ * 2 ^ w + a₀) * 2 ^ v =
      2 ^ w * 2 ^ w * (a₁ * 2 ^ (v - w)) + (a₀ * 2 ^ (v - w) * 2 ^ w + 0) := by
    rw [hpow]; ring
  rw [hshift, Nat.mul_add_mod]

/-- A right shift by less than a word moves the bottom of the upper word down. -/
theorem doubleWord_shiftRight (a₁ a₀ : ℕ) (hv : v ≤ w) :
    a₁ / 2 ^ v * 2 ^ w + (a₁ * 2 ^ (w - v) % 2 ^ w + a₀ / 2 ^ v) = (a₁ * 2 ^ w + a₀) / 2 ^ v := by
  have hW : 2 ^ w = 2 ^ v * 2 ^ (w - v) := by rw [← pow_add, Nat.add_sub_cancel' hv]
  have hmod : a₁ * 2 ^ (w - v) % 2 ^ w = a₁ % 2 ^ v * 2 ^ (w - v) := by
    rw [hW, Nat.mul_mod_mul_right]
  have hdiv : (a₁ * 2 ^ w + a₀) / 2 ^ v = a₁ * 2 ^ (w - v) + a₀ / 2 ^ v := by
    rw [show a₁ * 2 ^ w + a₀ = 2 ^ v * (a₁ * 2 ^ (w - v)) + a₀ by rw [hW]; ring,
      Nat.mul_add_div (by positivity)]
  rw [hmod, hdiv, hW, ← Nat.add_assoc]
  congr 1
  conv_rhs => rw [← Nat.div_add_mod a₁ (2 ^ v)]
  ring

/-- A right shift by a word or more leaves nothing of the lower word. -/
theorem doubleWord_shiftRight_ge (a₁ : ℕ) (ha : a₀ < 2 ^ w) (hv : w ≤ v) :
    0 * 2 ^ w + a₁ / 2 ^ (v - w) = (a₁ * 2 ^ w + a₀) / 2 ^ v := by
  have hpow : 2 ^ v = 2 ^ w * 2 ^ (v - w) := by rw [← pow_add, Nat.add_sub_cancel' hv]
  rw [hpow, ← Nat.div_div_eq_div_mul, Nat.mul_comm a₁, Nat.mul_add_div (by positivity),
    Nat.div_eq_of_lt ha]
  simp

end Bits

end Numeral

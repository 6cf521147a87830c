import Mathlib.Data.Nat.ModEq
import Mathlib.Tactic.Ring

/-!
# Schoolbook multiplication of four digits

The product of two numbers of four digits, up to the fourth power of the base.
The two digits of each product of digits are added up column by column.
-/

namespace Numeral

variable (B a₀ a₁ a₂ a₃ b₀ b₁ b₂ b₃ : ℕ)

/-- The second column from below. -/
def column₂ : ℕ := a₃ * b₂ % B + a₃ * b₃ / B + a₂ * b₃ % B

/-- The third column from below. -/
def column₁ : ℕ := a₃ * b₁ % B + a₃ * b₂ / B + a₂ * b₂ % B + a₂ * b₃ / B + a₁ * b₃ % B

/-- The column of the leading digits. -/
def column₀ : ℕ :=
  a₃ * b₀ % B + a₃ * b₁ / B + a₂ * b₁ % B + a₂ * b₂ / B + a₁ * b₂ % B + a₁ * b₃ / B + a₀ * b₃ % B

/-- The columns add up to the product modulo the fourth power of the base. -/
theorem columns_modEq :
    column₀ B a₀ a₁ a₂ a₃ b₀ b₁ b₂ b₃ * B ^ 3 + column₁ B a₁ a₂ a₃ b₁ b₂ b₃ * B ^ 2 +
        column₂ B a₂ a₃ b₂ b₃ * B + a₃ * b₃ % B ≡
      (a₀ * B ^ 3 + a₁ * B ^ 2 + a₂ * B + a₃) * (b₀ * B ^ 3 + b₁ * B ^ 2 + b₂ * B + b₃)
        [MOD B ^ 4] := by
  have hsplit : (a₀ * B ^ 3 + a₁ * B ^ 2 + a₂ * B + a₃) * (b₀ * B ^ 3 + b₁ * B ^ 2 + b₂ * B + b₃) =
      a₃ * b₃ + (a₃ * b₂ + a₂ * b₃) * B + (a₃ * b₁ + a₂ * b₂ + a₁ * b₃) * B ^ 2 +
        (a₃ * b₀ + a₂ * b₁ + a₁ * b₂ + a₀ * b₃) * B ^ 3 +
        B ^ 4 * (a₂ * b₀ + a₁ * b₁ + a₀ * b₂ + (a₁ * b₀ + a₀ * b₁) * B + a₀ * b₀ * B ^ 2) := by
    ring
  have hcolumns : a₃ * b₃ + (a₃ * b₂ + a₂ * b₃) * B + (a₃ * b₁ + a₂ * b₂ + a₁ * b₃) * B ^ 2 +
        (a₃ * b₀ + a₂ * b₁ + a₁ * b₂ + a₀ * b₃) * B ^ 3 =
      column₀ B a₀ a₁ a₂ a₃ b₀ b₁ b₂ b₃ * B ^ 3 + column₁ B a₁ a₂ a₃ b₁ b₂ b₃ * B ^ 2 +
        column₂ B a₂ a₃ b₂ b₃ * B + a₃ * b₃ % B +
        B ^ 4 * (a₃ * b₀ / B + a₂ * b₁ / B + a₁ * b₂ / B + a₀ * b₃ / B) := by
    rw [column₀, column₁, column₂]
    conv_lhs =>
      rw [← Nat.div_add_mod (a₃ * b₃) B, ← Nat.div_add_mod (a₃ * b₂) B,
        ← Nat.div_add_mod (a₂ * b₃) B, ← Nat.div_add_mod (a₃ * b₁) B,
        ← Nat.div_add_mod (a₂ * b₂) B, ← Nat.div_add_mod (a₁ * b₃) B,
        ← Nat.div_add_mod (a₃ * b₀) B, ← Nat.div_add_mod (a₂ * b₁) B,
        ← Nat.div_add_mod (a₁ * b₂) B, ← Nat.div_add_mod (a₀ * b₃) B]
    ring
  rw [hsplit, hcolumns, Nat.ModEq, Nat.add_mul_mod_self_left, Nat.add_mul_mod_self_left]

end Numeral

import AppVechain.Numeral.Schoolbook
import AppVechain.Uint256.Shift

/-!
# Multiplication

`common/uint256.c`: products are added up column by column, for `mul128` with
digits of 32 bits and for `mul256` with digits of 64 bits.
-/

namespace AppVechain

open Numeral

/-- `word & 0xffffffff` -/
def low32 (word : UInt64) : UInt64 := word &&& 0xffffffff

/-- `word >> 32` -/
def high32 (word : UInt64) : UInt64 := word >>> 32

/-- The arrays `top` and `bottom` of `mul128`. -/
def limb32 (number : Uint128) : Fin 4 → UInt64
  | 0 => high32 number.upper
  | 1 => low32 number.upper
  | 2 => high32 number.lower
  | 3 => low32 number.lower

/-- The array `products` of `mul128`: `products[3 - x][y] = top[x] * bottom[y]`. -/
def products128 (number1 number2 : Uint128) (i y : Fin 4) : UInt64 :=
  limb32 number1 (3 - i) * limb32 number2 y

/-- `third32` in `mul128` -/
def third32 (number1 number2 : Uint128) : UInt64 :=
  let products := products128 number1 number2
  low32 (products 0 2) + high32 (products 0 3) + low32 (products 1 3)

/-- `second32` in `mul128` -/
def second32 (number1 number2 : Uint128) : UInt64 :=
  let products := products128 number1 number2
  low32 (products 0 1) + high32 (products 0 2) +
    (low32 (products 1 2) + high32 (products 1 3)) + low32 (products 2 3)

/-- `first32` in `mul128` -/
def first32 (number1 number2 : Uint128) : UInt64 :=
  let products := products128 number1 number2
  low32 (products 0 0) + high32 (products 0 1) +
    (low32 (products 1 1) + high32 (products 1 2)) +
    (low32 (products 2 2) + high32 (products 2 3)) + low32 (products 3 3)

/-- `mul128` -/
def mul128 (number1 number2 : Uint128) : Uint128 :=
  let third32 := third32 number1 number2
  let fourth32 := low32 (products128 number1 number2 0 3)
  let target := add128 ⟨first32 number1 number2 <<< 32, 0⟩ ⟨third32 >>> 32, third32 <<< 32⟩
  let tmp2 := add128 ⟨second32 number1 number2, 0⟩ target
  add128 ⟨0, fourth32⟩ tmp2

/-- The arrays `top` and `bottom` of `mul256`. -/
def limb64 (number : Uint256) : Fin 4 → Uint128
  | 0 => ⟨0, number.upper.upper⟩
  | 1 => ⟨0, number.upper.lower⟩
  | 2 => ⟨0, number.lower.upper⟩
  | 3 => ⟨0, number.lower.lower⟩

/-- The array `products` of `mul256`: `products[3 - x][y] = top[x] * bottom[y]`. -/
def products256 (number1 number2 : Uint256) (i y : Fin 4) : Uint128 :=
  mul128 (limb64 number1 (3 - i)) (limb64 number2 y)

/-- `UPPER(tmp) = 0; LOWER(tmp) = word` -/
def word128 (word : UInt64) : Uint128 := ⟨0, word⟩

/-- `third64` in `mul256` -/
def third64 (number1 number2 : Uint256) : Uint128 :=
  let products := products256 number1 number2
  add128 (word128 (products 1 3).lower)
    (add128 (word128 (products 0 2).lower) (word128 (products 0 3).upper))

/-- `second64` in `mul256` -/
def second64 (number1 number2 : Uint256) : Uint128 :=
  let products := products256 number1 number2
  let second64 := add128 (word128 (products 0 1).lower) (word128 (products 0 2).upper)
  let tmp2 := add128 (word128 (products 1 2).lower) second64
  let second64 := add128 (word128 (products 1 3).upper) tmp2
  add128 (word128 (products 2 3).lower) second64

/-- `first64` in `mul256` -/
def first64 (number1 number2 : Uint256) : Uint128 :=
  let products := products256 number1 number2
  let first64 := add128 (word128 (products 0 0).lower) (word128 (products 0 1).upper)
  let tmp2 := add128 (word128 (products 1 1).lower) first64
  let first64 := add128 (word128 (products 1 2).upper) tmp2
  let tmp2 := add128 (word128 (products 2 2).lower) first64
  let first64 := add128 (word128 (products 2 3).upper) tmp2
  add128 (word128 (products 3 3).lower) first64

/-- `mul256`. The upper half of `third64` goes to the top word of `target2`, two
words above the lower half. -/
def mul256 (number1 number2 : Uint256) : Uint256 :=
  let fourth64 := word128 (products256 number1 number2 0 3).lower
  let target1 : Uint256 := ⟨shiftl128 (first64 number1 number2) 64, clear128⟩
  let target2 : Uint256 :=
    ⟨⟨(third64 number1 number2).upper, 0⟩, shiftl128 (third64 number1 number2) 64⟩
  let target := add256 target1 target2
  let target2 := add256 ⟨second64 number1 number2, clear128⟩ target
  add256 ⟨clear128, fourth64⟩ target2

theorem low32_toNat (word : UInt64) : (low32 word).toNat = word.toNat % 2 ^ 32 := by
  rw [low32, UInt64.toNat_and]
  exact Nat.and_two_pow_sub_one_eq_mod word.toNat 32

theorem high32_toNat (word : UInt64) : (high32 word).toNat = word.toNat / 2 ^ 32 := by
  rw [high32, UInt64.toNat_shiftRight]
  exact Nat.shiftRight_eq_div_pow word.toNat 32

theorem limb32_lt (n : Uint128) (i : Fin 4) : (limb32 n i).toNat < 2 ^ 32 := by
  have hupper := n.upper.toNat_lt
  have hlower := n.lower.toNat_lt
  match i with
  | 0 => rw [limb32, high32_toNat]; omega
  | 1 => rw [limb32, low32_toNat]; omega
  | 2 => rw [limb32, high32_toNat]; omega
  | 3 => rw [limb32, low32_toNat]; omega

/-- A product of digits of 32 bits is exact. -/
theorem limb32_mul (a b : Uint128) (x y : Fin 4) :
    (limb32 a x).toNat * (limb32 b y).toNat = (products128 a b (3 - x) y).toNat := by
  have hx : 3 - (3 - x) = x := by
    revert x
    decide
  rw [products128, hx, UInt64.toNat_mul, Nat.mod_eq_of_lt]
  calc _ < 2 ^ 32 * 2 ^ 32 := Nat.mul_lt_mul'' (limb32_lt _ _) (limb32_lt _ _)
    _ = 2 ^ 64 := by norm_num

/-- The digits of 32 bits of a number. -/
theorem toNat_eq_limbs32 (n : Uint128) :
    n.toNat = (limb32 n 0).toNat * (2 ^ 32) ^ 3 + (limb32 n 1).toNat * (2 ^ 32) ^ 2 +
      (limb32 n 2).toNat * 2 ^ 32 + (limb32 n 3).toNat := by
  have hupper := Nat.div_add_mod n.upper.toNat (2 ^ 32)
  have hlower := Nat.div_add_mod n.lower.toNat (2 ^ 32)
  simp only [limb32, low32_toNat, high32_toNat, Uint128.toNat]
  omega

/-- `third32` is the second column. -/
theorem third32_toNat (a b : Uint128) :
    (third32 a b).toNat = column₂ (2 ^ 32) (limb32 a 2).toNat (limb32 a 3).toNat
      (limb32 b 2).toNat (limb32 b 3).toNat := by
  have h03 := (products128 a b 0 3).toNat_lt
  simp only [third32, UInt64.toNat_add, low32_toNat, high32_toNat, column₂, limb32_mul,
    Fin.isValue, Fin.reduceSub]
  omega

/-- `second32` is the third column. -/
theorem second32_toNat (a b : Uint128) :
    (second32 a b).toNat = column₁ (2 ^ 32) (limb32 a 1).toNat (limb32 a 2).toNat
      (limb32 a 3).toNat (limb32 b 1).toNat (limb32 b 2).toNat (limb32 b 3).toNat := by
  have h02 := (products128 a b 0 2).toNat_lt
  have h13 := (products128 a b 1 3).toNat_lt
  simp only [second32, UInt64.toNat_add, low32_toNat, high32_toNat, column₁, limb32_mul,
    Fin.isValue, Fin.reduceSub]
  omega

/-- `first32` is the column of the leading digits. -/
theorem first32_toNat (a b : Uint128) :
    (first32 a b).toNat = column₀ (2 ^ 32) (limb32 a 0).toNat (limb32 a 1).toNat
      (limb32 a 2).toNat (limb32 a 3).toNat (limb32 b 0).toNat (limb32 b 1).toNat
      (limb32 b 2).toNat (limb32 b 3).toNat := by
  have h01 := (products128 a b 0 1).toNat_lt
  have h12 := (products128 a b 1 2).toNat_lt
  have h23 := (products128 a b 2 3).toNat_lt
  simp only [first32, UInt64.toNat_add, low32_toNat, high32_toNat, column₀, limb32_mul,
    Fin.isValue, Fin.reduceSub]
  omega

/-- The final sums of `mul128` put the columns in their places. -/
theorem mul128_columns (a b : Uint128) :
    (mul128 a b).toNat = ((first32 a b).toNat * (2 ^ 32) ^ 3 + (second32 a b).toNat * (2 ^ 32) ^ 2 +
      (third32 a b).toNat * 2 ^ 32 + (low32 (products128 a b 0 3)).toNat) % (2 ^ 32) ^ 4 := by
  have hfirst := (first32 a b).toNat_lt
  have hthird := (third32 a b).toNat_lt
  have hshift (word : UInt64) : (word <<< 32).toNat = word.toNat * 2 ^ 32 % 2 ^ 64 :=
    toNat_shiftLeft_of_lt word (v := 32) (by decide)
  have hshift' (word : UInt64) : (word >>> 32).toNat = word.toNat / 2 ^ 32 :=
    toNat_shiftRight_of_lt word (v := 32) (by decide)
  rw [mul128, add128_toNat, add128_toNat, add128_toNat]
  simp only [Uint128.toNat, hshift, hshift', UInt64.toNat_zero]
  omega

/-- **`mul128` multiplies** modulo `2 ^ 128`. -/
theorem mul128_toNat (a b : Uint128) : (mul128 a b).toNat = a.toNat * b.toNat % 2 ^ 128 := by
  rw [mul128_columns, first32_toNat, second32_toNat, third32_toNat, low32_toNat,
    show (products128 a b 0 3).toNat = _ from (limb32_mul a b 3 3).symm, toNat_eq_limbs32 a,
    toNat_eq_limbs32 b, show 2 ^ 128 = (2 ^ 32) ^ 4 by norm_num]
  exact columns_modEq _ _ _ _ _ _ _ _ _

@[simp] theorem word128_toNat (word : UInt64) : (word128 word).toNat = word.toNat := by
  rw [word128, Uint128.toNat, UInt64.toNat_zero, Nat.zero_mul, Nat.zero_add]

@[simp] theorem upperWord_toNat (word : UInt64) :
    (⟨word, 0⟩ : Uint128).toNat = word.toNat * 2 ^ 64 := by
  rw [Uint128.toNat, UInt64.toNat_zero, Nat.add_zero]

theorem lower_toNat (n : Uint128) : n.lower.toNat = n.toNat % 2 ^ 64 := by
  have hlower := n.lower.toNat_lt
  rw [Uint128.toNat]
  omega

theorem upper_toNat (n : Uint128) : n.upper.toNat = n.toNat / 2 ^ 64 := by
  have hlower := n.lower.toNat_lt
  rw [Uint128.toNat]
  omega

theorem limb64_lt (n : Uint256) (i : Fin 4) : (limb64 n i).toNat < 2 ^ 64 := by
  match i with
  | 0 => exact (word128_toNat n.upper.upper).trans_lt n.upper.upper.toNat_lt
  | 1 => exact (word128_toNat n.upper.lower).trans_lt n.upper.lower.toNat_lt
  | 2 => exact (word128_toNat n.lower.upper).trans_lt n.lower.upper.toNat_lt
  | 3 => exact (word128_toNat n.lower.lower).trans_lt n.lower.lower.toNat_lt

/-- A product of digits of 64 bits is exact. -/
theorem limb64_mul (a b : Uint256) (x y : Fin 4) :
    (limb64 a x).toNat * (limb64 b y).toNat = (products256 a b (3 - x) y).toNat := by
  have hx : 3 - (3 - x) = x := by
    revert x
    decide
  rw [products256, hx, mul128_toNat, Nat.mod_eq_of_lt]
  calc _ < 2 ^ 64 * 2 ^ 64 := Nat.mul_lt_mul'' (limb64_lt _ _) (limb64_lt _ _)
    _ = 2 ^ 128 := by norm_num

/-- The digits of 64 bits of a number. -/
theorem toNat_eq_limbs64 (n : Uint256) :
    n.toNat = (limb64 n 0).toNat * (2 ^ 64) ^ 3 + (limb64 n 1).toNat * (2 ^ 64) ^ 2 +
      (limb64 n 2).toNat * 2 ^ 64 + (limb64 n 3).toNat := by
  simp only [limb64, Uint256.toNat, Uint128.toNat, UInt64.toNat_zero]
  omega

/-- `third64` is the second column. -/
theorem third64_toNat (a b : Uint256) :
    (third64 a b).toNat = column₂ (2 ^ 64) (limb64 a 2).toNat (limb64 a 3).toNat
      (limb64 b 2).toNat (limb64 b 3).toNat := by
  have h03 := (products256 a b 0 3).toNat_lt
  simp only [third64, add128_toNat, word128_toNat, lower_toNat, upper_toNat, column₂, limb64_mul,
    Fin.isValue, Fin.reduceSub]
  omega

/-- `second64` is the third column. -/
theorem second64_toNat (a b : Uint256) :
    (second64 a b).toNat = column₁ (2 ^ 64) (limb64 a 1).toNat (limb64 a 2).toNat
      (limb64 a 3).toNat (limb64 b 1).toNat (limb64 b 2).toNat (limb64 b 3).toNat := by
  have h02 := (products256 a b 0 2).toNat_lt
  have h13 := (products256 a b 1 3).toNat_lt
  simp only [second64, add128_toNat, word128_toNat, lower_toNat, upper_toNat, column₁, limb64_mul,
    Fin.isValue, Fin.reduceSub]
  omega

/-- `first64` is the column of the leading digits. -/
theorem first64_toNat (a b : Uint256) :
    (first64 a b).toNat = column₀ (2 ^ 64) (limb64 a 0).toNat (limb64 a 1).toNat
      (limb64 a 2).toNat (limb64 a 3).toNat (limb64 b 0).toNat (limb64 b 1).toNat
      (limb64 b 2).toNat (limb64 b 3).toNat := by
  have h01 := (products256 a b 0 1).toNat_lt
  have h12 := (products256 a b 1 2).toNat_lt
  have h23 := (products256 a b 2 3).toNat_lt
  simp only [first64, add128_toNat, word128_toNat, lower_toNat, upper_toNat, column₀, limb64_mul,
    Fin.isValue, Fin.reduceSub]
  omega

/-- The carry out of the second column of `mul256`. -/
def mul256Carry (number1 number2 : Uint256) : ℕ := (third64 number1 number2).upper.toNat

/-- The final sums of `mul256` put all but the carry of `third64` in their places. -/
theorem mul256_columns (a b : Uint256) :
    (mul256 a b).toNat + mul256Carry a b * 2 ^ 128 ≡
      (first64 a b).toNat * (2 ^ 64) ^ 3 + (second64 a b).toNat * (2 ^ 64) ^ 2 +
        (third64 a b).toNat * 2 ^ 64 + (products256 a b 0 3).toNat % 2 ^ 64 +
        mul256Carry a b * 2 ^ 192 [MOD 2 ^ 256] := by
  have hthird := upper_toNat (third64 a b)
  have hshift (n : Uint128) : (shiftl128 n 64).toNat = n.toNat * 2 ^ 64 % 2 ^ 128 :=
    shiftl128_toNat n 64
  rw [Nat.ModEq, mul256Carry, mul256, add256_toNat, add256_toNat, add256_toNat]
  simp only [Uint256.toNat, hshift, clear128_toNat, word128_toNat, lower_toNat,
    upperWord_toNat]
  omega

/-- **`mul256` multiplies** modulo `2 ^ 256`, but for the place of one carry. -/
theorem mul256_modEq (a b : Uint256) :
    (mul256 a b).toNat + mul256Carry a b * 2 ^ 128 ≡
      a.toNat * b.toNat + mul256Carry a b * 2 ^ 192 [MOD 2 ^ 256] := by
  refine (mul256_columns a b).trans (Nat.ModEq.add_right _ ?_)
  rw [first64_toNat, second64_toNat, third64_toNat,
    show (products256 a b 0 3).toNat = _ from (limb64_mul a b 3 3).symm, toNat_eq_limbs64 a,
    toNat_eq_limbs64 b, show 2 ^ 256 = (2 ^ 64) ^ 4 by norm_num]
  exact columns_modEq _ _ _ _ _ _ _ _ _

/-- The product of two numbers of one word is exact. -/
theorem mul256_word {a b : Uint256} (ha : a.toNat < 2 ^ 64) (hb : b.toNat < 2 ^ 64) :
    (mul256 a b).toNat = a.toNat * b.toNat := by
  have ha2 : (limb64 a 2).toNat = 0 := by
    have := toNat_eq_limbs64 a
    omega
  have hb2 : (limb64 b 2).toNat = 0 := by
    have := toNat_eq_limbs64 b
    omega
  have hcarry : mul256Carry a b = 0 := by
    have h03 := (products256 a b 0 3).toNat_lt
    rw [mul256Carry, upper_toNat, third64_toNat, column₂, ha2, hb2,
      show (limb64 a 3).toNat * (limb64 b 3).toNat = _ from limb64_mul a b 3 3]
    norm_num
    omega
  have hmod := mul256_modEq a b
  rw [hcarry, Nat.zero_mul, Nat.zero_mul, Nat.add_zero, Nat.add_zero, Nat.ModEq,
    Nat.mod_eq_of_lt (mul256 a b).toNat_lt, Nat.mod_eq_of_lt] at hmod
  · exact hmod
  · calc a.toNat * b.toNat < 2 ^ 64 * 2 ^ 64 := Nat.mul_lt_mul'' ha hb
      _ = 2 ^ 128 := (pow_add 2 64 64).symm
      _ < 2 ^ 256 := Nat.pow_lt_pow_right (by omega) (by omega)

/-- The second column of a product of numbers of 64-bit digits, counted from below, has
no carry. It depends on the two low digits of each number. -/
def SecondColumnFits (a b : ℕ) : Prop :=
  column₂ (2 ^ 64) (a / 2 ^ 64 % 2 ^ 64) (a % 2 ^ 64) (b / 2 ^ 64 % 2 ^ 64) (b % 2 ^ 64) < 2 ^ 64

/-- The two low digits of a number. -/
theorem limb64_low (n : Uint256) :
    (limb64 n 2).toNat = n.toNat / 2 ^ 64 % 2 ^ 64 ∧ (limb64 n 3).toNat = n.toNat % 2 ^ 64 := by
  have hlimbs := toNat_eq_limbs64 n
  have h2 := limb64_lt n 2
  have h3 := limb64_lt n 3
  omega

/-- The carry is lost when there is one. -/
theorem mul256Carry_eq_zero_iff (a b : Uint256) :
    mul256Carry a b = 0 ↔ SecondColumnFits a.toNat b.toNat := by
  obtain ⟨ha2, ha3⟩ := limb64_low a
  obtain ⟨hb2, hb3⟩ := limb64_low b
  rw [mul256Carry, upper_toNat, third64_toNat, ha2, ha3, hb2, hb3,
    Nat.div_eq_zero_iff_lt (by positivity), SecondColumnFits]

theorem mul256Carry_lt (a b : Uint256) : mul256Carry a b < 2 ^ 64 := by
  rw [mul256Carry]
  exact UInt64.toNat_lt _

/-- A number of 64 bits moved to the wrong digit cannot be told from one in its place only
when it is zero. -/
theorem misplaced_carry {x y c : ℕ} (hc : c < 2 ^ 64) (hx : x < 2 ^ 256)
    (h : x + c * 2 ^ 128 ≡ y + c * 2 ^ 192 [MOD 2 ^ 256]) : x = y % 2 ^ 256 ↔ c = 0 := by
  constructor
  · intro hxy
    have hxmod : x ≡ y [MOD 2 ^ 256] := hxy ▸ Nat.mod_modEq y _
    have hshift : c * 2 ^ 128 ≡ c * 2 ^ 192 [MOD 2 ^ 256] := Nat.ModEq.add_left_cancel hxmod h
    have hhigh : c * 2 ^ 192 < 2 ^ 256 :=
      (Nat.mul_lt_mul_of_pos_right hc (by positivity)).trans_eq (pow_add 2 64 192).symm
    have hlow : c * 2 ^ 128 ≤ c * 2 ^ 192 :=
      Nat.mul_le_mul_left c (Nat.pow_le_pow_right (by omega) (by omega))
    have heq : c * 2 ^ 128 = c * 2 ^ 192 :=
      Nat.ModEq.eq_of_lt_of_lt hshift (hlow.trans_lt hhigh) hhigh
    by_contra hne
    have hpow := Nat.eq_of_mul_eq_mul_left (Nat.pos_of_ne_zero hne) heq
    exact absurd (Nat.pow_right_injective le_rfl hpow) (by omega)
  · rintro rfl
    rw [Nat.zero_mul, Nat.zero_mul, Nat.add_zero, Nat.add_zero, Nat.ModEq,
      Nat.mod_eq_of_lt hx] at h
    exact h

/-- **`mul256` multiplies modulo `2 ^ 256`** exactly for the numbers whose second column
has no carry. -/
theorem mul256_eq_iff (a b : Uint256) :
    (mul256 a b).toNat = a.toNat * b.toNat % 2 ^ 256 ↔ SecondColumnFits a.toNat b.toNat := by
  rw [← mul256Carry_eq_zero_iff]
  exact misplaced_carry (mul256Carry_lt a b) (mul256 a b).toNat_lt (mul256_modEq a b)

/-- The square of `2 ^ 128 - 1` has a carry in its second column. -/
theorem mul256_not_exact :
    ¬∀ a b : Uint256, (mul256 a b).toNat = a.toNat * b.toNat % 2 ^ 256 := by
  intro h
  have hcolumn := (mul256_eq_iff ⟨⟨0, 0⟩, ⟨0xffffffffffffffff, 0xffffffffffffffff⟩⟩
    ⟨⟨0, 0⟩, ⟨0xffffffffffffffff, 0xffffffffffffffff⟩⟩).mp (h _ _)
  revert hcolumn
  unfold SecondColumnFits column₂
  decide

end AppVechain

import AppVechain.Numeral.DoubleWord

/-!
# 128 and 256 bit numbers

`common/uint256.c`: numbers made of two halves, with comparison, addition,
subtraction and disjunction. A function that stores its result through
`target` returns it here. The application passes operands as `target` as well;
`Uint256.Objects` follows the assignments to the halves for that.
-/

namespace AppVechain

open Numeral

/-- `uint128_t`; `elements[0]` is the upper half. -/
@[ext] structure Uint128 where
  upper : UInt64
  lower : UInt64
  deriving DecidableEq

/-- `uint256_t`; `elements[0]` is the upper half. -/
@[ext] structure Uint256 where
  upper : Uint128
  lower : Uint128
  deriving DecidableEq

/-- The number held by a `uint128_t`. -/
def Uint128.toNat (n : Uint128) : ℕ := n.upper.toNat * 2 ^ 64 + n.lower.toNat

/-- The number held by a `uint256_t`. -/
def Uint256.toNat (n : Uint256) : ℕ := n.upper.toNat * 2 ^ 128 + n.lower.toNat

/-- `zero128` -/
def zero128 (number : Uint128) : Bool := number.lower == 0 && number.upper == 0

/-- `zero256` -/
def zero256 (number : Uint256) : Bool := zero128 number.lower && zero128 number.upper

/-- The result of `clear128`. -/
def clear128 : Uint128 := ⟨0, 0⟩

/-- The result of `clear256`. -/
def clear256 : Uint256 := ⟨clear128, clear128⟩

/-- `equal128` -/
def equal128 (number1 number2 : Uint128) : Bool :=
  number1.upper == number2.upper && number1.lower == number2.lower

/-- `equal256` -/
def equal256 (number1 number2 : Uint256) : Bool :=
  equal128 number1.upper number2.upper && equal128 number1.lower number2.lower

/-- `gt128` -/
def gt128 (number1 number2 : Uint128) : Bool :=
  if number1.upper == number2.upper then decide (number1.lower > number2.lower)
  else decide (number1.upper > number2.upper)

/-- `gt256` -/
def gt256 (number1 number2 : Uint256) : Bool :=
  if equal128 number1.upper number2.upper then gt128 number1.lower number2.lower
  else gt128 number1.upper number2.upper

/-- `gte128` -/
def gte128 (number1 number2 : Uint128) : Bool := gt128 number1 number2 || equal128 number1 number2

/-- `gte256` -/
def gte256 (number1 number2 : Uint256) : Bool := gt256 number1 number2 || equal256 number1 number2

/-- `add128`. The comparison is the carry of the lower halves. -/
def add128 (number1 number2 : Uint128) : Uint128 where
  upper := number1.upper + number2.upper +
    if number1.lower + number2.lower < number1.lower then 1 else 0
  lower := number1.lower + number2.lower

/-- `add256` -/
def add256 (number1 number2 : Uint256) : Uint256 :=
  let upper := add128 number1.upper number2.upper
  let tmp := add128 number1.lower number2.lower
  { upper := if gt128 number1.lower tmp then add128 upper ⟨0, 1⟩ else upper
    lower := add128 number1.lower number2.lower }

/-- `minus128`. The comparison is the borrow of the lower halves. -/
def minus128 (number1 number2 : Uint128) : Uint128 where
  upper := number1.upper - number2.upper -
    if number1.lower - number2.lower > number1.lower then 1 else 0
  lower := number1.lower - number2.lower

/-- `minus256` -/
def minus256 (number1 number2 : Uint256) : Uint256 :=
  let upper := minus128 number1.upper number2.upper
  let tmp := minus128 number1.lower number2.lower
  { upper := if gt128 tmp number1.lower then minus128 upper ⟨0, 1⟩ else upper
    lower := minus128 number1.lower number2.lower }

/-- `or128` -/
def or128 (number1 number2 : Uint128) : Uint128 :=
  ⟨number1.upper ||| number2.upper, number1.lower ||| number2.lower⟩

/-- `or256` -/
def or256 (number1 number2 : Uint256) : Uint256 :=
  ⟨or128 number1.upper number2.upper, or128 number1.lower number2.lower⟩

theorem Uint128.toNat_lt (n : Uint128) : n.toNat < 2 ^ 128 :=
  doubleWord_lt n.upper.toNat_lt n.lower.toNat_lt

theorem Uint256.toNat_lt (n : Uint256) : n.toNat < 2 ^ 256 :=
  doubleWord_lt n.upper.toNat_lt n.lower.toNat_lt

/-- A `uint128_t` is determined by its number. -/
theorem Uint128.toNat_inj {n m : Uint128} : n.toNat = m.toNat ↔ n = m := by
  rw [Uint128.toNat, Uint128.toNat, doubleWord_inj n.lower.toNat_lt m.lower.toNat_lt,
    UInt64.toNat_inj, UInt64.toNat_inj, Uint128.ext_iff]

/-- A `uint256_t` is determined by its number. -/
theorem Uint256.toNat_inj {n m : Uint256} : n.toNat = m.toNat ↔ n = m := by
  rw [Uint256.toNat, Uint256.toNat, doubleWord_inj n.lower.toNat_lt m.lower.toNat_lt,
    Uint128.toNat_inj, Uint128.toNat_inj, Uint256.ext_iff]

@[simp] theorem clear128_toNat : clear128.toNat = 0 := by decide
@[simp] theorem clear256_toNat : clear256.toNat = 0 := by decide
@[simp] theorem one128_toNat : (⟨0, 1⟩ : Uint128).toNat = 1 := by decide

@[simp] theorem one256_toNat : (⟨clear128, ⟨0, 1⟩⟩ : Uint256).toNat = 1 := by decide

@[simp] theorem zero128_eq (n : Uint128) : zero128 n = decide (n.toNat = 0) := by
  rw [zero128, Bool.eq_iff_iff, decide_eq_true_eq, Uint128.toNat]
  simp only [Bool.and_eq_true, beq_iff_eq, ← UInt64.toNat_inj, UInt64.toNat_zero]
  omega

@[simp] theorem zero256_eq (n : Uint256) : zero256 n = decide (n.toNat = 0) := by
  rw [zero256, Bool.eq_iff_iff, decide_eq_true_eq, Uint256.toNat]
  simp only [zero128_eq, Bool.and_eq_true, decide_eq_true_eq]
  omega

@[simp] theorem equal128_eq (a b : Uint128) : equal128 a b = decide (a.toNat = b.toNat) := by
  rw [equal128, Bool.eq_iff_iff]
  simp only [Bool.and_eq_true, beq_iff_eq, decide_eq_true_eq, Uint128.toNat_inj, Uint128.ext_iff]

@[simp] theorem equal256_eq (a b : Uint256) : equal256 a b = decide (a.toNat = b.toNat) := by
  rw [equal256, Bool.eq_iff_iff]
  simp only [Bool.and_eq_true, equal128_eq, decide_eq_true_eq, Uint128.toNat_inj,
    Uint256.toNat_inj, Uint256.ext_iff]

@[simp] theorem gt128_eq (a b : Uint128) : gt128 a b = decide (b.toNat < a.toNat) := by
  rw [gt128, Bool.eq_iff_iff, decide_eq_true_eq, Uint128.toNat, Uint128.toNat,
    doubleWord_lt_iff b.lower.toNat_lt a.lower.toNat_lt]
  split
  case isTrue h =>
    simp only [beq_iff_eq] at h
    simp [h, UInt64.lt_iff_toNat_lt]
  case isFalse h =>
    simp only [beq_iff_eq, ← UInt64.toNat_inj] at h
    simp only [gt_iff_lt, decide_eq_true_eq, UInt64.lt_iff_toNat_lt]
    omega

@[simp] theorem gt256_eq (a b : Uint256) : gt256 a b = decide (b.toNat < a.toNat) := by
  rw [gt256, Bool.eq_iff_iff, decide_eq_true_eq, Uint256.toNat, Uint256.toNat,
    doubleWord_lt_iff b.lower.toNat_lt a.lower.toNat_lt, equal128_eq]
  split
  case isTrue h =>
    simp only [decide_eq_true_eq] at h
    simp [h]
  case isFalse h =>
    simp only [decide_eq_true_eq] at h
    simp only [gt128_eq, decide_eq_true_eq]
    omega

@[simp] theorem gte256_eq (a b : Uint256) : gte256 a b = decide (b.toNat ≤ a.toNat) := by
  rw [gte256, gt256_eq, equal256_eq, Bool.eq_iff_iff]
  simp only [Bool.or_eq_true, decide_eq_true_eq]
  omega

/-- `add128` adds modulo `2 ^ 128`. -/
theorem add128_toNat (a b : Uint128) : (add128 a b).toNat = (a.toNat + b.toNat) % 2 ^ 128 := by
  have hwords := doubleWord_add a.upper.toNat b.upper.toNat
    a.lower.toNat_lt b.lower.toNat_lt
  rw [Uint128.toNat, Uint128.toNat, Uint128.toNat, pow_add 2 64 64, ← hwords]
  simp only [add128, UInt64.toNat_add, UInt64.lt_iff_toNat_lt, Nat.mod_add_mod]
  split <;> rfl

/-- `add256` adds modulo `2 ^ 256`. -/
theorem add256_toNat (a b : Uint256) : (add256 a b).toNat = (a.toNat + b.toNat) % 2 ^ 256 := by
  have hwords := doubleWord_add a.upper.toNat b.upper.toNat
    a.lower.toNat_lt b.lower.toNat_lt
  rw [Uint256.toNat, Uint256.toNat, Uint256.toNat, pow_add 2 128 128, ← hwords]
  simp only [add256, gt128_eq, add128_toNat, decide_eq_true_eq]
  split
  case isTrue h => rw [add128_toNat, add128_toNat, one128_toNat, Nat.mod_add_mod]
  case isFalse h => rw [add128_toNat, Nat.add_zero]

/-- Subtraction of 64 bit numbers is `subMod`. -/
theorem toNat_sub_eq_subMod (a b : UInt64) : (a - b).toNat = subMod (2 ^ 64) a.toNat b.toNat := by
  rw [UInt64.toNat_sub, subMod]

/-- `minus128` subtracts modulo `2 ^ 128`. -/
theorem minus128_toNat (a b : Uint128) :
    (minus128 a b).toNat = subMod (2 ^ 128) a.toNat b.toNat := by
  have hwords := doubleWord_sub a.upper.toNat a.lower.toNat_lt b.lower.toNat_lt b.upper.toNat_lt
  rw [Uint128.toNat, Uint128.toNat, Uint128.toNat, pow_add 2 64 64, ← hwords]
  simp only [minus128, gt_iff_lt, UInt64.lt_iff_toNat_lt, toNat_sub_eq_subMod]
  split <;> rfl

/-- `minus256` subtracts modulo `2 ^ 256`. -/
theorem minus256_toNat (a b : Uint256) :
    (minus256 a b).toNat = subMod (2 ^ 256) a.toNat b.toNat := by
  have hwords := doubleWord_sub a.upper.toNat a.lower.toNat_lt b.lower.toNat_lt b.upper.toNat_lt
  rw [Uint256.toNat, Uint256.toNat, Uint256.toNat, pow_add 2 128 128, ← hwords]
  simp only [minus256, gt128_eq, minus128_toNat, decide_eq_true_eq]
  split
  case isTrue h => rw [minus128_toNat, minus128_toNat, one128_toNat]
  case isFalse h => rw [minus128_toNat, subMod_zero, subMod, Nat.mod_mod]

/-- `or128` is the disjunction of the bits. -/
theorem or128_toNat (a b : Uint128) : (or128 a b).toNat = a.toNat ||| b.toNat :=
  doubleWord_or _ _ a.lower.toNat_lt b.lower.toNat_lt

/-- `or256` is the disjunction of the bits. -/
theorem or256_toNat (a b : Uint256) : (or256 a b).toNat = a.toNat ||| b.toNat := by
  have hwords := doubleWord_or a.upper.toNat b.upper.toNat
    a.lower.toNat_lt b.lower.toNat_lt
  rw [← or128_toNat, ← or128_toNat] at hwords
  exact hwords

end AppVechain

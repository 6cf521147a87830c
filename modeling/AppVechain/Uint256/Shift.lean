import AppVechain.Loop.While
import AppVechain.Uint256.Basic

/-!
# Shifts and bit lengths

`common/uint256.c`: left shifts multiply by a power of two modulo the width,
right shifts divide by it, and `bits128` and `bits256` count the halvings that
lead to zero.
-/

namespace AppVechain

open Numeral Loop

/-- `shiftl128` -/
def shiftl128 (number : Uint128) (value : UInt32) : Uint128 :=
  if value ≥ 128 then clear128
  else if value = 64 then ⟨number.lower, 0⟩
  else if value = 0 then number
  else if value < 64 then
    ⟨(number.upper <<< value.toUInt64) + (number.lower >>> (64 - value).toUInt64),
      number.lower <<< value.toUInt64⟩
  else if 128 > value ∧ value > 64 then ⟨number.lower <<< (value - 64).toUInt64, 0⟩
  else clear128

/-- `shiftr128` -/
def shiftr128 (number : Uint128) (value : UInt32) : Uint128 :=
  if value ≥ 128 then clear128
  else if value = 64 then ⟨0, number.upper⟩
  else if value = 0 then number
  else if value < 64 then
    ⟨number.upper >>> value.toUInt64,
      (number.upper <<< (64 - value).toUInt64) + (number.lower >>> value.toUInt64)⟩
  else if 128 > value ∧ value > 64 then ⟨0, number.upper >>> (value - 64).toUInt64⟩
  else clear128

/-- `shiftl256` -/
def shiftl256 (number : Uint256) (value : UInt32) : Uint256 :=
  if value ≥ 256 then clear256
  else if value = 128 then ⟨number.lower, clear128⟩
  else if value = 0 then number
  else if value < 128 then
    ⟨add128 (shiftl128 number.upper value) (shiftr128 number.lower (128 - value)),
      shiftl128 number.lower value⟩
  else if 256 > value ∧ value > 128 then ⟨shiftl128 number.lower (value - 128), clear128⟩
  else clear256

/-- `shiftr256` -/
def shiftr256 (number : Uint256) (value : UInt32) : Uint256 :=
  if value ≥ 256 then clear256
  else if value = 128 then ⟨clear128, number.upper⟩
  else if value = 0 then number
  else if value < 128 then
    ⟨shiftr128 number.upper value,
      add128 (shiftr128 number.lower value) (shiftl128 number.upper (128 - value))⟩
  else if 256 > value ∧ value > 128 then ⟨clear128, shiftr128 number.upper (value - 128)⟩
  else clear256

/-- The width of a `uint256_t` is two halves. -/
theorem two_pow_256 : 2 ^ 256 = 2 ^ 128 * 2 ^ 128 := pow_add 2 128 128

/-- A left shift of a word by less than its width. -/
theorem toNat_shiftLeft_of_lt (n : UInt64) {v : UInt32} (hv : v.toNat < 64) :
    (n <<< v.toUInt64).toNat = n.toNat * 2 ^ v.toNat % 2 ^ 64 := by
  rw [UInt64.toNat_shiftLeft, UInt32.toNat_toUInt64, Nat.mod_eq_of_lt hv, Nat.shiftLeft_eq]

/-- A right shift of a word by less than its width. -/
theorem toNat_shiftRight_of_lt (n : UInt64) {v : UInt32} (hv : v.toNat < 64) :
    (n >>> v.toUInt64).toNat = n.toNat / 2 ^ v.toNat := by
  rw [UInt64.toNat_shiftRight, UInt32.toNat_toUInt64, Nat.mod_eq_of_lt hv,
    Nat.shiftRight_eq_div_pow]

/-- A product with a power of two of the width or above is zero modulo the width. -/
theorem mul_two_pow_mod (n : ℕ) {v w : ℕ} (h : w ≤ v) : n * 2 ^ v % 2 ^ w = 0 :=
  Nat.mod_eq_zero_of_dvd (Dvd.dvd.mul_left (pow_dvd_pow 2 h) n)

/-- A difference of shift amounts that does not wrap. -/
theorem toNat_sub_amount {a b : UInt32} (h : b.toNat ≤ a.toNat) :
    (a - b).toNat = a.toNat - b.toNat :=
  UInt32.toNat_sub_of_le a b (UInt32.le_iff_toNat_le.mpr h)

/-- `shiftl128` multiplies by a power of two modulo `2 ^ 128`. -/
theorem shiftl128_toNat (n : Uint128) (v : UInt32) :
    (shiftl128 n v).toNat = n.toNat * 2 ^ v.toNat % 2 ^ 128 := by
  unfold shiftl128
  simp only [ge_iff_le, UInt32.le_iff_toNat_le, UInt32.lt_iff_toNat_lt, ← UInt32.toNat_inj,
    UInt32.reduceToNat, gt_iff_lt]
  have hlow := n.lower.toNat_lt
  have hge (hv : 64 ≤ v.toNat) := doubleWord_shiftLeft_ge n.upper.toNat n.lower.toNat hv
  split_ifs with h128 h64 h0 hlt hgt
  · rw [clear128_toNat, mul_two_pow_mod _ h128]
  · simpa [Uint128.toNat, h64, Nat.mod_eq_of_lt hlow] using hge (by omega)
  · rw [h0, pow_zero, Nat.mul_one, Nat.mod_eq_of_lt n.toNat_lt]
  · have hsub : (64 - v).toNat = 64 - v.toNat := toNat_sub_amount (a := 64) hlt.le
    have hfits := shifted_fits (v := 64 - v.toNat) n.upper.toNat hlow (by omega)
    have hwords := doubleWord_shiftLeft n.upper.toNat hlow hlt.le
    rw [Nat.sub_sub_self hlt.le] at hfits
    rw [Uint128.toNat, UInt64.toNat_add, toNat_shiftLeft_of_lt _ hlt,
      toNat_shiftRight_of_lt _ (by omega), toNat_shiftLeft_of_lt _ hlt, hsub,
      Nat.mod_eq_of_lt hfits]
    exact hwords
  · have hsub : (v - 64).toNat = v.toNat - 64 := toNat_sub_amount (b := 64) hgt.2.le
    rw [Uint128.toNat, toNat_shiftLeft_of_lt _ (by omega), hsub]
    exact hge hgt.2.le
  · omega

/-- `shiftr128` divides by a power of two. -/
theorem shiftr128_toNat (n : Uint128) (v : UInt32) :
    (shiftr128 n v).toNat = n.toNat / 2 ^ v.toNat := by
  unfold shiftr128
  simp only [ge_iff_le, UInt32.le_iff_toNat_le, UInt32.lt_iff_toNat_lt, ← UInt32.toNat_inj,
    UInt32.reduceToNat, gt_iff_lt]
  have hlow := n.lower.toNat_lt
  have hge (hv : 64 ≤ v.toNat) := doubleWord_shiftRight_ge n.upper.toNat hlow hv
  split_ifs with h128 h64 h0 hlt hgt
  · rw [clear128_toNat, Nat.div_eq_of_lt]
    exact n.toNat_lt.trans_le (Nat.pow_le_pow_right (by omega) h128)
  · simpa [Uint128.toNat, h64] using hge (by omega)
  · rw [h0, pow_zero, Nat.div_one]
  · have hsub : (64 - v).toNat = 64 - v.toNat := toNat_sub_amount (a := 64) hlt.le
    have hfits := shifted_fits n.upper.toNat hlow hlt.le
    have hwords := doubleWord_shiftRight n.upper.toNat n.lower.toNat hlt.le
    by_cases hzero : v.toNat = 0
    · exact absurd hzero h0
    · rw [Uint128.toNat, UInt64.toNat_add, toNat_shiftLeft_of_lt _ (by omega),
        toNat_shiftRight_of_lt _ hlt, toNat_shiftRight_of_lt _ hlt, hsub, Nat.mod_eq_of_lt hfits]
      exact hwords
  · have hsub : (v - 64).toNat = v.toNat - 64 := toNat_sub_amount (b := 64) hgt.2.le
    rw [Uint128.toNat, toNat_shiftRight_of_lt _ (by omega), hsub]
    exact hge hgt.2.le
  · omega

/-- `shiftl256` multiplies by a power of two modulo `2 ^ 256`. -/
theorem shiftl256_toNat (n : Uint256) (v : UInt32) :
    (shiftl256 n v).toNat = n.toNat * 2 ^ v.toNat % 2 ^ 256 := by
  unfold shiftl256
  simp only [ge_iff_le, UInt32.le_iff_toNat_le, UInt32.lt_iff_toNat_lt, ← UInt32.toNat_inj,
    UInt32.reduceToNat, gt_iff_lt]
  have hlow := n.lower.toNat_lt
  have hge (hv : 128 ≤ v.toNat) := doubleWord_shiftLeft_ge n.upper.toNat n.lower.toNat hv
  split_ifs with h256 h128 h0 hlt hgt
  · rw [clear256_toNat, mul_two_pow_mod _ h256]
  · simpa only [Uint256.toNat, clear128_toNat, h128, Nat.sub_self, pow_zero, Nat.mul_one,
      Nat.mod_eq_of_lt hlow, two_pow_256] using hge h128.ge
  · rw [h0, pow_zero, Nat.mul_one, Nat.mod_eq_of_lt n.toNat_lt]
  · have hsub : (128 - v).toNat = 128 - v.toNat := toNat_sub_amount (a := 128) hlt.le
    have hfits := shifted_fits (v := 128 - v.toNat) n.upper.toNat hlow (by omega)
    have hwords := doubleWord_shiftLeft n.upper.toNat hlow hlt.le
    rw [Nat.sub_sub_self hlt.le] at hfits
    simpa only [Uint256.toNat, add128_toNat, shiftl128_toNat, shiftr128_toNat, hsub,
      Nat.mod_eq_of_lt hfits, two_pow_256] using hwords
  · have hsub : (v - 128).toNat = v.toNat - 128 := toNat_sub_amount (b := 128) hgt.2.le
    simpa only [Uint256.toNat, shiftl128_toNat, hsub, clear128_toNat, two_pow_256] using
      hge hgt.2.le
  · omega

/-- `shiftr256` divides by a power of two. -/
theorem shiftr256_toNat (n : Uint256) (v : UInt32) :
    (shiftr256 n v).toNat = n.toNat / 2 ^ v.toNat := by
  unfold shiftr256
  simp only [ge_iff_le, UInt32.le_iff_toNat_le, UInt32.lt_iff_toNat_lt, ← UInt32.toNat_inj,
    UInt32.reduceToNat, gt_iff_lt]
  have hlow := n.lower.toNat_lt
  have hge (hv : 128 ≤ v.toNat) := doubleWord_shiftRight_ge n.upper.toNat hlow hv
  split_ifs with h256 h128 h0 hlt hgt
  · rw [clear256_toNat, Nat.div_eq_of_lt]
    exact n.toNat_lt.trans_le (Nat.pow_le_pow_right (by omega) h256)
  · simpa only [Uint256.toNat, clear128_toNat, h128, Nat.sub_self, pow_zero, Nat.div_one] using
      hge h128.ge
  · rw [h0, pow_zero, Nat.div_one]
  · have hsub : (128 - v).toNat = 128 - v.toNat := toNat_sub_amount (a := 128) hlt.le
    have hfits := shifted_fits n.upper.toNat hlow hlt.le
    have hwords := doubleWord_shiftRight n.upper.toNat n.lower.toNat hlt.le
    simpa only [Uint256.toNat, add128_toNat, shiftl128_toNat, shiftr128_toNat, hsub,
      Nat.add_comm (n.lower.toNat / _), Nat.mod_eq_of_lt hfits] using hwords
  · have hsub : (v - 128).toNat = v.toNat - 128 := toNat_sub_amount (b := 128) hgt.2.le
    simpa only [Uint256.toNat, shiftr128_toNat, hsub, clear128_toNat] using hge hgt.2.le
  · omega

/-- A right shift by one place halves. -/
theorem shiftr128_one (n : Uint128) : (shiftr128 n 1).toNat = n.toNat / 2 := shiftr128_toNat n 1

/-- A right shift by one place halves. -/
theorem shiftr256_one (n : Uint256) : (shiftr256 n 1).toNat = n.toNat / 2 := shiftr256_toNat n 1

end AppVechain

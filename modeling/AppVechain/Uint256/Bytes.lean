import AppVechain.Numeral.BigEndian
import AppVechain.Uint256.Basic

/-!
# Reading numbers

`common/uint256.c`: numbers are read from byte arrays, most significant byte
first.
-/

namespace AppVechain

open Numeral

/-- `readUint64BE` -/
def readUint64BE (buffer : List UInt8) : UInt64 :=
  (buffer.getD 0 0).toUInt64 <<< 56 ||| (buffer.getD 1 0).toUInt64 <<< 48 |||
  (buffer.getD 2 0).toUInt64 <<< 40 ||| (buffer.getD 3 0).toUInt64 <<< 32 |||
  (buffer.getD 4 0).toUInt64 <<< 24 ||| (buffer.getD 5 0).toUInt64 <<< 16 |||
  (buffer.getD 6 0).toUInt64 <<< 8 ||| (buffer.getD 7 0).toUInt64

/-- `readu128BE` -/
def readu128BE (buffer : List UInt8) : Uint128 :=
  ⟨readUint64BE buffer, readUint64BE (buffer.drop 8)⟩

/-- `readu256BE` -/
def readu256BE (buffer : List UInt8) : Uint256 :=
  ⟨readu128BE buffer, readu128BE (buffer.drop 16)⟩

/-- A byte in its place of a word. -/
theorem toNat_byte_shiftLeft (b : UInt8) {s : UInt64} (hs : s.toNat + 8 ≤ 64) :
    (b.toUInt64 <<< s).toNat = b.toNat * 2 ^ s.toNat := by
  have hlt : b.toNat * 2 ^ s.toNat < 2 ^ 64 :=
    calc b.toNat * 2 ^ s.toNat < 2 ^ 8 * 2 ^ s.toNat :=
          Nat.mul_lt_mul_of_pos_right b.toNat_lt (Nat.two_pow_pos _)
      _ = 2 ^ (8 + s.toNat) := (pow_add 2 8 _).symm
      _ ≤ 2 ^ 64 := Nat.pow_le_pow_right (by omega) (by omega)
  rw [UInt64.toNat_shiftLeft, UInt8.toNat_toUInt64, Nat.mod_eq_of_lt (a := s.toNat) (by omega),
    Nat.shiftLeft_eq, Nat.mod_eq_of_lt hlt]

/-- The next byte of a word goes below the bytes before it. -/
theorem toNat_or_byte {word : UInt64} {n : ℕ} {s : UInt64}
    (hword : word.toNat = n * 2 ^ (8 + s.toNat)) (b : UInt8) (hs : s.toNat + 8 ≤ 64) :
    (word ||| b.toUInt64 <<< s).toNat = (256 * n + b.toNat) * 2 ^ s.toNat := by
  have hlt : b.toNat * 2 ^ s.toNat < 2 ^ (8 + s.toNat) := by
    rw [pow_add]
    exact Nat.mul_lt_mul_of_pos_right b.toNat_lt (Nat.two_pow_pos _)
  rw [UInt64.toNat_or, toNat_byte_shiftLeft b hs, hword, Nat.mul_comm n,
    ← Nat.two_pow_add_eq_or_of_lt hlt, pow_add]
  ring

/-- `readUint64BE` reads eight bytes. -/
theorem readUint64BE_toNat {buffer : List UInt8} (h : 8 ≤ buffer.length) :
    (readUint64BE buffer).toNat = bigEndian (buffer.take 8) := by
  match buffer, h with
  | b₀ :: b₁ :: b₂ :: b₃ :: b₄ :: b₅ :: b₆ :: b₇ :: rest, _ =>
    have h₁ := toNat_or_byte (s := 48) (toNat_byte_shiftLeft b₀ (s := 56) (by decide)) b₁
      (by decide)
    have h₂ := toNat_or_byte (s := 40) h₁ b₂ (by decide)
    have h₃ := toNat_or_byte (s := 32) h₂ b₃ (by decide)
    have h₄ := toNat_or_byte (s := 24) h₃ b₄ (by decide)
    have h₅ := toNat_or_byte (s := 16) h₄ b₅ (by decide)
    have h₆ := toNat_or_byte (s := 8) h₅ b₆ (by decide)
    have h₇ := toNat_or_byte (s := 0) h₆ b₇ (by decide)
    rw [UInt64.toNat_zero, pow_zero, Nat.mul_one, UInt64.shiftLeft_zero] at h₇
    simpa [readUint64BE, bigEndian] using h₇

/-- `readu128BE` reads sixteen bytes. -/
theorem readu128BE_toNat {buffer : List UInt8} (h : 16 ≤ buffer.length) :
    (readu128BE buffer).toNat = bigEndian (buffer.take 16) := by
  have hsplit : buffer.take 16 = buffer.take 8 ++ (buffer.drop 8).take 8 :=
    List.take_add (i := 8) (j := 8)
  rw [readu128BE, Uint128.toNat, readUint64BE_toNat (by omega),
    readUint64BE_toNat (by rw [List.length_drop]; omega), hsplit, bigEndian_append,
    List.length_take, List.length_drop, Nat.min_eq_left (by omega)]
  norm_num

/-- **`readu256BE` reads thirty-two bytes.** -/
theorem readu256BE_toNat {buffer : List UInt8} (h : 32 ≤ buffer.length) :
    (readu256BE buffer).toNat = bigEndian (buffer.take 32) := by
  have hsplit : buffer.take 32 = buffer.take 16 ++ (buffer.drop 16).take 16 :=
    List.take_add (i := 16) (j := 16)
  rw [readu256BE, Uint256.toNat, readu128BE_toNat (by omega),
    readu128BE_toNat (by rw [List.length_drop]; omega), hsplit, bigEndian_append,
    List.length_take, List.length_drop, Nat.min_eq_left (by omega)]
  norm_num

end AppVechain

import AppVechain.Uint256.Division

/-!
# Division with 128 bits

`bits128` and `divmod128` of `common/uint256.c`. On numbers that have 128 bits, the
division with 256 bits takes the same turns: no shift of the divisor or of its
weight needs more bits than the dividend has.
-/

namespace AppVechain

open Numeral Loop

/-- The body of the loops of `bits128`. -/
def bitsBody64 (s : UInt64 × UInt32) : UInt64 × UInt32 := (s.1 >>> 1, s.2 + 1)

/-- A loop of `bits128`, cut off after 129 tests. -/
def countBits64 (number : UInt64) (result : UInt32) : Option UInt32 :=
  (whileLoop (fun s => s.1 != 0) bitsBody64 129 (number, result)).map Prod.snd

/-- `bits128` -/
def bits128 (number : Uint128) : Option UInt32 :=
  if number.upper ≠ 0 then countBits64 number.upper 64 else countBits64 number.lower 0

/-- The local variables of `divmod128`. -/
structure DivmodState128 where
  copyd : Uint128
  adder : Uint128
  resDiv : Uint128
  resMod : Uint128

/-- The body of the `while` loop of `divmod128`. It shifts in place by one place, which is exact. -/
def divmodBody128 (s : DivmodState128) : DivmodState128 where
  copyd := shiftr128 s.copyd 1
  adder := shiftr128 s.adder 1
  resDiv := if gte128 s.resMod s.copyd then or128 s.resDiv s.adder else s.resDiv
  resMod := if gte128 s.resMod s.copyd then minus128 s.resMod s.copyd else s.resMod

/-- The local variables of `divmod128` when its `while` loop starts. -/
def divmodStart128 (l r : Uint128) (diffBits : UInt32) : DivmodState128 :=
  let one : Uint128 := ⟨0, 1⟩
  let copyd := shiftl128 r diffBits
  let adder := shiftl128 one diffBits
  if gt128 copyd l then ⟨shiftr128 copyd 1, shiftr128 adder 1, clear128, l⟩
  else ⟨copyd, adder, clear128, l⟩

/-- `divmod128`, with the values it stores in `retDiv` and `retMod`. The loop is cut off
as the one of `divmod256` is. -/
def divmod128 (l r : Uint128) : Option (Uint128 × Uint128) := do
  let bitsL ← bits128 l
  let bitsR ← bits128 r
  if gt128 r l then some (clear128, l)
  else
    let final ← whileLoop (fun s => gte128 s.resMod r) divmodBody128 257
      (divmodStart128 l r (bitsL - bitsR))
    some (final.resDiv, final.resMod)

/-- The same number with 256 bits. -/
def Uint128.widen (n : Uint128) : Uint256 := ⟨clear128, n⟩

@[simp] theorem Uint128.widen_toNat (n : Uint128) : n.widen.toNat = n.toNat := by
  rw [widen, Uint256.toNat, clear128_toNat, Nat.zero_mul, Nat.zero_add]

theorem gt256_widen (a b : Uint128) : gt256 a.widen b.widen = gt128 a b := by
  rw [gt256_eq, gt128_eq, Uint128.widen_toNat, Uint128.widen_toNat]

theorem gte256_widen (a b : Uint128) : gte256 a.widen b.widen = gte128 a b := by
  rw [gte256, gte128, gt256_widen, equal256_eq, equal128_eq, Uint128.widen_toNat,
    Uint128.widen_toNat]

theorem zero256_widen (n : Uint128) : zero256 n.widen = zero128 n := by
  rw [zero256_eq, zero128_eq, Uint128.widen_toNat]

theorem or256_widen (a b : Uint128) : or256 a.widen b.widen = (or128 a b).widen := by
  rw [← Uint256.toNat_inj, or256_toNat, Uint128.widen_toNat, Uint128.widen_toNat,
    Uint128.widen_toNat, or128_toNat]

theorem shiftr256_widen (n : Uint128) (v : UInt32) :
    shiftr256 n.widen v = (shiftr128 n v).widen := by
  rw [← Uint256.toNat_inj, shiftr256_toNat, Uint128.widen_toNat, Uint128.widen_toNat,
    shiftr128_toNat]

/-- A difference has 128 bits when it is not negative. -/
theorem minus256_widen {a b : Uint128} (h : b.toNat ≤ a.toNat) :
    minus256 a.widen b.widen = (minus128 a b).widen := by
  have hlt := a.widen.toNat_lt
  rw [Uint128.widen_toNat] at hlt
  rw [← Uint256.toNat_inj, minus256_toNat, Uint128.widen_toNat, Uint128.widen_toNat,
    Uint128.widen_toNat, minus128_toNat, subMod_of_le h hlt, subMod_of_le h a.toNat_lt]

/-- A number that is shifted up has 128 bits when none is lost. -/
theorem shiftl256_widen {n : Uint128} {v : UInt32} (h : n.toNat * 2 ^ v.toNat < 2 ^ 128) :
    shiftl256 n.widen v = (shiftl128 n v).widen := by
  have hlt : n.toNat * 2 ^ v.toNat < 2 ^ 256 :=
    h.trans (Nat.pow_lt_pow_right (by omega) (by omega))
  rw [← Uint256.toNat_inj, shiftl256_toNat, Uint128.widen_toNat, Uint128.widen_toNat,
    shiftl128_toNat, Nat.mod_eq_of_lt h, Nat.mod_eq_of_lt hlt]

/-- The loop of `bits128` halves a word as that of `bits256` halves two. -/
theorem countBits64_eq (n : UInt64) (result : UInt32) :
    countBits64 n result = countBits128 ⟨0, n⟩ result := by
  have hbody (s : UInt64 × UInt32) :
      ((⟨0, (bitsBody64 s).1⟩ : Uint128), (bitsBody64 s).2) = bitsBody (⟨0, s.1⟩, s.2) := by
    have hhalf : (⟨0, s.1 >>> 1⟩ : Uint128) = shiftr128 ⟨0, s.1⟩ 1 := by
      rw [← Uint128.toNat_inj, shiftr128_one, Uint128.toNat, Uint128.toNat]
      show 0 * 2 ^ 64 + (s.1 >>> (1 : UInt32).toUInt64).toNat = _
      rw [toNat_shiftRight_of_lt _ (by decide)]
      show 0 * 2 ^ 64 + s.1.toNat / 2 = (0 * 2 ^ 64 + s.1.toNat) / 2
      omega
    rw [bitsBody, ← hhalf]
    rfl
  have hloop : (whileLoop (fun s => s.1 != 0) bitsBody64 129 (n, result)).map
      (fun s => ((⟨0, s.1⟩ : Uint128), s.2)) =
        whileLoop (fun s => !zero128 s.1) bitsBody 129 (⟨0, n⟩, result) := by
    apply whileLoop_map
    · intro s
      rw [zero128, beq_self_eq_true, Bool.and_true]
      rfl
    · exact fun s _ => hbody s
  rw [countBits64, countBits128, ← hloop, Option.map_map]
  rfl

/-- `bits128` is the number of binary digits. -/
theorem bits128_eq (n : Uint128) : bits128 n = some (UInt32.ofNat (Nat.size n.toNat)) := by
  have hword (w : UInt64) : (⟨0, w⟩ : Uint128).toNat = w.toNat := by
    rw [Uint128.toNat, UInt64.toNat_zero, Nat.zero_mul, Nat.zero_add]
  unfold bits128
  rw [countBits64_eq, countBits64_eq, countBits128_eq, countBits128_eq, hword, hword]
  split
  case isTrue h =>
    have hupper : n.upper.toNat ≠ 0 := fun hzero => h (UInt64.toNat_inj.mp hzero)
    rw [Uint128.toNat, size_mul_two_pow_add hupper n.lower.toNat_lt, UInt32.ofNat_add]
    rfl
  case isFalse h =>
    rw [Uint128.toNat, not_not.mp h, UInt64.toNat_zero, Nat.zero_mul, Nat.zero_add,
      UInt32.zero_add]

/-- The registers of `divmod256`. -/
def DivmodState128.widen (s : DivmodState128) : DivmodState :=
  ⟨s.copyd.widen, s.adder.widen, s.resDiv.widen, s.resMod.widen⟩

/-- A turn of `divmod128` is a turn of `divmod256`. -/
theorem divmodBody128_widen (s : DivmodState128) :
    (divmodBody128 s).widen = divmodBody s.widen := by
  rw [DivmodState128.widen, DivmodState128.widen, divmodBody128, divmodBody]
  simp only [gte256_widen, shiftr256_widen, or256_widen]
  by_cases h : gte128 s.resMod s.copyd = true
  · have hle : s.copyd.toNat ≤ s.resMod.toNat := by
      rw [← gte256_widen, gte256_eq, decide_eq_true_eq, Uint128.widen_toNat,
        Uint128.widen_toNat] at h
      exact h
    simp only [if_pos h, minus256_widen hle]
  · simp only [if_neg h]

/-- The divisor is shifted to the length of the dividend, which has 128 bits. -/
theorem divmodStart128_widen {l r : Uint128} {diffBits : UInt32} (hr : 0 < r.toNat)
    (hdiff : Nat.size r.toNat + diffBits.toNat = Nat.size l.toNat) :
    (divmodStart128 l r diffBits).widen = divmodStart l.widen r.widen diffBits := by
  have hsize : Nat.size l.toNat ≤ 128 := Nat.size_le.mpr l.toNat_lt
  have hpos : 0 < Nat.size r.toNat := Nat.size_pos.mpr hr
  have hcopyd : r.toNat * 2 ^ diffBits.toNat < 2 ^ 128 :=
    calc r.toNat * 2 ^ diffBits.toNat < 2 ^ Nat.size r.toNat * 2 ^ diffBits.toNat :=
          Nat.mul_lt_mul_of_pos_right (Nat.lt_size_self _) (Nat.two_pow_pos _)
      _ = 2 ^ Nat.size l.toNat := by rw [← pow_add, hdiff]
      _ ≤ 2 ^ 128 := Nat.pow_le_pow_right (by omega) hsize
  have hadder : (⟨0, 1⟩ : Uint128).toNat * 2 ^ diffBits.toNat < 2 ^ 128 := by
    rw [one128_toNat, Nat.one_mul]
    exact Nat.pow_lt_pow_right (by omega) (by omega)
  have hone : shiftl256 ⟨clear128, ⟨0, 1⟩⟩ diffBits = (shiftl128 ⟨0, 1⟩ diffBits).widen :=
    shiftl256_widen hadder
  rw [divmodStart128, divmodStart]
  simp only [shiftl256_widen hcopyd, hone, gt256_widen, shiftr256_widen]
  split <;> rfl

/-- **The division with 128 bits is the one with 256 bits**, step by step. -/
theorem divmod128_widen (l : Uint128) {r : Uint128} (hr : r.toNat ≠ 0) :
    (divmod128 l r).map (Prod.map Uint128.widen Uint128.widen) = divmod256 l.widen r.widen := by
  rw [divmod128, divmod256, bits128_eq, bits128_eq, bits256_eq, bits256_eq]
  simp only [Option.bind_eq_bind, Option.bind_some, gt256_widen, Uint128.widen_toNat]
  by_cases hgt : gt128 r l = true
  · rw [if_pos hgt, if_pos hgt]
    rfl
  · rw [if_neg hgt, if_neg hgt]
    have hle : r.toNat ≤ l.toNat := by
      rw [gt128_eq, decide_eq_true_eq] at hgt
      omega
    have hdiff := diffBits_toNat (l := l.widen) (r := r.widen) (by simpa using hle)
    simp only [Uint128.widen_toNat] at hdiff
    rw [← divmodStart128_widen (Nat.pos_of_ne_zero hr) hdiff,
      ← whileLoop_map DivmodState128.widen (fun s => (gte256_widen s.resMod r).symm)
        (fun s _ => divmodBody128_widen s), Option.map_bind, Option.bind_map]
    rfl

end AppVechain

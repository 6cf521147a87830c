import AppVechain.Numeral.LongDivision
import AppVechain.Uint256.Shift
import Mathlib.Logic.Function.Basic

/-!
# Division

`common/uint256.c`: `divmod256` is binary long division. The loop that
subtracts does not end when the divisor is zero; for every other divisor it
ends with the quotient and the remainder.
-/

namespace AppVechain

open Numeral Loop

/-- The body of the loops of `bits256`: halve a number and count. -/
def bitsBody (s : Uint128 × UInt32) : Uint128 × UInt32 := (shiftr128 s.1 1, s.2 + 1)

/-- A loop of `bits256`, cut off after 129 tests. -/
def countBits128 (number : Uint128) (result : UInt32) : Option UInt32 :=
  (whileLoop (fun s => !zero128 s.1) bitsBody 129 (number, result)).map Prod.snd

/-- `bits256` -/
def bits256 (number : Uint256) : Option UInt32 :=
  if !zero128 number.upper then countBits128 number.upper 128 else countBits128 number.lower 0

/-- The local variables of `divmod256`. -/
structure DivmodState where
  copyd : Uint256
  adder : Uint256
  resDiv : Uint256
  resMod : Uint256

/-- The body of the `while` loop of `divmod256`. -/
def divmodBody (s : DivmodState) : DivmodState where
  copyd := shiftr256 s.copyd 1
  adder := shiftr256 s.adder 1
  resDiv := if gte256 s.resMod s.copyd then or256 s.resDiv s.adder else s.resDiv
  resMod := if gte256 s.resMod s.copyd then minus256 s.resMod s.copyd else s.resMod

/-- The local variables of `divmod256` when its `while` loop starts. -/
def divmodStart (l r : Uint256) (diffBits : UInt32) : DivmodState :=
  let one : Uint256 := ⟨clear128, ⟨0, 1⟩⟩
  let copyd := shiftl256 r diffBits
  let adder := shiftl256 one diffBits
  if gt256 copyd l then ⟨shiftr256 copyd 1, shiftr256 adder 1, clear256, l⟩
  else ⟨copyd, adder, clear256, l⟩

/-- `divmod256`, with the values it stores in `retDiv` and `retMod`. The loop is
cut off after 257 tests, more than any division by a number other than zero makes. -/
def divmod256 (l r : Uint256) : Option (Uint256 × Uint256) := do
  let bitsL ← bits256 l
  let bitsR ← bits256 r
  if gt256 r l then some (clear256, l)
  else
    let final ← whileLoop (fun s => gte256 s.resMod r) divmodBody 257
      (divmodStart l r (bitsL - bitsR))
    some (final.resDiv, final.resMod)

/-- The loop of `bits256` adds the length of the number. -/
theorem countBits128_eq (n : Uint128) (result : UInt32) :
    countBits128 n result = some (result + UInt32.ofNat (Nat.size n.toNat)) := by
  have hbody (s : Uint128 × UInt32)
      (hinv : s.2 + UInt32.ofNat (Nat.size s.1.toNat) = result + UInt32.ofNat (Nat.size n.toNat))
      (hcond : (!zero128 s.1) = true) :
      (bitsBody s).2 + UInt32.ofNat (Nat.size (bitsBody s).1.toNat) =
          result + UInt32.ofNat (Nat.size n.toNat) ∧
        Nat.size (bitsBody s).1.toNat < Nat.size s.1.toNat := by
    have hsize := size_div_two (n := s.1.toNat) (by simpa using hcond)
    rw [bitsBody, shiftr128_one]
    refine ⟨?_, by omega⟩
    rw [← hinv, hsize, UInt32.ofNat_add, UInt32.add_comm (UInt32.ofNat _) (UInt32.ofNat 1),
      ← UInt32.add_assoc]
    rfl
  have hfuel : Nat.size n.toNat < 129 := by
    have := Nat.size_le.mpr n.toNat_lt
    omega
  obtain ⟨s, hs, hinv, hend⟩ := whileLoop_total
    (fun s : Uint128 × UInt32 =>
      s.2 + UInt32.ofNat (Nat.size s.1.toNat) = result + UInt32.ofNat (Nat.size n.toNat))
    (fun s => Nat.size s.1.toNat) hbody 129 (s := (n, result)) rfl hfuel
  have hzero : s.1.toNat = 0 := by simpa using hend
  rw [countBits128, hs, Option.map_some, ← hinv, hzero, Nat.size_zero]
  simp

/-- `bits256` is the number of binary digits. -/
theorem bits256_eq (n : Uint256) : bits256 n = some (UInt32.ofNat (Nat.size n.toNat)) := by
  unfold bits256
  simp only [zero128_eq, countBits128_eq, Bool.not_eq_eq_eq_not, Bool.not_true,
    decide_eq_false_iff_not]
  split
  case isTrue h =>
    rw [Uint256.toNat, size_mul_two_pow_add h n.lower.toNat_lt, UInt32.ofNat_add]
    rfl
  case isFalse h =>
    have hzero : n.upper.toNat = 0 := by omega
    rw [Uint256.toNat, hzero, Nat.zero_mul, Nat.zero_add]
    simp

/-- The registers of `divmod256` as numbers. -/
def DivmodState.toDivision (s : DivmodState) : Division :=
  ⟨s.copyd.toNat, s.adder.toNat, s.resDiv.toNat, s.resMod.toNat⟩

/-- The loop body is a turn of the long division. -/
theorem divmodBody_toDivision (s : DivmodState) :
    (divmodBody s).toDivision = s.toDivision.step := by
  by_cases h : s.copyd.toNat ≤ s.resMod.toNat
  · simp only [DivmodState.toDivision, divmodBody, Division.step, gte256_eq, shiftr256_one, h,
      decide_true, if_true, or256_toNat, minus256_toNat, subMod_of_le h s.resMod.toNat_lt]
  · simp only [DivmodState.toDivision, divmodBody, Division.step, gte256_eq, shiftr256_one, h,
      decide_false, Bool.false_eq_true, if_false]

/-- The loop of `divmod256` is the long division of the numbers. -/
theorem divmodLoop_toDivision (r : Uint256) (fuel : ℕ) (s : DivmodState) :
    (whileLoop (fun s => gte256 s.resMod r) divmodBody fuel s).map DivmodState.toDivision =
      whileLoop (fun d => decide (r.toNat ≤ d.remainder)) Division.step fuel s.toDivision :=
  whileLoop_map DivmodState.toDivision (fun s => gte256_eq s.resMod r)
    (fun s _ => divmodBody_toDivision s) fuel s

/-- The difference of the lengths, as `divmod256` computes it. -/
theorem diffBits_toNat {l r : Uint256} (hle : r.toNat ≤ l.toNat) :
    Nat.size r.toNat + (UInt32.ofNat (Nat.size l.toNat) - UInt32.ofNat (Nat.size r.toNat)).toNat =
      Nat.size l.toNat := by
  have hsize := Nat.size_le_size hle
  have hl256 : Nat.size l.toNat ≤ 256 := Nat.size_le.mpr l.toNat_lt
  rw [toNat_sub_amount] <;> rw [UInt32.toNat_ofNat', UInt32.toNat_ofNat'] <;> omega

/-- The start of the loop: the divisor shifted to the length of the dividend, or
one place less when that is above the dividend. No bit is lost. -/
theorem divmodStart_toDivision {l r : Uint256} {diffBits : UInt32} (hr : 0 < r.toNat)
    (hdiff : Nat.size r.toNat + diffBits.toNat = Nat.size l.toNat) (hle : r.toNat ≤ l.toNat) :
    ∃ k, k < 256 ∧ l.toNat < 2 * (r.toNat * 2 ^ k) ∧
      (divmodStart l r diffBits).toDivision = ⟨r.toNat * 2 ^ k, 2 ^ k, 0, l.toNat⟩ := by
  generalize hk : diffBits.toNat = k at hdiff
  have hl256 : Nat.size l.toNat ≤ 256 := Nat.size_le.mpr l.toNat_lt
  have hr1 : 0 < Nat.size r.toNat := Nat.size_pos.mpr hr
  have hpow : (2 : ℕ) ^ k < 2 ^ 256 := Nat.pow_lt_pow_right (by omega) (by omega)
  have hshift : r.toNat * 2 ^ k < 2 ^ 256 :=
    calc r.toNat * 2 ^ k < 2 ^ Nat.size r.toNat * 2 ^ k :=
          Nat.mul_lt_mul_of_pos_right (Nat.lt_size_self _) (Nat.two_pow_pos k)
      _ = 2 ^ Nat.size l.toNat := by rw [← pow_add, hdiff]
      _ ≤ 2 ^ 256 := Nat.pow_le_pow_right (by omega) hl256
  have hcopyd : (shiftl256 r diffBits).toNat = r.toNat * 2 ^ k := by
    rw [shiftl256_toNat, hk, Nat.mod_eq_of_lt hshift]
  have hadder : (shiftl256 ⟨clear128, ⟨0, 1⟩⟩ diffBits).toNat = 2 ^ k := by
    rw [shiftl256_toNat, hk, one256_toNat, Nat.one_mul, Nat.mod_eq_of_lt hpow]
  -- the top bit of the divisor is set
  have htop : l.toNat < 2 * (r.toNat * 2 ^ k) := by
    obtain ⟨j, hj⟩ : ∃ j, Nat.size r.toNat = j + 1 := Nat.exists_eq_succ_of_ne_zero (by omega)
    have hrj : 2 ^ j ≤ r.toNat := Nat.lt_size.mp (by omega)
    calc l.toNat < 2 ^ Nat.size l.toNat := Nat.lt_size_self _
      _ = 2 * (2 ^ j * 2 ^ k) := by rw [← hdiff, hj, pow_add, pow_succ]; ring
      _ ≤ 2 * (r.toNat * 2 ^ k) := Nat.mul_le_mul_left 2 (Nat.mul_le_mul_right _ hrj)
  by_cases hgt : l.toNat < r.toNat * 2 ^ k
  · have hpos : k ≠ 0 := by
      rintro rfl
      omega
    obtain ⟨j, rfl⟩ := Nat.exists_eq_succ_of_ne_zero hpos
    have hbool : gt256 (shiftl256 r diffBits) l = true := by
      rw [gt256_eq, hcopyd, decide_eq_true hgt]
    rw [pow_succ, ← Nat.mul_assoc] at hgt
    refine ⟨j, by omega, by omega, ?_⟩
    rw [divmodStart, if_pos hbool, DivmodState.toDivision, shiftr256_one, shiftr256_one, hcopyd,
      hadder, clear256_toNat, pow_succ, ← Nat.mul_assoc, Nat.mul_div_cancel _ (by omega),
      Nat.mul_div_cancel _ (by omega)]
  · have hbool : ¬gt256 (shiftl256 r diffBits) l = true := by
      rw [gt256_eq, hcopyd, decide_eq_false hgt]
      exact Bool.false_ne_true
    refine ⟨k, by omega, htop, ?_⟩
    rw [divmodStart, if_neg hbool, DivmodState.toDivision, hcopyd, hadder, clear256_toNat]

/-- **`divmod256` is Euclidean division** by every number other than zero. -/
theorem divmod256_eq (l : Uint256) {r : Uint256} (hr : r.toNat ≠ 0) :
    ∃ q m, divmod256 l r = some (q, m) ∧ q.toNat = l.toNat / r.toNat ∧
      m.toNat = l.toNat % r.toNat := by
  rw [divmod256, bits256_eq, bits256_eq]
  simp only [Option.bind_eq_bind, Option.bind_some]
  obtain hlt | hle := Nat.lt_or_ge l.toNat r.toNat
  · have hgt : gt256 r l = true := by rw [gt256_eq, decide_eq_true hlt]
    rw [if_pos hgt]
    exact ⟨clear256, l, rfl, by rw [clear256_toNat, Nat.div_eq_of_lt hlt],
      (Nat.mod_eq_of_lt hlt).symm⟩
  · have hgt : ¬gt256 r l = true := by
      rw [gt256_eq, decide_eq_false (by omega)]
      exact Bool.false_ne_true
    rw [if_neg hgt]
    obtain ⟨k, hk, hstart, hdivision⟩ :=
      divmodStart_toDivision (by omega) (diffBits_toNat hle) hle
    obtain ⟨d, hd, hquotient, hremainder⟩ :=
      Division.loop_correct 257 (by omega : 0 < r.toNat) hstart (by omega)
    have hmap := divmodLoop_toDivision r 257 (divmodStart l r
      (UInt32.ofNat (Nat.size l.toNat) - UInt32.ofNat (Nat.size r.toNat)))
    rw [hdivision, hd] at hmap
    obtain ⟨s, hs, rfl⟩ := Option.map_eq_some_iff.mp hmap
    rw [hs]
    exact ⟨s.resDiv, s.resMod, rfl, hquotient, hremainder⟩

section Objects

variable {Object : Type} [DecidableEq Object]

/-- `divmod256` on the objects that its arguments point to: the results are copied
to `retDiv` and `retMod` at the end, and either may be an object that was read. -/
def divmod256At (mem : Object → Uint256) (l r retDiv retMod : Object) :
    Option (Object → Uint256) := do
  let bitsL ← bits256 (mem l)
  let bitsR ← bits256 (mem r)
  if gt256 (mem r) (mem l) then
    let mem := Function.update mem retMod (mem l)
    some (Function.update mem retDiv clear256)
  else
    let final ← whileLoop (fun s => gte256 s.resMod (mem r)) divmodBody 257
      (divmodStart (mem l) (mem r) (bitsL - bitsR))
    let mem := Function.update mem retDiv final.resDiv
    some (Function.update mem retMod final.resMod)

/-- The objects are left with the values of the quotient and the remainder. -/
theorem divmod256At_eq (mem : Object → Uint256) (l r : Object) {retDiv retMod : Object}
    (hret : retDiv ≠ retMod) :
    divmod256At mem l r retDiv retMod = (divmod256 (mem l) (mem r)).map fun result =>
      Function.update (Function.update mem retDiv result.1) retMod result.2 := by
  rw [divmod256At, divmod256, bits256_eq, bits256_eq]
  simp only [Option.bind_eq_bind, Option.bind_some]
  split
  · rw [Option.map_some, Function.update_comm hret]
  · rw [Option.map_bind]
    rfl

/-- **Euclidean division, wherever the results are stored.** The dividend and the
divisor are those before the call, also when a result is stored over one of them. -/
theorem divmod256At_euclidean (mem : Object → Uint256) {l r retDiv retMod : Object}
    (hr : (mem r).toNat ≠ 0) (hret : retDiv ≠ retMod) :
    ∃ mem', divmod256At mem l r retDiv retMod = some mem' ∧
      divmod256 (mem l) (mem r) = some (mem' retDiv, mem' retMod) ∧
      (mem l).toNat = (mem' retDiv).toNat * (mem r).toNat + (mem' retMod).toNat ∧
      (mem' retMod).toNat < (mem r).toNat ∧
      ∀ x, x ≠ retDiv → x ≠ retMod → mem' x = mem x := by
  obtain ⟨q, m, hdivmod, hq, hm⟩ := divmod256_eq (mem l) hr
  have hquotient : Function.update (Function.update mem retDiv q) retMod m retDiv = q := by
    rw [Function.update_of_ne hret, Function.update_self]
  have hremainder : Function.update (Function.update mem retDiv q) retMod m retMod = m :=
    Function.update_self _ _ _
  refine ⟨Function.update (Function.update mem retDiv q) retMod m, ?_, ?_, ?_, ?_, ?_⟩
  · rw [divmod256At_eq mem l r hret, hdivmod, Option.map_some]
  · rw [hquotient, hremainder, hdivmod]
  · rw [hquotient, hremainder, hq, hm, Nat.div_add_mod']
  · rw [hremainder, hm]
    exact Nat.mod_lt _ (Nat.pos_of_ne_zero hr)
  · intro x hdiv hmod
    rw [Function.update_of_ne hmod, Function.update_of_ne hdiv]

end Objects

/-- The numbers of `tostring256`. It passes `rDiv` as the dividend and for the quotient. -/
inductive TostringObject
  | rDiv
  | rMod
  | base
  deriving DecidableEq

/-- The numbers of `tostring256` with the given values. -/
def tostringObjects (rDiv rMod base : Uint256) : TostringObject → Uint256
  | .rDiv => rDiv
  | .rMod => rMod
  | .base => base

theorem divmod256At_euclidean_tostring :
    ∃ mem', divmod256At (tostringObjects ⟨⟨1, 2⟩, ⟨3, 4⟩⟩ clear256 ⟨clear128, ⟨0, 10⟩⟩)
        .rDiv .base .rDiv .rMod = some mem' ∧
      divmod256 ⟨⟨1, 2⟩, ⟨3, 4⟩⟩ ⟨clear128, ⟨0, 10⟩⟩ = some (mem' .rDiv, mem' .rMod) ∧
      (⟨⟨1, 2⟩, ⟨3, 4⟩⟩ : Uint256).toNat = (mem' .rDiv).toNat * 10 + (mem' .rMod).toNat ∧
      (mem' .rMod).toNat < 10 ∧
      ∀ x, x ≠ .rDiv → x ≠ .rMod →
        mem' x = tostringObjects ⟨⟨1, 2⟩, ⟨3, 4⟩⟩ clear256 ⟨clear128, ⟨0, 10⟩⟩ x :=
  divmod256At_euclidean (tostringObjects ⟨⟨1, 2⟩, ⟨3, 4⟩⟩ clear256 ⟨clear128, ⟨0, 10⟩⟩)
    (by decide) (by decide)

/-- The division of `tostring256` changes its dividend and its remainder. -/
theorem divmod256At_tostring (rDiv rMod base : Uint256) :
    divmod256At (tostringObjects rDiv rMod base) .rDiv .base .rDiv .rMod =
      (divmod256 rDiv base).map fun result => tostringObjects result.1 result.2 base := by
  rw [divmod256At_eq _ _ _ (by decide)]
  congr 1
  funext result x
  cases x <;> rfl

end AppVechain

import AppVechain.Uint256.Objects
import AppVechain.Uint256.Shift

/-!
# Shifts in place

The shifts of `common/uint256.c` on objects. They are exact wherever the result is
stored, with one exception: `shiftr128` by 64 clears the upper half of the target
before it reads the upper half of the number, and finds zero when these are one
object. `shiftr256` by 128 copies before it clears.
-/

namespace AppVechain

open Memory Numeral

variable {Object : Type} [DecidableEq Object]

/-- `shiftl128` -/
def shiftl128At (mem : Object → Uint128) (number : Object) (value : UInt32) (target : Object) :
    Object → Uint128 :=
  if value ≥ 128 then clear128At mem target
  else if value = 64 then
    let mem := setUpper mem target (mem number).lower
    setLower mem target 0
  else if value = 0 then copy128At mem target number
  else if value < 64 then
    let mem := setUpper mem target
      (((mem number).upper <<< value.toUInt64) + ((mem number).lower >>> (64 - value).toUInt64))
    setLower mem target ((mem number).lower <<< value.toUInt64)
  else if 128 > value ∧ value > 64 then
    let mem := setUpper mem target ((mem number).lower <<< (value - 64).toUInt64)
    setLower mem target 0
  else clear128At mem target

/-- `shiftr128`. Its local variable holds `junk` until it is assigned. -/
def shiftr128At (junk : Uint128) (mem : Object → Uint128) (number : Object) (value : UInt32)
    (target : Object) : Object → Uint128 :=
  if value ≥ 128 then clear128At mem target
  else if value = 64 then
    let mem := setUpper mem target 0
    setLower mem target (mem number).upper
  else if value = 0 then copy128At mem target number
  else if value < 64 then
    call junk (fun mem : Object ⊕ Unit → Uint128 =>
      let result : Object ⊕ Unit := .inr ()
      let mem := setUpper mem result ((mem (.inl number)).upper >>> value.toUInt64)
      let mem := setLower mem result (((mem (.inl number)).upper <<< (64 - value).toUInt64) +
        ((mem (.inl number)).lower >>> value.toUInt64))
      copy128At mem (.inl target) result) mem
  else if 128 > value ∧ value > 64 then
    let mem := setLower mem target ((mem number).upper >>> (value - 64).toUInt64)
    setUpper mem target 0
  else clear128At mem target

/-- The local variables of `shiftl256` and `shiftr256`. -/
inductive ShiftLocal
  | tmp1
  | tmp2
  | upper
  | lower
  deriving DecidableEq

/-- `result` -/
def ShiftLocal.result : Pair ShiftLocal := ⟨.upper, .lower, by decide⟩

/-- `shiftl256` -/
def shiftl256At (junk : Uint128) (mem : Object → Uint128) (number : Pair Object) (value : UInt32)
    (target : Pair Object) : Object → Uint128 :=
  if value ≥ 256 then clear256At mem target
  else if value = 128 then
    let mem := copy128At mem target.upper number.lower
    clear128At mem target.lower
  else if value = 0 then copy256At mem target number
  else if value < 128 then
    call junk (fun mem : Object ⊕ ShiftLocal → Uint128 =>
      let mem := shiftl128At mem (.inl number.upper) value (.inr .tmp1)
      let mem := shiftr128At junk mem (.inl number.lower) (128 - value) (.inr .tmp2)
      let mem := add128At mem (.inr .tmp1) (.inr .tmp2) (.inr ShiftLocal.result.upper)
      let mem := shiftl128At mem (.inl number.lower) value (.inr ShiftLocal.result.lower)
      copy256At mem target.ofCaller ShiftLocal.result.ofLocal) mem
  else if 256 > value ∧ value > 128 then
    let mem := shiftl128At mem number.lower (value - 128) target.upper
    clear128At mem target.lower
  else clear256At mem target

/-- `shiftr256` -/
def shiftr256At (junk : Uint128) (mem : Object → Uint128) (number : Pair Object) (value : UInt32)
    (target : Pair Object) : Object → Uint128 :=
  if value ≥ 256 then clear256At mem target
  else if value = 128 then
    let mem := copy128At mem target.lower number.upper
    clear128At mem target.upper
  else if value = 0 then copy256At mem target number
  else if value < 128 then
    call junk (fun mem : Object ⊕ ShiftLocal → Uint128 =>
      let mem := shiftr128At junk mem (.inl number.upper) value (.inr ShiftLocal.result.upper)
      let mem := shiftr128At junk mem (.inl number.lower) value (.inr .tmp1)
      let mem := shiftl128At mem (.inl number.upper) (128 - value) (.inr .tmp2)
      let mem := add128At mem (.inr .tmp1) (.inr .tmp2) (.inr ShiftLocal.result.lower)
      copy256At mem target.ofCaller ShiftLocal.result.ofLocal) mem
  else if 256 > value ∧ value > 128 then
    let mem := shiftr128At junk mem number.upper (value - 128) target.lower
    clear128At mem target.upper
  else clear256At mem target

/-- `shiftl128` stores the shifted number, in place or not. -/
theorem shiftl128At_eq (mem : Object → Uint128) (number : Object) (value : UInt32)
    (target : Object) :
    shiftl128At mem number value target =
      Function.update mem target (shiftl128 (mem number) value) := by
  unfold shiftl128At shiftl128
  split_ifs
  · rw [clear128At_eq]
  · rw [setLower_setUpper]
  · rw [copy128At_eq]
  · rw [setLower_setUpper, setUpper_lower]
  · rw [setLower_setUpper]
  · rw [clear128At_eq]

/-- `shiftr128` stores the shifted number, in place or not, except by 64 places. -/
theorem shiftr128At_eq (junk : Uint128) (mem : Object → Uint128) {number : Object} {value : UInt32}
    {target : Object} (h : value ≠ 64 ∨ number ≠ target) :
    shiftr128At junk mem number value target =
      Function.update mem target (shiftr128 (mem number) value) := by
  unfold shiftr128At shiftr128
  split_ifs with h128 h64
  · rw [clear128At_eq]
  · have hother : number ≠ target := h.resolve_left (not_not_intro h64)
    rw [setLower_setUpper, setUpper_of_ne hother]
  · rw [copy128At_eq]
  · have hlocal : (.inl number : Object ⊕ Unit) ≠ .inr () := Sum.inl_ne_inr
    simp only [call, copy128At_eq, setLower_setUpper, setUpper_of_ne hlocal,
      Sum.elim_inl, Sum.elim_inr, Sum.update_elim_inr, Sum.update_elim_inl, Sum.elim_comp_inl,
      Function.update_self]
  · rw [setUpper_setLower]
  · rw [clear128At_eq]

/-- In place and by 64 places, the upper half is lost. -/
theorem shiftr128At_inPlace (junk : Uint128) (mem : Object → Uint128) (number : Object) :
    shiftr128At junk mem number 64 number = Function.update mem number clear128 := by
  rw [shiftr128At, if_neg (by decide), if_pos rfl, setLower_setUpper, setUpper,
    Function.update_self]
  rfl

/-- `shiftl256` stores the shifted number, in place or not. -/
theorem shiftl256At_eq (junk : Uint128) (mem : Object → Uint128) {number target : Pair Object}
    (value : UInt32) (h : number.Aligned target) :
    shiftl256At junk mem number value target =
      store256 mem target (shiftl256 (load256 mem number) value) := by
  unfold shiftl256At shiftl256
  split_ifs with h256 h128 h0 hlt hgt
  · rw [clear256At_eq]
  · rw [copy128At_eq, clear128At_eq]
    rfl
  · rw [copy256At_eq mem h]
  · simp only [call, shiftl128At_eq, shiftr128At_eq junk _ (.inr Sum.inl_ne_inr), add128At_eq,
      Sum.elim_inl, Sum.elim_inr, Sum.update_elim_inr, copy256At_ofLocal]
    rfl
  · rw [shiftl128At_eq, clear128At_eq]
    rfl
  · rw [clear256At_eq]

/-- `shiftr256` stores the shifted number, in place or not: it passes different halves
to `shiftr128`. -/
theorem shiftr256At_eq (junk : Uint128) (mem : Object → Uint128) {number target : Pair Object}
    (value : UInt32) (h : number.Aligned target) :
    shiftr256At junk mem number value target =
      store256 mem target (shiftr256 (load256 mem number) value) := by
  unfold shiftr256At shiftr256
  split_ifs with h256 h128 h0 hlt hgt
  · rw [clear256At_eq]
  · rw [copy128At_eq, clear128At_eq, store_lower_first]
    rfl
  · rw [copy256At_eq mem h]
  · simp only [call, shiftl128At_eq, shiftr128At_eq junk _ (.inr Sum.inl_ne_inr), add128At_eq,
      Sum.elim_inl, Sum.elim_inr, Sum.update_elim_inr, copy256At_ofLocal]
    rfl
  · rw [shiftr128At_eq junk _ (.inr h.upper_ne_lower), clear128At_eq, store_lower_first]
    rfl
  · rw [clear256At_eq]

/-- **When the shifts are exact.** All are, wherever the result is stored, but for
`shiftr128` in place by 64 places: that one is when there is no upper half to shift down. -/
theorem shifts_exact_iff (junk : Uint128) (mem : Object → Uint128) (value : UInt32) :
    (∀ number target : Object,
      (shiftl128At mem number value target target).toNat =
        (mem number).toNat * 2 ^ value.toNat % 2 ^ 128 ∧
      ((shiftr128At junk mem number value target target).toNat =
          (mem number).toNat / 2 ^ value.toNat ↔
        ¬(value = 64 ∧ target = number ∧ 2 ^ 64 ≤ (mem number).toNat))) ∧
    ∀ number target : Pair Object, number.Aligned target →
      (load256 (shiftl256At junk mem number value target) target).toNat =
        (load256 mem number).toNat * 2 ^ value.toNat % 2 ^ 256 ∧
      (load256 (shiftr256At junk mem number value target) target).toNat =
        (load256 mem number).toNat / 2 ^ value.toNat := by
  constructor
  · intro number target
    constructor
    · rw [shiftl128At_eq, Function.update_self, shiftl128_toNat]
    · by_cases hcase : value = 64 ∧ target = number
      · obtain ⟨rfl, rfl⟩ := hcase
        rw [shiftr128At_inPlace, Function.update_self, clear128_toNat]
        have hdiv := Nat.div_eq_zero_iff_lt (x := (mem target).toNat) (k := 2 ^ 64) (by omega)
        show 0 = (mem target).toNat / 2 ^ 64 ↔ _
        simp only [true_and, Nat.not_le, eq_comm (a := 0), hdiv]
      · have hother : value ≠ 64 ∨ number ≠ target := by
          rw [not_and_or] at hcase
          exact hcase.imp_right Ne.symm
        rw [shiftr128At_eq junk mem hother, Function.update_self, shiftr128_toNat]
        exact iff_of_true rfl fun h => hcase ⟨h.1, h.2.1⟩
  · intro number target h
    rw [shiftl256At_eq junk mem value h, shiftr256At_eq junk mem value h, load256_store256,
      load256_store256, shiftl256_toNat, shiftr256_toNat]
    exact ⟨rfl, rfl⟩

/-- Shifts of a `uint256_t` in place. -/
theorem shifts_exact_iff_single :
    (load256 (shiftl256At clear128 (halves fun _ : Unit => ⟨⟨0, 5⟩, ⟨1, 5⟩⟩) (.named ()) 192
        (.named ())) (.named ())).toNat =
        (load256 (halves fun _ : Unit => ⟨⟨0, 5⟩, ⟨1, 5⟩⟩) (.named ())).toNat *
          2 ^ (192 : UInt32).toNat % 2 ^ 256 ∧
      (load256 (shiftr256At clear128 (halves fun _ : Unit => ⟨⟨0, 5⟩, ⟨1, 5⟩⟩) (.named ()) 192
        (.named ())) (.named ())).toNat =
        (load256 (halves fun _ : Unit => ⟨⟨0, 5⟩, ⟨1, 5⟩⟩) (.named ())).toNat /
          2 ^ (192 : UInt32).toNat :=
  (shifts_exact_iff clear128 (halves fun _ : Unit => ⟨⟨0, 5⟩, ⟨1, 5⟩⟩) 192).2 _ _ (.refl _)

/-- `2 ^ 64` shifted down by 64 places is one, but not in place. -/
theorem not_shiftr128_exact_inPlace :
    (shiftr128At clear128 (fun _ : Unit => ⟨1, 0⟩) () 64 () ()).toNat ≠
      (⟨1, 0⟩ : Uint128).toNat / 2 ^ (64 : UInt32).toNat := by
  rw [shiftr128At_inPlace]
  decide

end AppVechain

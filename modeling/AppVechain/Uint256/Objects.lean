import AppVechain.Memory.Pair
import AppVechain.Uint256.Basic

/-!
# Sums and differences in place

`common/uint256.c` again, statement by statement on the objects that the pointers
point to. A `uint256_t` is a pair of `uint128_t` objects. The operands may be the
target: what a function stores is the value that its counterpart on values
returns for the operands before the call, and no other object changes.
-/

namespace AppVechain

open Memory Numeral

variable {Object : Type} [DecidableEq Object]

/-- `UPPER_P(target) = x` -/
def setUpper (mem : Object → Uint128) (target : Object) (x : UInt64) : Object → Uint128 :=
  Function.update mem target { mem target with upper := x }

/-- `LOWER_P(target) = x` -/
def setLower (mem : Object → Uint128) (target : Object) (x : UInt64) : Object → Uint128 :=
  Function.update mem target { mem target with lower := x }

/-- `copy128` -/
def copy128At (mem : Object → Uint128) (target number : Object) : Object → Uint128 :=
  let mem := setUpper mem target (mem number).upper
  setLower mem target (mem number).lower

/-- `clear128` -/
def clear128At (mem : Object → Uint128) (target : Object) : Object → Uint128 :=
  let mem := setUpper mem target 0
  setLower mem target 0

/-- `add128` -/
def add128At (mem : Object → Uint128) (number1 number2 target : Object) : Object → Uint128 :=
  let mem := setUpper mem target ((mem number1).upper + (mem number2).upper +
    if (mem number1).lower + (mem number2).lower < (mem number1).lower then 1 else 0)
  setLower mem target ((mem number1).lower + (mem number2).lower)

/-- `minus128` -/
def minus128At (mem : Object → Uint128) (number1 number2 target : Object) : Object → Uint128 :=
  let mem := setUpper mem target ((mem number1).upper - (mem number2).upper -
    if (mem number1).lower - (mem number2).lower > (mem number1).lower then 1 else 0)
  setLower mem target ((mem number1).lower - (mem number2).lower)

/-- `or128` -/
def or128At (mem : Object → Uint128) (number1 number2 target : Object) : Object → Uint128 :=
  let mem := setUpper mem target ((mem number1).upper ||| (mem number2).upper)
  setLower mem target ((mem number1).lower ||| (mem number2).lower)

/-- `copy256` -/
def copy256At (mem : Object → Uint128) (target number : Pair Object) : Object → Uint128 :=
  let mem := copy128At mem target.upper number.upper
  copy128At mem target.lower number.lower

/-- `clear256` -/
def clear256At (mem : Object → Uint128) (target : Pair Object) : Object → Uint128 :=
  let mem := clear128At mem target.upper
  clear128At mem target.lower

/-- The local variables of `add256` and `minus256`. -/
inductive CarryLocal
  | tmp
  | one
  deriving DecidableEq

/-- `add256`. The local variables hold `junk` until they are assigned. -/
def add256At (junk : Uint128) (mem : Object → Uint128) (number1 number2 target : Pair Object) :
    Object → Uint128 :=
  call junk (fun mem : Object ⊕ CarryLocal → Uint128 =>
    let mem := add128At mem (.inl number1.upper) (.inl number2.upper) (.inl target.upper)
    let mem := add128At mem (.inl number1.lower) (.inl number2.lower) (.inr .tmp)
    let mem :=
      if gt128 (mem (.inl number1.lower)) (mem (.inr .tmp)) then
        let mem := setUpper mem (.inr .one) 0
        let mem := setLower mem (.inr .one) 1
        add128At mem (.inl target.upper) (.inr .one) (.inl target.upper)
      else mem
    add128At mem (.inl number1.lower) (.inl number2.lower) (.inl target.lower)) mem

/-- `minus256` -/
def minus256At (junk : Uint128) (mem : Object → Uint128) (number1 number2 target : Pair Object) :
    Object → Uint128 :=
  call junk (fun mem : Object ⊕ CarryLocal → Uint128 =>
    let mem := minus128At mem (.inl number1.upper) (.inl number2.upper) (.inl target.upper)
    let mem := minus128At mem (.inl number1.lower) (.inl number2.lower) (.inr .tmp)
    let mem :=
      if gt128 (mem (.inr .tmp)) (mem (.inl number1.lower)) then
        let mem := setUpper mem (.inr .one) 0
        let mem := setLower mem (.inr .one) 1
        minus128At mem (.inl target.upper) (.inr .one) (.inl target.upper)
      else mem
    minus128At mem (.inl number1.lower) (.inl number2.lower) (.inl target.lower)) mem

/-- `or256` -/
def or256At (mem : Object → Uint128) (number1 number2 target : Pair Object) : Object → Uint128 :=
  let mem := or128At mem number1.upper number2.upper target.upper
  or128At mem number1.lower number2.lower target.lower

/-- The value of a `uint256_t` object. -/
def load256 (mem : Object → Uint128) (number : Pair Object) : Uint256 :=
  ⟨mem number.upper, mem number.lower⟩

/-- The memory with a value in a `uint256_t` object. -/
def store256 (mem : Object → Uint128) (target : Pair Object) (number : Uint256) :
    Object → Uint128 :=
  store mem target number.upper number.lower

/-- The memory of the halves of named numbers. -/
def halves {Name : Type} (numbers : Name → Uint256) (half : Name × Bool) : Uint128 :=
  if half.2 then (numbers half.1).upper else (numbers half.1).lower

@[simp] theorem load256_halves {Name : Type} (numbers : Name → Uint256) (name : Name) :
    load256 (halves numbers) (.named name) = numbers name := rfl

/-- A store to a named number. -/
theorem store256_halves {Name : Type} [DecidableEq Name] (numbers : Name → Uint256) (name : Name)
    (number : Uint256) : store256 (halves numbers) (.named name) number =
      halves (Function.update numbers name number) := by
  funext ⟨other, isUpper⟩
  by_cases h : other = name
  · subst h
    rw [halves, Function.update_self]
    cases isUpper
    · exact store_lower
    · exact store_upper
  · have hne (b : Bool) : (other, isUpper) ≠ (name, b) := fun heq => h (Prod.mk.inj heq).1
    rw [halves, Function.update_of_ne h, store256, store, Pair.named,
      Function.update_of_ne (hne _), Function.update_of_ne (hne _), halves]

@[simp] theorem load256_store256 (mem : Object → Uint128) (target : Pair Object)
    (number : Uint256) : load256 (store256 mem target number) target = number := by
  rw [load256, store256, store_upper, store_lower]

/-- A local number during a call. -/
@[simp] theorem load256_ofLocal {Caller Local : Type} (mem : Caller → Uint128)
    (locals : Local → Uint128) (number : Pair Local) :
    load256 (Sum.elim mem locals) number.ofLocal = load256 locals number :=
  rfl

/-- An assignment to the upper half leaves the lower halves of all objects. -/
@[simp] theorem setUpper_lower (mem : Object → Uint128) (target : Object) (x : UInt64)
    (number : Object) : (setUpper mem target x number).lower = (mem number).lower := by
  rw [setUpper]
  by_cases h : number = target
  · rw [h, Function.update_self]
  · rw [Function.update_of_ne h]

/-- Another object keeps its upper half as well. -/
theorem setUpper_of_ne {mem : Object → Uint128} {target number : Object} (h : number ≠ target)
    (x : UInt64) : setUpper mem target x number = mem number :=
  Function.update_of_ne h _ _

/-- Both halves are assigned, the upper first. -/
theorem setLower_setUpper (mem : Object → Uint128) (target : Object) (x y : UInt64) :
    setLower (setUpper mem target x) target y = Function.update mem target ⟨x, y⟩ := by
  rw [setLower, setUpper, Function.update_idem, Function.update_self]

/-- Both halves are assigned, the lower first. -/
theorem setUpper_setLower (mem : Object → Uint128) (target : Object) (x y : UInt64) :
    setUpper (setLower mem target y) target x = Function.update mem target ⟨x, y⟩ := by
  rw [setLower, setUpper, Function.update_idem, Function.update_self]

theorem copy128At_eq (mem : Object → Uint128) (target number : Object) :
    copy128At mem target number = Function.update mem target (mem number) := by
  rw [copy128At, setLower_setUpper, setUpper_lower]

theorem clear128At_eq (mem : Object → Uint128) (target : Object) :
    clear128At mem target = Function.update mem target clear128 :=
  setLower_setUpper mem target 0 0

/-- `add128` stores the sum of the operands, whichever of them is the target. -/
theorem add128At_eq (mem : Object → Uint128) (number1 number2 target : Object) :
    add128At mem number1 number2 target =
      Function.update mem target (add128 (mem number1) (mem number2)) := by
  rw [add128At, setLower_setUpper, setUpper_lower, setUpper_lower, add128]

theorem minus128At_eq (mem : Object → Uint128) (number1 number2 target : Object) :
    minus128At mem number1 number2 target =
      Function.update mem target (minus128 (mem number1) (mem number2)) := by
  rw [minus128At, setLower_setUpper, setUpper_lower, setUpper_lower, minus128]

theorem or128At_eq (mem : Object → Uint128) (number1 number2 target : Object) :
    or128At mem number1 number2 target =
      Function.update mem target (or128 (mem number1) (mem number2)) := by
  rw [or128At, setLower_setUpper, setUpper_lower, setUpper_lower, or128]

theorem copy256At_eq (mem : Object → Uint128) {target number : Pair Object}
    (h : number.Aligned target) :
    copy256At mem target number = store256 mem target (load256 mem number) := by
  rw [copy256At, copy128At_eq, copy128At_eq, update_upper_lower h, store256, store, load256]

/-- A local object is copied to the target at the end of a call. -/
theorem copy256At_ofLocal {Local : Type} [DecidableEq Local] (mem : Object → Uint128)
    (locals : Local → Uint128) (target : Pair Object) (result : Pair Local) :
    copy256At (Sum.elim mem locals) target.ofCaller result.ofLocal ∘ Sum.inl =
      store256 mem target (load256 locals result) := by
  rw [copy256At_eq _ (result.ofLocal_aligned_ofCaller target), store256, store_ofCaller,
    Sum.elim_comp_inl]
  rfl

theorem clear256At_eq (mem : Object → Uint128) (target : Pair Object) :
    clear256At mem target = store256 mem target clear256 := by
  rw [clear256At, clear128At_eq, clear128At_eq, store256, store, clear256]

theorem or256At_eq (mem : Object → Uint128) {number1 number2 target : Pair Object}
    (h₁ : number1.Aligned target) (h₂ : number2.Aligned target) :
    or256At mem number1 number2 target =
      store256 mem target (or256 (load256 mem number1) (load256 mem number2)) := by
  rw [or256At, or128At_eq, or128At_eq, update_upper_lower h₁, update_upper_lower h₂, store256,
    store, or256, load256, load256]

/-- `add256` stores the sum of the operands. Their lower halves are intact until the
last statement, so the carry is seen also when an operand is the target. -/
theorem add256At_eq (junk : Uint128) (mem : Object → Uint128)
    {number1 number2 target : Pair Object} (h₁ : number1.Aligned target)
    (h₂ : number2.Aligned target) :
    add256At junk mem number1 number2 target =
      store256 mem target (add256 (load256 mem number1) (load256 mem number2)) := by
  rw [add256At, call]
  simp only [add128At_eq, setLower_setUpper, Sum.update_elim_inl, Sum.update_elim_inr,
    Sum.elim_inl, Sum.elim_inr, Function.update_self, update_upper_lower h₁,
    update_upper_lower h₂]
  rw [store256, store, add256, load256, load256]
  split <;> simp only [Sum.elim_inl, Sum.update_elim_inl, Sum.elim_comp_inl, Function.update_idem,
    update_upper_lower h₁, update_upper_lower h₂]

/-- `minus256` stores the difference of the operands; the borrow is seen likewise. -/
theorem minus256At_eq (junk : Uint128) (mem : Object → Uint128)
    {number1 number2 target : Pair Object} (h₁ : number1.Aligned target)
    (h₂ : number2.Aligned target) :
    minus256At junk mem number1 number2 target =
      store256 mem target (minus256 (load256 mem number1) (load256 mem number2)) := by
  rw [minus256At, call]
  simp only [minus128At_eq, setLower_setUpper, Sum.update_elim_inl, Sum.update_elim_inr,
    Sum.elim_inl, Sum.elim_inr, Function.update_self, update_upper_lower h₁,
    update_upper_lower h₂]
  rw [store256, store, minus256, load256, load256]
  split <;> simp only [Sum.elim_inl, Sum.update_elim_inl, Sum.elim_comp_inl, Function.update_idem,
    update_upper_lower h₁, update_upper_lower h₂]

/-- **Carries and borrows propagate**, whether the target is another object than the
operands, one of them or both. -/
theorem carries_propagate (junk : Uint128) (mem : Object → Uint128)
    {number1 number2 target : Pair Object} (h₁ : number1.Aligned target)
    (h₂ : number2.Aligned target) :
    (load256 (add256At junk mem number1 number2 target) target).toNat =
        ((load256 mem number1).toNat + (load256 mem number2).toNat) % 2 ^ 256 ∧
      ((load256 (minus256At junk mem number1 number2 target) target).toNat : ℤ) =
        ((load256 mem number1).toNat - (load256 mem number2).toNat) % 2 ^ 256 := by
  constructor
  · rw [add256At_eq junk mem h₁ h₂, load256_store256, add256_toNat]
  · rw [minus256At_eq junk mem h₁ h₂, load256_store256, minus256_toNat,
      subMod_cast _ (load256 mem number2).toNat_lt.le]
    rfl

/-- A number added to itself and subtracted from itself in place. -/
theorem carries_propagate_single :
    (load256 (add256At clear128 (halves fun _ : Unit => ⟨⟨2, 1⟩, ⟨2, 1⟩⟩) (.named ())
        (.named ()) (.named ())) (.named ())).toNat =
        ((load256 (halves fun _ : Unit => ⟨⟨2, 1⟩, ⟨2, 1⟩⟩) (.named ())).toNat +
          (load256 (halves fun _ : Unit => ⟨⟨2, 1⟩, ⟨2, 1⟩⟩) (.named ())).toNat) % 2 ^ 256 ∧
      ((load256 (minus256At clear128 (halves fun _ : Unit => ⟨⟨2, 1⟩, ⟨2, 1⟩⟩) (.named ())
        (.named ()) (.named ())) (.named ())).toNat : ℤ) =
        ((load256 (halves fun _ : Unit => ⟨⟨2, 1⟩, ⟨2, 1⟩⟩) (.named ())).toNat -
          (load256 (halves fun _ : Unit => ⟨⟨2, 1⟩, ⟨2, 1⟩⟩) (.named ())).toNat) % 2 ^ 256 :=
  carries_propagate clear128 (halves fun _ : Unit => ⟨⟨2, 1⟩, ⟨2, 1⟩⟩) (.refl _) (.refl _)

end AppVechain

import AppVechain.Uint256.Division
import AppVechain.Uint256.ShiftObjects

/-!
# Division in place

`bits256` and `divmod256` of `common/uint256.c` by the calls that they make. The
loops shift, subtract and disjoin their local numbers in place. They compute what
the loops on values compute, and the numbers of the caller change only at the end.
-/

namespace AppVechain

open Loop Memory

variable {Object : Type} [DecidableEq Object]

/-- A loop of `bits256` on its local variable. -/
def countBits128At (junk : Uint128) (mem : Object ⊕ Unit → Uint128) (result : UInt32) :
    Option UInt32 :=
  (whileLoop (fun s : (Object ⊕ Unit → Uint128) × UInt32 => !zero128 (s.1 (.inr ())))
    (fun s => (shiftr128At junk s.1 (.inr ()) 1 (.inr ()), s.2 + 1)) 129 (mem, result)).map Prod.snd

/-- `bits256` -/
def bits256At (junk : Uint128) (mem : Object → Uint128) (number : Pair Object) : Option UInt32 :=
  let mem : Object ⊕ Unit → Uint128 := Sum.elim mem fun _ => junk
  if !zero128 (mem (.inl number.upper)) then
    countBits128At junk (copy128At mem (.inr ()) (.inl number.upper)) 128
  else countBits128At junk (copy128At mem (.inr ()) (.inl number.lower)) 0

/-- The local variables of `divmod256`. -/
inductive DivmodLocal
  | copyd
  | adder
  | resDiv
  | resMod
  | one
  deriving DecidableEq

/-- A local variable of `divmod256` during the call. -/
def DivmodLocal.object (name : DivmodLocal) : Pair (Object ⊕ DivmodLocal × Bool) :=
  (Pair.named name).ofLocal

/-- The body of the `while` loop of `divmod256`. -/
def divmodBodyAt (junk : Uint128) (mem : Object ⊕ DivmodLocal × Bool → Uint128) :
    Object ⊕ DivmodLocal × Bool → Uint128 :=
  let copyd := DivmodLocal.copyd.object
  let adder := DivmodLocal.adder.object
  let resDiv := DivmodLocal.resDiv.object
  let resMod := DivmodLocal.resMod.object
  let mem :=
    if gte256 (load256 mem resMod) (load256 mem copyd) then
      let mem := minus256At junk mem resMod copyd resMod
      or256At mem resDiv adder resDiv
    else mem
  let mem := shiftr256At junk mem copyd 1 copyd
  shiftr256At junk mem adder 1 adder

/-- The statements of `divmod256` in front of its `while` loop. -/
def divmodStartAt (junk : Uint128) (mem : Object ⊕ DivmodLocal × Bool → Uint128)
    (r : Pair Object) (diffBits : UInt32) : Object ⊕ DivmodLocal × Bool → Uint128 :=
  let copyd := DivmodLocal.copyd.object
  let adder := DivmodLocal.adder.object
  let mem := shiftl256At junk mem r.ofCaller diffBits copyd
  let mem := shiftl256At junk mem DivmodLocal.one.object diffBits adder
  if gt256 (load256 mem copyd) (load256 mem DivmodLocal.resMod.object) then
    let mem := shiftr256At junk mem copyd 1 copyd
    shiftr256At junk mem adder 1 adder
  else mem

/-- `divmod256`, by its calls. -/
def divmod256Calls (junk : Uint128) (mem : Object → Uint128) (l r retDiv retMod : Pair Object) :
    Option (Object → Uint128) := do
  let mem : Object ⊕ DivmodLocal × Bool → Uint128 := Sum.elim mem fun _ => junk
  let mem := clear256At mem DivmodLocal.one.object
  let mem := setUpper mem DivmodLocal.one.object.lower 0
  let mem := setLower mem DivmodLocal.one.object.lower 1
  let bitsL ← bits256At junk mem l.ofCaller
  let bitsR ← bits256At junk mem r.ofCaller
  let mem := clear256At mem DivmodLocal.resDiv.object
  let mem := copy256At mem DivmodLocal.resMod.object l.ofCaller
  if gt256 (load256 mem r.ofCaller) (load256 mem l.ofCaller) then
    let mem := copy256At mem retMod.ofCaller l.ofCaller
    let mem := clear256At mem retDiv.ofCaller
    some (mem ∘ .inl)
  else
    let mem := divmodStartAt junk mem r (bitsL - bitsR)
    let mem ← whileLoop (fun mem => gte256 (load256 mem DivmodLocal.resMod.object)
      (load256 mem r.ofCaller)) (divmodBodyAt junk) 257 mem
    let mem := copy256At mem retDiv.ofCaller DivmodLocal.resDiv.object
    let mem := copy256At mem retMod.ofCaller DivmodLocal.resMod.object
    some (mem ∘ .inl)

/-- The memory of a loop of `bits256`, with the number that its local variable holds. -/
def bitsMemory (mem : Object → Uint128) (number : Uint128) : Object ⊕ Unit → Uint128 :=
  Sum.elim mem fun _ => number

theorem update_bitsMemory (mem : Object → Uint128) (number number' : Uint128) :
    Function.update (bitsMemory mem number) (.inr ()) number' = bitsMemory mem number' := by
  rw [bitsMemory, Sum.update_elim_inr]
  rfl

/-- The loop of `bits256` counts the bits of its local variable. -/
theorem countBits128At_eq (junk : Uint128) (mem : Object → Uint128) (number : Uint128)
    (result : UInt32) :
    countBits128At junk (bitsMemory mem number) result = countBits128 number result := by
  have hmap : (whileLoop (fun s => !zero128 s.1) bitsBody 129 (number, result)).map
      (fun s => (bitsMemory mem s.1, s.2)) =
        whileLoop (fun s : (Object ⊕ Unit → Uint128) × UInt32 => !zero128 (s.1 (.inr ())))
          (fun s => (shiftr128At junk s.1 (.inr ()) 1 (.inr ()), s.2 + 1)) 129
          (bitsMemory mem number, result) := by
    apply whileLoop_map
    · exact fun s => rfl
    · rintro ⟨n, count⟩ -
      rw [shiftr128At_eq junk _ (.inl (by decide)), update_bitsMemory]
      rfl
  rw [countBits128At, ← hmap, countBits128, Option.map_map]
  rfl

/-- `bits256` reads its number only. -/
theorem bits256At_eq (junk : Uint128) (mem : Object → Uint128) (number : Pair Object) :
    bits256At junk mem number = bits256 (load256 mem number) := by
  have hstart (half : Object) :
      copy128At (Sum.elim mem fun _ : Unit => junk) (.inr ()) (.inl half) =
        bitsMemory mem (mem half) := by
    rw [copy128At_eq]
    exact update_bitsMemory mem junk (mem half)
  rw [bits256At]
  simp only [hstart, countBits128At_eq]
  rfl

/-- The local numbers of `divmod256`, once `one` was set. -/
def DivmodState.numbers (s : DivmodState) : DivmodLocal → Uint256
  | .copyd => s.copyd
  | .adder => s.adder
  | .resDiv => s.resDiv
  | .resMod => s.resMod
  | .one => ⟨clear128, ⟨0, 1⟩⟩

/-- The memory of `divmod256` with the given local numbers. -/
def divmodMemory (mem : Object → Uint128) (s : DivmodState) :
    Object ⊕ DivmodLocal × Bool → Uint128 :=
  Sum.elim mem (halves s.numbers)

section Memory

variable {Caller : Type} (mem : Caller → Uint128) (s : DivmodState) (x : Uint256)

theorem load256_object (name : DivmodLocal) :
    load256 (divmodMemory mem s) name.object = s.numbers name := by
  rw [divmodMemory, DivmodLocal.object, load256_ofLocal, load256_halves]

theorem load256_caller (number : Pair Caller) :
    load256 (divmodMemory mem s) number.ofCaller = load256 mem number := rfl

theorem object_aligned (n m : DivmodLocal) :
    (n.object : Pair (Caller ⊕ DivmodLocal × Bool)).Aligned m.object :=
  (Pair.named_aligned n m).ofLocal

theorem caller_aligned (p : Pair Caller) (n : DivmodLocal) : p.ofCaller.Aligned n.object :=
  p.ofCaller_aligned_ofLocal (.named n)

variable [DecidableEq Caller]

theorem store256_caller (number : Pair Caller) :
    store256 (divmodMemory mem s) number.ofCaller x = divmodMemory (store256 mem number x) s :=
  store_ofCaller mem (halves s.numbers) number x.upper x.lower

/-- A store to a local number, with the numbers that it leaves. -/
theorem store256_object {name : DivmodLocal} {s' : DivmodState}
    (h : Function.update s.numbers name x = s'.numbers) :
    store256 (divmodMemory mem s) name.object x = divmodMemory mem s' := by
  rw [store256, DivmodLocal.object, divmodMemory, store_ofLocal, divmodMemory, ← h,
    ← store256_halves]
  rfl

theorem store256_copyd : store256 (divmodMemory mem s) DivmodLocal.copyd.object x =
    divmodMemory mem { s with copyd := x } := by
  apply store256_object
  funext name
  cases name <;> rfl

theorem store256_adder : store256 (divmodMemory mem s) DivmodLocal.adder.object x =
    divmodMemory mem { s with adder := x } := by
  apply store256_object
  funext name
  cases name <;> rfl

theorem store256_resDiv : store256 (divmodMemory mem s) DivmodLocal.resDiv.object x =
    divmodMemory mem { s with resDiv := x } := by
  apply store256_object
  funext name
  cases name <;> rfl

theorem store256_resMod : store256 (divmodMemory mem s) DivmodLocal.resMod.object x =
    divmodMemory mem { s with resMod := x } := by
  apply store256_object
  funext name
  cases name <;> rfl

end Memory

/-- The loop body of `divmod256` does on its local objects what it does on values. -/
theorem divmodBodyAt_eq (junk : Uint128) (mem : Object → Uint128) (s : DivmodState) :
    divmodBodyAt junk (divmodMemory mem s) = divmodMemory mem (divmodBody s) := by
  rw [divmodBodyAt]
  simp only [minus256At_eq junk _ (object_aligned _ _) (object_aligned _ _),
    or256At_eq _ (object_aligned _ _) (object_aligned _ _),
    shiftr256At_eq junk _ 1 (object_aligned _ _), load256_object, store256_resMod,
    store256_resDiv, DivmodState.numbers]
  by_cases h : gte256 s.resMod s.copyd = true
  · simp only [if_pos h, load256_object, store256_copyd, store256_adder, DivmodState.numbers,
      divmodBody]
  · simp only [if_neg h, load256_object, store256_copyd, store256_adder, DivmodState.numbers,
      divmodBody]

/-- In front of the loop, the local objects get what the local values get. -/
theorem divmodStartAt_eq (junk : Uint128) (mem : Object → Uint128) {s : DivmodState}
    (r : Pair Object) (diffBits : UInt32) (hdiv : s.resDiv = clear256) :
    divmodStartAt junk (divmodMemory mem s) r diffBits =
      divmodMemory mem (divmodStart s.resMod (load256 mem r) diffBits) := by
  rw [divmodStartAt]
  simp only [shiftl256At_eq junk _ diffBits (caller_aligned _ _),
    shiftl256At_eq junk _ diffBits (object_aligned _ _),
    shiftr256At_eq junk _ 1 (object_aligned _ _), load256_object, load256_caller, store256_copyd,
    store256_adder, DivmodState.numbers]
  rw [divmodStart, ← hdiv]
  split <;> rfl

/-- The loop of `divmod256` on its local objects is the loop on values. -/
theorem divmodLoopAt_eq (junk : Uint128) (mem : Object → Uint128) (r : Pair Object) (fuel : ℕ)
    (s : DivmodState) :
    whileLoop (fun mem => gte256 (load256 mem DivmodLocal.resMod.object)
        (load256 mem r.ofCaller)) (divmodBodyAt junk) fuel (divmodMemory mem s) =
      (whileLoop (fun s => gte256 s.resMod (load256 mem r)) divmodBody fuel s).map
        (divmodMemory mem) := by
  symm
  apply whileLoop_map
  · intro s
    rw [load256_object, load256_caller]
    rfl
  · intro s _
    exact (divmodBodyAt_eq junk mem s).symm

/-- The statements that set `one`. -/
theorem divmodMemory_one (junk : Uint128) (mem : Object → Uint128) :
    setLower (setUpper (clear256At (Sum.elim mem fun _ => junk) DivmodLocal.one.object)
      DivmodLocal.one.object.lower 0) DivmodLocal.one.object.lower 1 =
        divmodMemory mem ⟨⟨junk, junk⟩, ⟨junk, junk⟩, ⟨junk, junk⟩, ⟨junk, junk⟩⟩ := by
  rw [setLower_setUpper, clear256At_eq, store256, store, Function.update_idem, DivmodLocal.object,
    Pair.ofLocal, Sum.update_elim_inr, Sum.update_elim_inr, divmodMemory]
  congr 1
  funext half
  obtain ⟨name, isUpper⟩ := half
  cases name <;> cases isUpper <;> rfl

/-- **`divmod256` by its calls is `divmod256` on values**: the results are stored at the
end, from the operands before the call. -/
theorem divmod256Calls_eq (junk : Uint128) (mem : Object → Uint128)
    {l r retDiv retMod : Pair Object} (hl : l.Aligned retMod) (hret : retDiv.Apart retMod) :
    divmod256Calls junk mem l r retDiv retMod =
      (divmod256 (load256 mem l) (load256 mem r)).map fun result =>
        store256 (store256 mem retDiv result.1) retMod result.2 := by
  have hcopy : (l.ofCaller : Pair (Object ⊕ DivmodLocal × Bool)).Aligned retMod.ofCaller :=
    hl.ofCaller
  rw [divmod256Calls, divmod256]
  simp only [divmodMemory_one]
  simp only [bits256At_eq, clear256At_eq, store256_resDiv, load256_caller,
    copy256At_eq _ (caller_aligned _ _), copy256At_eq _ hcopy, store256_resMod]
  rw [bits256_eq, bits256_eq]
  simp only [Option.bind_eq_bind, Option.bind_some]
  split
  · rw [store256_caller, store256_caller, divmodMemory, Sum.elim_comp_inl, Option.map_some]
    congr 1
    exact (store_comm hret).symm
  · rw [divmodStartAt_eq junk mem r _ rfl, divmodLoopAt_eq]
    cases whileLoop _ divmodBody 257 _ with
    | none => rfl
    | some final =>
      have hlocal (p : Pair Object) (n : DivmodLocal) : n.object.Aligned p.ofCaller :=
        (Pair.named n).ofLocal_aligned_ofCaller p
      simp only [Option.map_some, Option.bind_some, copy256At_eq _ (hlocal _ _), load256_object,
        store256_caller, DivmodState.numbers]
      rw [divmodMemory, Sum.elim_comp_inl]

/-- On named numbers, the calls of `divmod256` do what `divmod256At` says. -/
theorem divmod256Calls_halves {Name : Type} [DecidableEq Name] (junk : Uint128)
    (numbers : Name → Uint256) (l r : Name) {retDiv retMod : Name} (hret : retDiv ≠ retMod) :
    divmod256Calls junk (halves numbers) (.named l) (.named r) (.named retDiv) (.named retMod) =
      (divmod256At numbers l r retDiv retMod).map halves := by
  rw [divmod256Calls_eq junk _ (Pair.named_aligned l retMod) (Pair.named_apart hret),
    divmod256At_eq numbers l r hret, Option.map_map, load256_halves, load256_halves]
  congr 1
  funext result
  rw [store256_halves, store256_halves]
  rfl

end AppVechain

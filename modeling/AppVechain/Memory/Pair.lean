import Mathlib.Data.Sum.Basic

/-!
# Pairs of objects in memory

A memory has a value for each object, and a compound object is a pair of different
ones. Two compound objects of a program are the same or have no half in common,
so a store to one half of the first never changes the other half of the second.
A call runs on the objects of its caller with its local objects beside them.
-/

namespace Memory

variable {Object Local Name Value : Type*}

/-- A compound object. -/
structure Pair (Object : Type*) where
  upper : Object
  lower : Object
  ne : upper ≠ lower
  deriving DecidableEq

/-- Compound objects without a common half. -/
def Pair.Apart (p q : Pair Object) : Prop :=
  (p.upper ≠ q.upper ∧ p.upper ≠ q.lower) ∧ p.lower ≠ q.upper ∧ p.lower ≠ q.lower

/-- Compound objects that do not overlap in part. -/
def Pair.Aligned (p q : Pair Object) : Prop := p = q ∨ p.Apart q

theorem Pair.Aligned.refl (p : Pair Object) : p.Aligned p := .inl rfl

/-- The lower half of a compound object is not the upper half of another. -/
theorem Pair.Aligned.lower_ne_upper {p q : Pair Object} (h : p.Aligned q) :
    p.lower ≠ q.upper := by
  rcases h with rfl | h
  · exact p.ne.symm
  · exact h.2.1

/-- The upper half of a compound object is not the lower half of another. -/
theorem Pair.Aligned.upper_ne_lower {p q : Pair Object} (h : p.Aligned q) :
    p.upper ≠ q.lower := by
  rcases h with rfl | h
  · exact p.ne
  · exact h.1.2

/-- The compound object of a name. Its halves are the upper one and the other. -/
def Pair.named (name : Name) : Pair (Name × Bool) :=
  ⟨(name, true), (name, false), fun h => Bool.noConfusion (Prod.mk.inj h).2⟩

/-- Objects of different names are apart. -/
theorem Pair.named_apart {n m : Name} (h : n ≠ m) : (named n).Apart (named m) :=
  ⟨⟨fun heq => h (Prod.mk.inj heq).1, fun heq => h (Prod.mk.inj heq).1⟩,
    fun heq => h (Prod.mk.inj heq).1, fun heq => h (Prod.mk.inj heq).1⟩

theorem Pair.named_aligned (n m : Name) : (named n).Aligned (named m) := by
  rcases eq_or_ne n m with rfl | h
  · exact .refl _
  · exact .inr (named_apart h)

/-- A compound object of the caller during a call. -/
def Pair.ofCaller (p : Pair Object) : Pair (Object ⊕ Local) :=
  ⟨.inl p.upper, .inl p.lower, fun h => p.ne (Sum.inl.inj h)⟩

/-- A compound local object. -/
def Pair.ofLocal (p : Pair Local) : Pair (Object ⊕ Local) :=
  ⟨.inr p.upper, .inr p.lower, fun h => p.ne (Sum.inr.inj h)⟩

/-- Local objects are none of the caller's. -/
theorem Pair.ofLocal_aligned_ofCaller (p : Pair Local) (q : Pair Object) :
    p.ofLocal.Aligned q.ofCaller :=
  .inr ⟨⟨Sum.inr_ne_inl, Sum.inr_ne_inl⟩, Sum.inr_ne_inl, Sum.inr_ne_inl⟩

theorem Pair.ofCaller_aligned_ofLocal (p : Pair Object) (q : Pair Local) :
    p.ofCaller.Aligned q.ofLocal :=
  .inr ⟨⟨Sum.inl_ne_inr, Sum.inl_ne_inr⟩, Sum.inl_ne_inr, Sum.inl_ne_inr⟩

/-- Objects do not overlap in part in the memory of a call either. -/
theorem Pair.Aligned.ofCaller {p q : Pair Object} (h : p.Aligned q) :
    (p.ofCaller : Pair (Object ⊕ Local)).Aligned q.ofCaller := by
  rcases h with rfl | ⟨⟨hu, hul⟩, hlu, hl⟩
  · exact .refl _
  · exact .inr ⟨⟨fun h => hu (Sum.inl.inj h), fun h => hul (Sum.inl.inj h)⟩,
      fun h => hlu (Sum.inl.inj h), fun h => hl (Sum.inl.inj h)⟩

theorem Pair.Aligned.ofLocal {p q : Pair Local} (h : p.Aligned q) :
    (p.ofLocal : Pair (Object ⊕ Local)).Aligned q.ofLocal := by
  rcases h with rfl | ⟨⟨hu, hul⟩, hlu, hl⟩
  · exact .refl _
  · exact .inr ⟨⟨fun h => hu (Sum.inr.inj h), fun h => hul (Sum.inr.inj h)⟩,
      fun h => hlu (Sum.inr.inj h), fun h => hl (Sum.inr.inj h)⟩

section Store

variable [DecidableEq Object] {mem : Object → Value} {p q : Pair Object} {x y : Value}

/-- Store values in both halves. -/
def store (mem : Object → Value) (p : Pair Object) (x y : Value) : Object → Value :=
  Function.update (Function.update mem p.upper x) p.lower y

@[simp] theorem store_upper : store mem p x y p.upper = x := by
  rw [store, Function.update_of_ne p.ne, Function.update_self]

@[simp] theorem store_lower : store mem p x y p.lower = y := Function.update_self _ _ _

/-- The halves may be stored in either order. -/
theorem store_lower_first : Function.update (Function.update mem p.lower y) p.upper x =
    store mem p x y :=
  Function.update_comm p.ne.symm y x mem

/-- Stores to objects that are apart may be made in either order. -/
theorem store_comm {x' y' : Value} (h : p.Apart q) :
    store (store mem p x y) q x' y' = store (store mem q x' y') p x y := by
  obtain ⟨⟨hu, hul⟩, hlu, hl⟩ := h
  simp only [store]
  rw [Function.update_comm hlu, Function.update_comm hu, Function.update_comm hl,
    Function.update_comm hul]

/-- A store to the upper half leaves the lower half of a compound object that does not
overlap in part. -/
theorem update_upper_lower (h : q.Aligned p) :
    Function.update mem p.upper x q.lower = mem q.lower :=
  Function.update_of_ne h.lower_ne_upper _ _

end Store

/-- A call: `body` on the objects of the caller and local objects, which hold `junk`
until they are assigned. -/
def call (junk : Value) (body : (Object ⊕ Local → Value) → Object ⊕ Local → Value)
    (mem : Object → Value) : Object → Value :=
  body (Sum.elim mem fun _ => junk) ∘ .inl

section Call

variable [DecidableEq Object] [DecidableEq Local]

/-- A store during a call to a compound object of the caller. -/
theorem store_ofCaller (mem : Object → Value) (locals : Local → Value) (p : Pair Object)
    (x y : Value) :
    store (Sum.elim mem locals) p.ofCaller x y = Sum.elim (store mem p x y) locals := by
  rw [store, Pair.ofCaller, Sum.update_elim_inl, Sum.update_elim_inl]
  rfl

/-- A store during a call to a compound local object. -/
theorem store_ofLocal (mem : Object → Value) (locals : Local → Value) (p : Pair Local)
    (x y : Value) :
    store (Sum.elim mem locals) p.ofLocal x y = Sum.elim mem (store locals p x y) := by
  rw [store, Pair.ofLocal, Sum.update_elim_inr, Sum.update_elim_inr]
  rfl

end Call

end Memory

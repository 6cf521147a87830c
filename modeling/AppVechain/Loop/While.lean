import Mathlib.Order.Basic

/-!
# While loops

A loop of an imperative program, run for a bounded number of tests of its
condition. A loop with an invariant and a decreasing measure ends, and a loop
whose condition and body agree with those of another through a map of the
states computes the same.
-/

namespace Loop

variable {S T : Type*}

/-- `while (cond) body`: the state when `cond` first fails, or `none` if it did
not fail in the first `fuel` tests. -/
def whileLoop (cond : S → Bool) (body : S → S) : ℕ → S → Option S
  | 0, _ => none
  | fuel + 1, s => if cond s then whileLoop cond body fuel (body s) else some s

/-- **Total correctness.** A loop whose body keeps an invariant and decreases a
measure ends in a state with the invariant in which the condition fails. -/
theorem whileLoop_total {cond : S → Bool} {body : S → S} (inv : S → Prop) (measure : S → ℕ)
    (hbody : ∀ s, inv s → cond s = true → inv (body s) ∧ measure (body s) < measure s)
    (fuel : ℕ) {s : S} (hs : inv s) (hfuel : measure s < fuel) :
    ∃ t, whileLoop cond body fuel s = some t ∧ inv t ∧ cond t = false := by
  induction fuel generalizing s with
  | zero => omega
  | succ fuel ih =>
    by_cases hcond : cond s = true
    · obtain ⟨hinv, hless⟩ := hbody s hs hcond
      obtain ⟨t, ht, htinv, htcond⟩ := ih hinv (by omega)
      exact ⟨t, by rw [whileLoop, if_pos hcond, ht], htinv, htcond⟩
    · exact ⟨s, by rw [whileLoop, if_neg hcond], hs, Bool.eq_false_iff.mpr hcond⟩

/-- **Refinement.** A loop over states `S` computes what the loop over their
images under `f` computes. -/
theorem whileLoop_map {cond : S → Bool} {body : S → S} {cond' : T → Bool} {body' : T → T}
    (f : S → T) (hcond : ∀ s, cond s = cond' (f s))
    (hbody : ∀ s, cond s = true → f (body s) = body' (f s)) (fuel : ℕ) (s : S) :
    (whileLoop cond body fuel s).map f = whileLoop cond' body' fuel (f s) := by
  induction fuel generalizing s with
  | zero => rfl
  | succ fuel ih =>
    rw [whileLoop, whileLoop, ← hcond s]
    split
    case isTrue h => rw [ih, hbody s h]
    case isFalse h => rfl

end Loop

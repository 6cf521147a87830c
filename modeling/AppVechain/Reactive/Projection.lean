import AppVechain.Reactive.Run

/-!
# A system inside another one

A system may keep the state of another one in its own, and take some of its steps
as steps of that one; the others leave that part of the state. Then every run of
the outer system is, as far as it concerns the inner one, a run of the inner
system, and what was proved for the inner one holds there.
-/

namespace Reactive

variable {E R σ E' R' σ' : Type*}

/-- The part of a system that is another one: the inner state, and the inner step that a
step takes. -/
structure Projection (m : System E R σ) (m' : System E' R' σ') where
  state : σ → σ'
  inner : Step E R σ → Option (Step E' R' σ')
  boot : state m.boot = m'.boot
  taken : ∀ {s t : σ} {e : E} {r : R} {step : Step E' R' σ'}, m.step e s = some (r, t) →
    inner ⟨s, e, r, t⟩ = some step → step.before = state s ∧ step.after = state t ∧
      m'.step step.event step.before = some (step.answer, step.after)
  left : ∀ {s t : σ} {e : E} {r : R}, m.step e s = some (r, t) →
    inner ⟨s, e, r, t⟩ = none → state t = state s

variable {m : System E R σ} {m' : System E' R' σ'}

/-- **The inner steps of a run are a run.** -/
theorem Projection.run (p : Projection m m') {steps : List (Step E R σ)} {s : σ}
    (h : Run m steps s) : Run m' (steps.filterMap p.inner) (p.state s) := by
  induction h with
  | boot =>
    rw [List.filterMap_nil, p.boot]
    exact .boot
  | @step steps s t e r _ hstep ih =>
    cases hinner : p.inner ⟨s, e, r, t⟩ with
    | none =>
      rw [List.filterMap_cons_none hinner, p.left hstep hinner]
      exact ih
    | some step =>
      obtain ⟨hbefore, hafter, htaken⟩ := p.taken hstep hinner
      obtain ⟨before, event, answer, after⟩ := step
      cases hbefore
      cases hafter
      rw [List.filterMap_cons_some hinner]
      exact .step ih htaken

end Reactive

import Mathlib.Data.List.Basic

/-!
# Runs of a reactive system

A system answers one event after the other, and has no answer where its
behaviour is not defined. A run is the list of its steps, the newest first.
What holds of the steps since some kind of step is proved by an induction that
starts anew at every step of that kind.
-/

namespace Reactive

variable {α E R σ : Type*}

/-- A state to start from, and an answer and a state for an event. -/
structure System (E R σ : Type*) where
  boot : σ
  step : E → σ → Option (R × σ)

/-- An event with its answer and the states around it. -/
structure Step (E R σ : Type*) where
  before : σ
  event : E
  answer : R
  after : σ

/-- The steps taken from the start, newest first, and the state they lead to. -/
inductive Run (m : System E R σ) : List (Step E R σ) → σ → Prop where
  | boot : Run m [] m.boot
  | step {steps : List (Step E R σ)} {s t : σ} {e : E} {r : R} :
      Run m steps s → m.step e s = some (r, t) → Run m (⟨s, e, r, t⟩ :: steps) t

/-- The elements down to the first one with `p`, that one included. -/
def since (p : α → Bool) : List α → List α
  | [] => []
  | x :: xs => if p x then [x] else x :: since p xs

/-- An element with `p` ends the list. -/
theorem since_cons_of_pos {p : α → Bool} {x : α} (h : p x = true) (xs : List α) :
    since p (x :: xs) = [x] := if_pos h

/-- Any other element is passed by. -/
theorem since_cons_of_neg {p : α → Bool} {x : α} (h : p x = false) (xs : List α) :
    since p (x :: xs) = x :: since p xs := if_neg (by simp [h])

/-- So are any number of them. -/
theorem since_append_of_neg {p : α → Bool} {front : List α} (h : ∀ x ∈ front, p x = false)
    (xs : List α) : since p (front ++ xs) = front ++ since p xs := by
  induction front with
  | nil => rfl
  | cons x front ih =>
    rw [List.cons_append, since_cons_of_neg (h x List.mem_cons_self),
      ih fun y hy => h y (List.mem_cons_of_mem _ hy), List.cons_append]

/-- The newest step leads to the state of the run. -/
theorem Run.after_head {m : System E R σ} {step : Step E R σ} {steps : List (Step E R σ)} {s : σ}
    (h : Run m (step :: steps) s) :
    Run m steps step.before ∧ m.step step.event step.before = some (step.answer, step.after) ∧
      step.after = s := by
  cases h with
  | step hrun hstep => exact ⟨hrun, hstep, rfl⟩

/-- The elements down to some element are elements of the list. -/
theorem since_subset (p : α → Bool) (xs : List α) : since p xs ⊆ xs := by
  induction xs with
  | nil => exact List.Subset.refl _
  | cons x xs ih =>
    cases hp : p x with
    | true =>
      rw [since_cons_of_pos hp]
      exact List.cons_subset_cons x (List.nil_subset xs)
    | false =>
      rw [since_cons_of_neg hp]
      exact List.cons_subset_cons x ih

/-- Every step of a run was taken. -/
theorem Run.step_of_mem {m : System E R σ} {steps : List (Step E R σ)} {s : σ}
    (h : Run m steps s) {step : Step E R σ} (hmem : step ∈ steps) :
    m.step step.event step.before = some (step.answer, step.after) := by
  induction h with
  | boot => cases hmem
  | step _ hs ih =>
    rcases List.mem_cons.mp hmem with rfl | hmem
    · exact hs
    · exact ih hmem

/-- The steps before some step of a run are a run to where it was taken. -/
theorem Run.before_of_mem {m : System E R σ} {steps : List (Step E R σ)} {s : σ}
    (h : Run m steps s) {step : Step E R σ} (hmem : step ∈ steps) :
    ∃ earlier, step :: earlier <:+ steps ∧ Run m earlier step.before := by
  induction h with
  | boot => cases hmem
  | @step steps _ _ _ _ hrun _ ih =>
    rcases List.mem_cons.mp hmem with rfl | hmem
    · exact ⟨steps, List.suffix_refl _, hrun⟩
    · obtain ⟨earlier, hsuffix, hearlier⟩ := ih hmem
      exact ⟨earlier, hsuffix.trans (List.suffix_cons _ _), hearlier⟩

/-- The older steps of a run are a run. -/
theorem Run.of_append {m : System E R σ} {front steps : List (Step E R σ)} {s : σ}
    (h : Run m (front ++ steps) s) : ∃ t, Run m steps t := by
  induction front generalizing s with
  | nil => exact ⟨s, h⟩
  | cons step front ih => exact ih h.after_head.1

/-- **An invariant holds after every run.** -/
theorem Run.invariant {m : System E R σ} {P : σ → Prop} (hboot : P m.boot)
    (hstep : ∀ s e r t, P s → m.step e s = some (r, t) → P t) {steps : List (Step E R σ)} {s : σ}
    (h : Run m steps s) : P s := by
  induction h with
  | boot => exact hboot
  | step _ hs ih => exact hstep _ _ _ _ ih hs

/-- **Induction over the steps since `p`**: the claim is proved for no steps, for a
step with `p` alone, and is kept by every other step. -/
theorem Run.since_induction {m : System E R σ} {p : Step E R σ → Bool}
    {P : List (Step E R σ) → σ → Prop} (hboot : P [] m.boot)
    (hreset : ∀ steps s e r t, Run m steps s → m.step e s = some (r, t) →
      p ⟨s, e, r, t⟩ = true → P [⟨s, e, r, t⟩] t)
    (hkeep : ∀ steps s e r t, Run m steps s → m.step e s = some (r, t) →
      p ⟨s, e, r, t⟩ = false → P (since p steps) s → P (⟨s, e, r, t⟩ :: since p steps) t)
    {steps : List (Step E R σ)} {s : σ} (h : Run m steps s) : P (since p steps) s := by
  induction h with
  | boot => exact hboot
  | @step steps s t e r hrun hs ih =>
    cases hp : p ⟨s, e, r, t⟩ with
    | true =>
      rw [since_cons_of_pos hp]
      exact hreset steps s e r t hrun hs hp
    | false =>
      rw [since_cons_of_neg hp]
      exact hkeep steps s e r t hrun hs hp ih

/-- **Induction from the newest step with `p`**, when there is one. -/
theorem Run.find_induction {m : System E R σ} {p : Step E R σ → Bool}
    {P : Step E R σ → List (Step E R σ) → σ → Prop}
    (hreset : ∀ steps s e r t, Run m steps s → m.step e s = some (r, t) →
      p ⟨s, e, r, t⟩ = true → P ⟨s, e, r, t⟩ [⟨s, e, r, t⟩] t)
    (hkeep : ∀ first steps s e r t, Run m steps s → m.step e s = some (r, t) →
      p ⟨s, e, r, t⟩ = false → P first (since p steps) s →
      P first (⟨s, e, r, t⟩ :: since p steps) t)
    {steps : List (Step E R σ)} {s : σ} (h : Run m steps s) {first : Step E R σ}
    (hfirst : steps.find? p = some first) : P first (since p steps) s := by
  induction h with
  | boot => cases hfirst
  | @step steps s t e r hrun hs ih =>
    cases hp : p ⟨s, e, r, t⟩ with
    | true =>
      rw [List.find?_cons_of_pos hp, Option.some.injEq] at hfirst
      subst hfirst
      rw [since_cons_of_pos hp]
      exact hreset steps s e r t hrun hs hp
    | false =>
      rw [List.find?_cons_of_neg (by simp [hp])] at hfirst
      rw [since_cons_of_neg hp]
      exact hkeep first steps s e r t hrun hs hp (ih hfirst)

/-- **What is spent was gained before**: a step that spends needs a state that holds something, or
gains it itself, and leaves nothing; and no state holds anything that was not gained. After a
state that holds nothing, no more is spent than gained. -/
theorem Run.countP_le {m : System E R σ} {spends gains : Step E R σ → Bool} {holds : σ → Prop}
    (hspend : ∀ steps s e r t, Run m steps s → m.step e s = some (r, t) →
      spends ⟨s, e, r, t⟩ = true → (gains ⟨s, e, r, t⟩ = true ∨ holds s) ∧ ¬holds t)
    (hkeep : ∀ steps s e r t, Run m steps s → m.step e s = some (r, t) → holds t →
      gains ⟨s, e, r, t⟩ = true ∨ holds s) {new old : List (Step E R σ)} {s : σ}
    (hold : ∀ s, Run m old s → ¬holds s) (h : Run m (new ++ old) s) :
    new.countP spends ≤ new.countP gains := by
  -- one may be left to spend
  suffices new.countP spends + 1 ≤ new.countP gains ∨
      ¬holds s ∧ new.countP spends ≤ new.countP gains by
    omega
  induction new generalizing s with
  | nil => exact .inr ⟨hold s h, Nat.le_refl _⟩
  | cons step new ih =>
    obtain ⟨hrun, hstep, rfl⟩ := h.after_head
    have hbefore := ih hrun
    have hkept := hkeep _ _ _ _ _ hrun hstep
    rw [List.countP_cons, List.countP_cons]
    by_cases hspends : spends step = true
    · obtain ⟨hgains, hnone⟩ := hspend _ _ _ _ _ hrun hstep hspends
      refine .inr ⟨hnone, ?_⟩
      rw [if_pos hspends]
      rcases hgains with hgains | hholds
      · have hgains : gains step = true := hgains
        rw [if_pos hgains]
        omega
      · have hless := hbefore.resolve_right fun hnone => hnone.1 hholds
        omega
    · rw [if_neg hspends]
      by_cases hgains : gains step = true
      · rw [if_pos hgains]
        omega
      · rw [if_neg hgains]
        rcases hbefore with hless | ⟨hnone, hle⟩
        · exact .inl hless
        · exact .inr ⟨fun hholds => (hkept hholds).elim hgains hnone, hle⟩

/-- Take the steps for some events, in their order. -/
def System.replay (m : System E R σ) :
    List E → List (Step E R σ) × σ → Option (List (Step E R σ) × σ)
  | [], run => some run
  | e :: es, (steps, s) =>
    (m.step e s).bind fun next => m.replay es (⟨s, e, next.1, next.2⟩ :: steps, next.2)

/-- The first step is taken before the others. -/
theorem System.replay_cons {m : System E R σ} {e : E} {s t : σ} {r : R}
    (h : m.step e s = some (r, t)) (es : List E) (steps : List (Step E R σ)) :
    m.replay (e :: es) (steps, s) = m.replay es (⟨s, e, r, t⟩ :: steps, t) := by
  rw [replay, h, Option.bind_some]

/-- Replayed steps are a run. -/
theorem Run.replay {m : System E R σ} {es : List E} {run run' : List (Step E R σ) × σ}
    (h : Run m run.1 run.2) (hreplay : m.replay es run = some run') : Run m run'.1 run'.2 := by
  induction es generalizing run with
  | nil =>
    cases hreplay
    exact h
  | cons e es ih =>
    obtain ⟨next, hnext, hrest⟩ := Option.bind_eq_some_iff.mp hreplay
    exact ih (.step h hnext) hrest

/-- The events of replayed steps. -/
theorem System.replay_events {m : System E R σ} {es : List E} {run run' : List (Step E R σ) × σ}
    (h : m.replay es run = some run') :
    run'.1.map Step.event = es.reverse ++ run.1.map Step.event := by
  induction es generalizing run with
  | nil =>
    cases h
    rfl
  | cons e es ih =>
    obtain ⟨next, -, hrest⟩ := Option.bind_eq_some_iff.mp h
    rw [ih hrest, List.reverse_cons, List.append_assoc]
    rfl

/-- The last of the replayed steps leads to the state at their end. -/
theorem System.replay_head {m : System E R σ} {es : List E} {run run' : List (Step E R σ) × σ}
    (h : m.replay es run = some run') (hrun : ∀ step ∈ run.1.head?, step.after = run.2) :
    ∀ step ∈ run'.1.head?, step.after = run'.2 := by
  induction es generalizing run with
  | nil =>
    cases h
    exact hrun
  | cons e es ih =>
    obtain ⟨next, -, hrest⟩ := Option.bind_eq_some_iff.mp h
    refine ih hrest ?_
    rintro step ⟨⟩
    rfl

/-- A run with given events, of which something is observed at every step. -/
theorem exists_run {m : System E R σ} {β : Type*} {observe : Step E R σ → β} {es : List E}
    {seen : List β} (h : (m.replay es ([], m.boot)).map (fun run => run.1.map observe) =
      some seen) :
    ∃ steps s, Run m steps s ∧ steps.map Step.event = es.reverse ∧ steps.map observe = seen := by
  obtain ⟨⟨steps, s⟩, hreplay, hseen⟩ := Option.map_eq_some_iff.mp h
  refine ⟨steps, s, Run.replay .boot hreplay, ?_, hseen⟩
  rw [System.replay_events hreplay, List.map_nil, List.append_nil]

/-- A run with given events, of which something is seen at its end. -/
theorem exists_replay {m : System E R σ} {β : Type*} {f : List (Step E R σ) × σ → β} {es : List E}
    {seen : β} (h : (m.replay es ([], m.boot)).map f = some seen) :
    ∃ run, Run m run.1 run.2 ∧ f run = seen := by
  obtain ⟨run, hreplay, hseen⟩ := Option.map_eq_some_iff.mp h
  exact ⟨run, Run.replay .boot hreplay, hseen⟩

/-- Give some events in order, as long as the answers say so: the answers, and the state
after the last one. -/
def System.converse (m : System E R σ) (continues : R → Bool) : List E → σ → Option (List R × σ)
  | [], s => some ([], s)
  | e :: es, s =>
    (m.step e s).bind fun next =>
      if continues next.1 then
        (m.converse continues es next.2).map fun rest => (next.1 :: rest.1, rest.2)
      else some ([next.1], next.2)

/-- A conversation that goes on after its first event. -/
theorem System.converse_cons {m : System E R σ} {continues : R → Bool} {e : E} {s t : σ} {r : R}
    (h : m.step e s = some (r, t)) (hr : continues r = true) (es : List E) :
    m.converse continues (e :: es) s =
      (m.converse continues es t).map fun rest => (r :: rest.1, rest.2) := by
  rw [converse, h, Option.bind_some]
  exact if_pos hr

/-- A conversation of one event. -/
theorem System.converse_singleton (m : System E R σ) (continues : R → Bool) (e : E) (s : σ) :
    (m.converse continues [e] s).map Prod.fst = (m.step e s).map fun next => [next.1] := by
  unfold System.converse
  cases m.step e s with
  | none => rfl
  | some next =>
    rw [Option.bind_some, Option.map_some]
    split <;> rfl

/-- The same answer, and states related by `I` if the conversation goes on and by `Q` if not. -/
def SameStep (continues : R → Bool) (I : σ → σ → Prop) (Q : R → σ → σ → Prop)
    (next next' : R × σ) : Prop :=
  next.1 = next'.1 ∧ (continues next.1 = true → I next.2 next'.2) ∧
    (continues next.1 = false → Q next.1 next.2 next'.2)

/-- The same answers, and states related by `Q` if the last one ends the conversation. -/
def SameEnd (continues : R → Bool) (Q : R → σ → σ → Prop) (last last' : List R × σ) : Prop :=
  last.1 = last'.1 ∧ ∀ r ∈ last.1.getLast?, continues r = false → Q r last.2 last'.2

variable {m : System E R σ} {continues : R → Bool} {Q : R → σ → σ → Prop}

/-- Two conversations that begin alike and go on alike. -/
theorem System.converse_cons_related {I : σ → σ → Prop} {e e' : E} {es es' : List E} {s s' : σ}
    (hnext : Option.Rel (SameStep continues I Q) (m.step e s) (m.step e' s'))
    (hrest : ∀ t t', I t t' →
      Option.Rel (SameEnd continues Q) (m.converse continues es t) (m.converse continues es' t')) :
    Option.Rel (SameEnd continues Q) (m.converse continues (e :: es) s)
      (m.converse continues (e' :: es') s') := by
  unfold System.converse
  generalize m.step e s = next at hnext
  generalize m.step e' s' = next' at hnext
  cases hnext with
  | none => exact .none
  | @some next next' hsame =>
    obtain ⟨hanswer, hcontinue, hend⟩ := hsame
    rw [Option.bind_some, Option.bind_some, ← hanswer]
    cases hc : continues next.1 with
    | false =>
      refine .some ⟨rfl, fun r hr _ => ?_⟩
      cases hr
      exact hend hc
    | true =>
      have hrest := hrest _ _ (hcontinue hc)
      simp only [if_true]
      generalize m.converse continues es next.2 = rest at hrest
      generalize m.converse continues es' next'.2 = rest' at hrest
      cases hrest with
      | none => exact .none
      | @some rest rest' hsame =>
        obtain ⟨hanswers, hlast⟩ := hsame
        refine .some ⟨congrArg (next.1 :: ·) hanswers, fun r hr hr' => hlast r ?_ hr'⟩
        have hr : r ∈ (next.1 :: rest.1).getLast? := hr
        cases hlist : rest.1 with
        | nil =>
          rw [hlist] at hr
          cases hr
          exact absurd (hc.symm.trans hr') Bool.true_eq_false.mp
        | cons first others =>
          rw [hlist, List.getLast?_cons_cons] at hr
          exact hr

/-- **Two conversations are alike** when their steps are: they get the same answers, and are in
related states at an answer that ends them. The invariant is about the events that are left. -/
theorem System.converse_related {S : E → E → Prop} {I : List E → σ → σ → Prop}
    (hstep : ∀ e e' es s s', S e e' → I (e :: es) s s' →
      Option.Rel (SameStep continues (I es) Q) (m.step e s) (m.step e' s'))
    {es es' : List E} (hes : List.Forall₂ S es es') {s s' : σ} (h : I es s s') :
    Option.Rel (SameEnd continues Q) (m.converse continues es s) (m.converse continues es' s') := by
  induction hes generalizing s s' with
  | nil => exact .some ⟨rfl, nofun⟩
  | cons he hes ih => exact System.converse_cons_related (hstep _ _ _ _ _ he h) fun _ _ => ih

end Reactive

import AppVechain.Reactive.Run

/-!
# Refinement of a specification

A specification says how events are answered in its states. It may leave an answer
open, and then begins anew; what it says may depend on something that the system
is free to choose. A system refines it along a relation between the states when it
answers as it is said, wherever something is said; then every run of the system
is one that the specification allows, and what the specification answers for sure the
system answers.
-/

namespace Reactive

variable {E I O R σ τ : Type*}

/-- What is said of an event: nothing, that it has no answer, or what is observed of its answer
and where it leads. -/
inductive Response (O τ : Type*) where
  | unspecified
  | silent
  | answer (o : O) (t : τ)

/-- A specification: where it begins, and what it says of an event. -/
structure Specification (I E O τ : Type*) where
  start : τ
  respond : I → τ → E → Response O τ

/-- The histories that a specification allows, newest first, and the state they lead to. -/
inductive Specification.Trace (spec : Specification I E O τ) : List (E × O) → τ → Prop where
  | start : Trace spec [] spec.start
  | answered {trace : List (E × O)} {s t : τ} {e : E} {o : O} (i : I) : Trace spec trace s →
      spec.respond i s e = .answer o t → Trace spec ((e, o) :: trace) t
  | unspecified {trace : List (E × O)} {s : τ} {e : E} (o : O) (i : I) : Trace spec trace s →
      spec.respond i s e = .unspecified → Trace spec ((e, o) :: trace) spec.start

/-- A system does what is said of an event. -/
def System.Meets (m : System E R σ) (observe : Step E R σ → O) (related : σ → τ → Prop) (s : σ)
    (e : E) : Response O τ → Prop
  | .unspecified => True
  | .silent => m.step e s = none
  | .answer o t => ∃ r s', m.step e s = some (r, s') ∧ observe ⟨s, e, r, s'⟩ = o ∧ related s' t

/-- A refinement: the choices of the system, what is observed of its steps, and the states that
are related. Where nothing is said, nothing is known of the system. -/
structure Refinement (m : System E R σ) (spec : Specification I E O τ) where
  choice : σ → E → I
  observe : Step E R σ → O
  related : σ → τ → Prop
  start : related m.boot spec.start
  anew : ∀ {i : I} {t : τ} {e : E}, spec.respond i t e = .unspecified → ∀ s, related s spec.start
  step : ∀ {s : σ} {t : τ} (e : E), related s t →
    m.Meets observe related s e (spec.respond (choice s e) t e)

variable {m : System E R σ} {spec : Specification I E O τ}

/-- The history of a run. -/
def Refinement.history (p : Refinement m spec) (steps : List (Step E R σ)) : List (E × O) :=
  steps.map fun step => (step.event, p.observe step)

/-- A step is one that the specification allows. -/
theorem Refinement.allowed (p : Refinement m spec) {steps : List (Step E R σ)} {s s' : σ} {t : τ}
    {e : E} {r : R} (hrelated : p.related s t) (htrace : spec.Trace (p.history steps) t)
    (h : m.step e s = some (r, s')) :
    ∃ t', spec.Trace (p.history (⟨s, e, r, s'⟩ :: steps)) t' ∧ p.related s' t' := by
  have hmeets := p.step e hrelated
  cases hrespond : spec.respond (p.choice s e) t e with
  | unspecified => exact ⟨spec.start, .unspecified _ _ htrace hrespond, p.anew hrespond s'⟩
  | silent =>
    rw [hrespond] at hmeets
    rw [show m.step e s = none from hmeets] at h
    cases h
  | answer o t' =>
    rw [hrespond] at hmeets
    obtain ⟨r', s'', hstep, hobserve, hrelated'⟩ := hmeets
    rw [h, Option.some.injEq, Prod.mk.injEq] at hstep
    obtain ⟨rfl, rfl⟩ := hstep
    refine ⟨t', ?_, hrelated'⟩
    rw [← hobserve] at hrespond
    exact .answered _ htrace hrespond

/-- **Every run of the system is one that the specification allows**, and it meets what is said
of the next event. -/
theorem Refinement.trace (p : Refinement m spec) {steps : List (Step E R σ)} {s : σ}
    (h : Run m steps s) : ∃ t, spec.Trace (p.history steps) t ∧ p.related s t := by
  induction h with
  | boot => exact ⟨spec.start, .start, p.start⟩
  | step _ hstep ih =>
    obtain ⟨t, htrace, hrelated⟩ := ih
    exact p.allowed hrelated htrace hstep

/-- The specification answers these events so, whatever choice the system makes that `P` admits
there. -/
def Specification.Answers (spec : Specification I E O τ) (P : τ → E → I → Prop) (s : τ) :
    List (E × O) → Prop
  | [] => True
  | (e, o) :: rest => ∀ i, P s e i → ∃ t, spec.respond i s e = .answer o t ∧ spec.Answers P t rest

/-- **What the specification answers, the system answers.** -/
theorem Refinement.replay (p : Refinement m spec) {P : τ → E → I → Prop}
    (hchoice : ∀ s t e, p.related s t → P t e (p.choice s e))
    {conversation : List (E × O)} {s : σ} {t : τ} (hrelated : p.related s t)
    (h : spec.Answers P t conversation) (steps : List (Step E R σ)) :
    ∃ new s', m.replay (conversation.map Prod.fst) (steps, s) = some (new ++ steps, s') ∧
      p.history new = conversation.reverse := by
  induction conversation generalizing s t steps with
  | nil => exact ⟨[], s, rfl, rfl⟩
  | cons event rest ih =>
    obtain ⟨e, o⟩ := event
    obtain ⟨t', hrespond, hrest⟩ := h (p.choice s e) (hchoice s t e hrelated)
    have hmeets := p.step e hrelated
    rw [hrespond] at hmeets
    obtain ⟨r, s₁, hstep, hobserve, hrelated'⟩ := hmeets
    obtain ⟨new, s', hreplay, hhistory⟩ := ih hrelated' hrest (⟨s, e, r, s₁⟩ :: steps)
    refine ⟨new ++ [⟨s, e, r, s₁⟩], s', ?_, ?_⟩
    · rw [List.map_cons, System.replay_cons hstep, hreplay, List.append_assoc]
      rfl
    · rw [List.reverse_cons, ← hhistory, ← hobserve]
      exact List.map_append

/-- **Something that is brought in chunks**: every chunk but the last one is answered alike, and the
last one as if all had come at once. -/
theorem Specification.answers_chunks {α : Type*} {P : τ → E → I → Prop} {hand : List α → τ}
    {whole : List α} {go last : O} {brings : E → List α → Prop} {final : E → Prop}
    (hmore : ∀ i delivered chunk rest e, P (hand delivered) e i → brings e chunk → rest ≠ [] →
      delivered ++ chunk ++ rest = whole →
      spec.respond i (hand delivered) e = .answer go (hand (delivered ++ chunk)))
    (hlast : ∀ i delivered chunk e, P (hand delivered) e i → brings e chunk → chunk ≠ [] →
      final e → delivered ++ chunk = whole →
      ∃ t, spec.respond i (hand delivered) e = .answer last t)
    {e : E} {es : List E} {chunk : List α} {chunks : List (List α)}
    (hes : List.Forall₂ brings (e :: es) (chunk :: chunks))
    (hne : (chunk :: chunks).getLast? ≠ some []) (hfinal : ∀ e' ∈ (e :: es).getLast?, final e')
    {delivered : List α} (hwhole : delivered ++ (chunk :: chunks).flatten = whole) :
    spec.Answers P (hand delivered) ((e :: es).zip (List.replicate es.length go ++ [last])) := by
  induction es generalizing e chunk chunks delivered with
  | nil =>
    obtain ⟨he, hnil⟩ := List.forall₂_cons.mp hes
    cases hnil
    rw [List.flatten_singleton] at hwhole
    intro i hi
    have hsome : chunk ≠ [] := fun hchunk => hne (by rw [hchunk]; rfl)
    obtain ⟨t, hrespond⟩ := hlast i delivered chunk e hi he hsome (hfinal e rfl) hwhole
    exact ⟨t, hrespond, trivial⟩
  | cons e' es ih =>
    obtain ⟨he, hrest⟩ := List.forall₂_cons.mp hes
    cases hrest with
    | @cons _ chunk' _ chunks he' hes' =>
      intro i hi
      rw [List.flatten_cons, ← List.append_assoc] at hwhole
      have hsome : (chunk' :: chunks).flatten ≠ [] := by
        intro hnil
        have hlast := List.flatten_eq_nil_iff.mp hnil _ (List.getLast_mem (by simp))
        exact hne ((List.getLast?_eq_some_getLast (by simp)).trans (congrArg some hlast))
      exact ⟨_, hmore i delivered chunk _ e hi he hsome hwhole,
        ih (.cons he' hes') hne hfinal hwhole⟩

end Reactive

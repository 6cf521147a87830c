import AppVechain.Rlp.Fields

/-!
# Rules that differ in their data

Two readers whose rules treat headers alike, and refuse the same payload bytes,
stop at the same bytes, whatever they keep of them. Rules that keep an invariant
of their data keep it on every input.
-/

namespace Rlp

open Streaming

variable {F A B : Type}

/-- Rules that keep a relation between their data, and admit the same items. -/
structure Rules.Related (r : Rules F A) (q : Rules F B) (R : A → B → Prop) : Prop where
  isDone : ∀ f, r.isDone f = q.isDone f
  admits : ∀ f isList length, r.admits f isList length = q.admits f isList length
  skips : ∀ f length, r.skips f length = q.skips f length
  next : ∀ f, r.next f = q.next f
  header : ∀ x a b, R a b → R (r.header x a) (q.header x b)
  enter : ∀ a b, R a b → R (r.enter a) (q.enter b)
  start : ∀ f length a b, R a b → R (r.start f length a) (q.start f length b)
  store : ∀ f single pos x a b, R a b →
    Option.Rel R (r.store f single pos x a) (q.store f single pos x b)
  finish : ∀ f length a b, R a b → R (r.finish f length a) (q.finish f length b)

/-- Readers at the same place, with related data. -/
structure FieldState.Related (R : A → B → Prop) (s : FieldState F A) (t : FieldState F B) :
    Prop where
  field : s.field = t.field
  phase : s.phase = t.phase
  env : R s.env t.env

variable {r : Rules F A} {q : Rules F B} {R : A → B → Prop}

/-- Going to the next field. -/
theorem Rules.Related.close (h : r.Related q R) (f : F) (length : ℕ) {a : A} {b : B} (hR : R a b) :
    FieldState.Related R (r.close f length a) (q.close f length b) :=
  ⟨h.next f, rfl, h.finish f length a b hR⟩

/-- Starting the payload of a field. -/
theorem Rules.Related.begin (h : r.Related q R) (f : F) {a : A} {b : B} (hR : R a b)
    (isList single : Bool) (length : ℕ) :
    Option.Rel (FieldState.Related R) (r.begin f a isList single length)
      (q.begin f b isList single length) := by
  unfold Rules.begin
  rw [h.admits, h.skips]
  have hstart := h.start f length a b hR
  split_ifs
  · exact .some (h.close f length hstart)
  · exact .some ⟨rfl, rfl, hstart⟩
  · exact .none

/-- Passing on a payload byte. -/
theorem Rules.Related.feedBody (h : r.Related q R) (f : F) {a : A} {b : B} (hR : R a b)
    (isList single : Bool) (length pos : ℕ) (x : UInt8) :
    Option.Rel (FieldState.Related R) (r.feedBody f a isList single length pos x)
      (q.feedBody f b isList single length pos x) := by
  unfold Rules.feedBody
  have hstore := h.store f single pos x a b hR
  generalize r.store f single pos x a = stored at hstore
  generalize q.store f single pos x b = stored' at hstore
  cases hstore with
  | none => exact .none
  | some hR' =>
    simp only [Option.map_some]
    split_ifs
    · exact .some (h.close f length hR')
    · exact .some ⟨rfl, rfl, hR'⟩

/-- Passing on a byte that is an item of its own. -/
theorem Rules.Related.feedSingle (h : r.Related q R) (x : UInt8) {s : FieldState F A}
    {t : FieldState F B} (hst : FieldState.Related R s t) :
    Option.Rel (FieldState.Related R) (r.feedSingle x s) (q.feedSingle x t) := by
  obtain ⟨f, a, phase⟩ := s
  obtain ⟨f', b, phase'⟩ := t
  obtain ⟨rfl, rfl, hR⟩ := hst
  unfold Rules.feedSingle
  cases phase with
  | header got => exact .some ⟨rfl, rfl, hR⟩
  | body isList single length pos =>
    cases single with
    | false => exact .some ⟨rfl, rfl, hR⟩
    | true => exact h.feedBody f hR isList true length pos x

/-- Reading one byte. -/
theorem Rules.Related.step (h : r.Related q R) {s : FieldState F A} {t : FieldState F B}
    (hst : FieldState.Related R s t) (x : UInt8) :
    Option.Rel (FieldState.Related R) (r.step s x) (q.step t x) := by
  obtain ⟨f, a, phase⟩ := s
  obtain ⟨f', b, phase'⟩ := t
  obtain ⟨rfl, rfl, hR⟩ := hst
  unfold Rules.step
  cases phase with
  | body isList single length pos => exact h.feedBody f hR isList single length pos x
  | header got =>
    dsimp only
    have hheader := h.header x a b hR
    have hwaiting : Option.Rel (FieldState.Related R)
        (if got.length + 1 < maxHeaderSize then
          some (⟨f, r.header x a, .header (got ++ [x])⟩ : FieldState F A) else none)
        (if got.length + 1 < maxHeaderSize then
          some (⟨f, q.header x b, .header (got ++ [x])⟩ : FieldState F B) else none) := by
      split_ifs
      · exact .some ⟨rfl, rfl, hheader⟩
      · exact .none
    cases readHeader (got ++ [x]) with
    | incomplete => exact hwaiting
    | unsupported => exact hwaiting
    | complete hd =>
      have hbegin := h.begin f (h.enter _ _ hheader) hd.isList (decide (hd.size = 0)) hd.length
      dsimp only
      generalize r.begin f (r.enter (r.header x a)) hd.isList (decide (hd.size = 0)) hd.length =
        begun at hbegin
      generalize q.begin f (q.enter (q.header x b)) hd.isList (decide (hd.size = 0)) hd.length =
        begun' at hbegin
      cases hbegin with
      | none => exact .none
      | some hst => exact h.feedSingle x hst

/-- **Related rules run alike.** -/
theorem Rules.Related.run (h : r.Related q R) {s : FieldState F A} {t : FieldState F B}
    (hst : FieldState.Related R s t) (xs : List UInt8) :
    Outcome.Related (FieldState.Related R) (r.machine.run s xs) (q.machine.run t xs) := by
  refine Machine.run_related (R := FieldState.Related R) ?_ ?_ hst xs
  · intro s t hst
    show r.isDone s.field = q.isDone t.field
    rw [h.isDone, hst.field]
  · intro s t x hst
    exact h.step hst x

/-- The states at the end of runs that are alike. -/
theorem outcome_state_related {s : Outcome UInt8 (FieldState F A)}
    {t : Outcome UInt8 (FieldState F B)} (h : Outcome.Related (FieldState.Related R) s t) :
    Option.Rel (FieldState.Related R) s.state? t.state? := by
  cases h with
  | running hst => exact .some hst
  | halted hst => exact .some hst
  | refused => exact .none

/-- Rules that keep an invariant of their data; a field ends only if its header was admitted. -/
structure Rules.Keeps (r : Rules F A) (P : A → Prop) : Prop where
  header : ∀ x a, P a → P (r.header x a)
  enter : ∀ a, P a → P (r.enter a)
  start : ∀ f length a, P a → P (r.start f length a)
  store : ∀ f single pos x a a', P a → r.store f single pos x a = some a' → P a'
  finish : ∀ f isList length a, r.admits f isList length = true → P a → P (r.finish f length a)

/-- The header of a field whose payload is read was admitted. -/
def FieldState.Admitted (r : Rules F A) (s : FieldState F A) : Prop :=
  match s.phase with
  | .header _ => True
  | .body isList _ length _ => r.admits s.field isList length = true

variable {P : A → Prop}

/-- A payload byte keeps the invariant. -/
theorem Rules.Keeps.feedBody (h : r.Keeps P) {f : F} {a : A} {isList single : Bool} {length pos : ℕ}
    {x : UInt8} {t : FieldState F A} (hadmits : r.admits f isList length = true) (ha : P a)
    (ht : r.feedBody f a isList single length pos x = some t) : P t.env ∧ t.Admitted r := by
  obtain ⟨a', hstore, rfl⟩ := Option.map_eq_some_iff.mp ht
  have ha' := h.store _ _ _ _ _ _ ha hstore
  by_cases hend : pos + 1 = length
  · rw [if_pos hend]
    exact ⟨h.finish f isList length a' hadmits ha', trivial⟩
  · rw [if_neg hend]
    exact ⟨ha', hadmits⟩

/-- A byte keeps the invariant. -/
theorem Rules.Keeps.step (h : r.Keeps P) {s t : FieldState F A} {x : UInt8} (hP : P s.env)
    (hs : s.Admitted r) (ht : r.step s x = some t) : P t.env ∧ t.Admitted r := by
  obtain ⟨f, a, phase⟩ := s
  cases phase with
  | body isList single length pos => exact h.feedBody hs hP ht
  | header got =>
    have henter := h.enter _ (h.header x a hP)
    simp only [Rules.step] at ht
    split at ht
    · rename_i hd hread
      obtain ⟨u, hbegin, hfeed⟩ := Option.bind_eq_some_iff.mp ht
      unfold Rules.begin at hbegin
      split_ifs at hbegin with hadmits hends
      · cases hbegin
        cases hfeed
        exact ⟨h.finish f hd.isList hd.length _ hadmits (h.start f hd.length _ henter), trivial⟩
      · cases hbegin
        have hstart := h.start f hd.length _ henter
        cases hsize : decide (hd.size = 0) with
        | true =>
          rw [hsize] at hfeed
          exact h.feedBody hadmits hstart hfeed
        | false =>
          rw [hsize] at hfeed
          cases hfeed
          exact ⟨hstart, hadmits⟩
    · split_ifs at ht
      cases ht
      exact ⟨h.header x a hP, trivial⟩

/-- **Rules that keep an invariant** keep it on every input. -/
theorem Rules.Keeps.run (h : r.Keeps P) {s t : FieldState F A} (hP : P s.env) (hs : s.Admitted r)
    {xs : List UInt8} (ht : (r.machine.run s xs).state? = some t) : P t.env := by
  obtain ⟨hrunning, hhalted⟩ := Machine.run_invariant (m := r.machine)
    (P := fun s => P s.env ∧ s.Admitted r) (fun _ _ _ hs hstep => h.step hs.1 hs.2 hstep)
    ⟨hP, hs⟩ xs
  cases hrun : r.machine.run s xs with
  | running u =>
    rw [hrun] at ht
    cases ht
    exact (hrunning t hrun).1
  | halted u unread =>
    rw [hrun] at ht
    cases ht
    exact (hhalted t unread hrun).1
  | refused =>
    rw [hrun] at ht
    cases ht

/-- A payload byte stays in the field, or goes to the next one. -/
theorem Rules.feedBody_field {f : F} {a : A} {isList single : Bool} {length pos : ℕ} {x : UInt8}
    {t : FieldState F A} (h : r.feedBody f a isList single length pos x = some t) :
    t.field = f ∨ t.field = r.next f := by
  obtain ⟨a', -, rfl⟩ := Option.map_eq_some_iff.mp h
  split_ifs
  · exact .inr rfl
  · exact .inl rfl

/-- So does any byte. -/
theorem Rules.step_field {s t : FieldState F A} {x : UInt8} (h : r.step s x = some t) :
    t.field = s.field ∨ t.field = r.next s.field := by
  obtain ⟨f, a, phase⟩ := s
  cases phase with
  | body isList single length pos => exact Rules.feedBody_field h
  | header got =>
    simp only [Rules.step] at h
    split at h
    · rename_i hd _
      obtain ⟨u, hbegin, hfeed⟩ := Option.bind_eq_some_iff.mp h
      unfold Rules.begin at hbegin
      split_ifs at hbegin
      · cases hbegin
        cases hfeed
        exact .inr rfl
      · cases hbegin
        cases hsize : decide (hd.size = 0) with
        | true =>
          rw [hsize] at hfeed
          exact Rules.feedBody_field hfeed
        | false =>
          rw [hsize] at hfeed
          cases hfeed
          exact .inl rfl
    · split_ifs at h
      cases h
      exact .inl rfl

/-- **A property of fields that goes to the next one** holds of the field that is reached. -/
theorem Rules.run_field_of_next {Q : F → Prop} (hnext : ∀ f, Q f → Q (r.next f))
    {s t : FieldState F A} (hs : Q s.field) {xs : List UInt8}
    (ht : (r.machine.run s xs).state? = some t) : Q t.field := by
  have hstep (s : FieldState F A) (x : UInt8) (t : FieldState F A) (hs : Q s.field)
      (h : r.machine.step s x = some t) : Q t.field := by
    rcases Rules.step_field h with hsame | hclosed
    · rw [hsame]
      exact hs
    · rw [hclosed]
      exact hnext _ hs
  obtain ⟨hrunning, hhalted⟩ := Machine.run_invariant hstep hs xs
  cases hrun : r.machine.run s xs with
  | running u =>
    rw [hrun] at ht
    cases ht
    exact hrunning t hrun
  | halted u unread =>
    rw [hrun] at ht
    cases ht
    exact hhalted t unread hrun
  | refused =>
    rw [hrun] at ht
    cases ht

end Rlp

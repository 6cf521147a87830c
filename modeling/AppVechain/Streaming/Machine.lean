import Mathlib.Data.List.Basic

/-!
# Machines fed one symbol at a time

A stream arrives in chunks that the sender cuts at will. The machines here read
one symbol at a time, may refuse a symbol, and may halt, after which nothing
more is read. Running on a chunk is a fold over its symbols, so a run does not
depend on where the stream is cut. The symbols and states are arbitrary types.
-/

namespace Streaming

/-- A machine over symbols `α` with states `σ`. `step` returns `none` when the
symbol is refused; a halted state reads nothing. -/
structure Machine (α σ : Type) where
  /-- The states in which the machine has finished. -/
  halted : σ → Bool
  /-- The effect of one symbol on a state that has not halted. -/
  step : σ → α → Option σ

/-- What remains of a machine and its input once the input is used up, the
machine has halted, or a symbol was refused. -/
inductive Outcome (α σ : Type) where
  /-- Every symbol was read and the machine waits for more. -/
  | running (s : σ)
  /-- The machine halted and left `unread` untouched. -/
  | halted (s : σ) (unread : List α)
  /-- A symbol was refused. -/
  | refused
  deriving DecidableEq

variable {α σ : Type}

/-- Feed a list of symbols to a machine. -/
def Machine.run (m : Machine α σ) : σ → List α → Outcome α σ
  | s, [] => if m.halted s then .halted s [] else .running s
  | s, a :: as =>
    if m.halted s then .halted s (a :: as)
    else match m.step s a with
      | none => .refused
      | some t => m.run t as

/-- Continue after an earlier outcome with further symbols. -/
def Outcome.resume (m : Machine α σ) (ys : List α) : Outcome α σ → Outcome α σ
  | .running s => m.run s ys
  | .halted s unread => .halted s (unread ++ ys)
  | .refused => .refused

/-- A halted state keeps its whole input unread. -/
theorem Machine.run_of_halted {m : Machine α σ} {s : σ} (h : m.halted s = true) (xs : List α) :
    m.run s xs = .halted s xs := by
  cases xs <;> simp [Machine.run, h]

/-- A state that has not halted waits on the empty input. -/
theorem Machine.run_nil {m : Machine α σ} {s : σ} (h : m.halted s = false) :
    m.run s [] = .running s := by
  simp [Machine.run, h]

/-- A state that has not halted reads the next symbol. -/
theorem Machine.run_cons {m : Machine α σ} {s : σ} (h : m.halted s = false) (a : α) (as : List α) :
    m.run s (a :: as) = ((m.step s a).elim .refused fun t => m.run t as) := by
  simp only [Machine.run, h, Bool.false_eq_true, if_false]
  cases m.step s a <;> rfl

/-- A machine that waits has not halted. -/
theorem Machine.halted_of_run_running {m : Machine α σ} {s t : σ} {xs : List α}
    (h : m.run s xs = .running t) : m.halted t = false := by
  induction xs generalizing s with
  | nil =>
    by_cases hs : m.halted s = true
    · simp [Machine.run, hs] at h
    · simp only [Machine.run, hs, Bool.false_eq_true, if_false, Outcome.running.injEq] at h
      subst h
      simpa using hs
  | cons a as ih =>
    by_cases hs : m.halted s = true
    · simp [Machine.run, hs] at h
    · rw [Machine.run_cons (by simpa using hs)] at h
      cases hstep : m.step s a with
      | none => simp [hstep] at h
      | some u => exact ih (by simpa [hstep] using h)

/-- **Cutting the input changes nothing**: feeding a concatenation is feeding its
first part and resuming with the second. -/
theorem Machine.run_append (m : Machine α σ) (s : σ) (xs ys : List α) :
    m.run s (xs ++ ys) = (m.run s xs).resume m ys := by
  induction xs generalizing s with
  | nil =>
    by_cases hs : m.halted s = true
    · simp [Machine.run_of_halted hs, Outcome.resume]
    · have hs' : m.halted s = false := by simpa using hs
      simp [Machine.run_nil hs', Outcome.resume]
  | cons a as ih =>
    by_cases hs : m.halted s = true
    · simp [Machine.run_of_halted hs, Outcome.resume]
    · have hs' : m.halted s = false := by simpa using hs
      rw [List.cons_append, Machine.run_cons hs', Machine.run_cons hs']
      cases m.step s a with
      | none => rfl
      | some t => exact ih t

/-- The unread symbols of a halted run are a suffix of the input, and the
symbols before them are exactly those the machine needed. -/
theorem Machine.run_halted_split {m : Machine α σ} {s t : σ} {xs unread : List α}
    (h : m.run s xs = .halted t unread) :
    ∃ read, xs = read ++ unread ∧ m.run s read = .halted t [] := by
  induction xs generalizing s with
  | nil =>
    by_cases hs : m.halted s = true
    · simp only [Machine.run_of_halted hs, Outcome.halted.injEq] at h
      obtain ⟨rfl, rfl⟩ := h
      exact ⟨[], rfl, Machine.run_of_halted hs []⟩
    · simp [Machine.run_nil (by simpa using hs : m.halted s = false)] at h
  | cons a as ih =>
    by_cases hs : m.halted s = true
    · simp only [Machine.run_of_halted hs, Outcome.halted.injEq] at h
      obtain ⟨rfl, rfl⟩ := h
      exact ⟨[], rfl, Machine.run_of_halted hs []⟩
    · have hs' : m.halted s = false := by simpa using hs
      rw [Machine.run_cons hs'] at h
      cases hstep : m.step s a with
      | none => simp [hstep] at h
      | some u =>
        obtain ⟨read, rfl, hread⟩ := ih (by simpa [hstep] using h)
        exact ⟨a :: read, rfl, by rw [Machine.run_cons hs', hstep]; exact hread⟩

/-- A machine that halts at the end of the input waits in front of it. -/
theorem Machine.run_prefix {m : Machine α σ} {s t : σ} {xs ys : List α}
    (h : m.run s (xs ++ ys) = .halted t []) (hys : ys ≠ []) : ∃ u, m.run s xs = .running u := by
  rw [Machine.run_append] at h
  cases hrun : m.run s xs with
  | running u => exact ⟨u, rfl⟩
  | halted u unread =>
    rw [hrun, Outcome.resume, Outcome.halted.injEq] at h
    exact absurd (List.append_eq_nil_iff.mp h.2).2 hys
  | refused =>
    rw [hrun] at h
    cases h

/-- A halted run ends in a halted state. -/
theorem Machine.halted_of_run_halted {m : Machine α σ} {s t : σ} {xs unread : List α}
    (h : m.run s xs = .halted t unread) : m.halted t = true := by
  induction xs generalizing s with
  | nil =>
    by_cases hs : m.halted s = true
    · simp only [Machine.run_of_halted hs, Outcome.halted.injEq] at h
      exact h.1 ▸ hs
    · simp [Machine.run_nil (by simpa using hs : m.halted s = false)] at h
  | cons a as ih =>
    by_cases hs : m.halted s = true
    · simp only [Machine.run_of_halted hs, Outcome.halted.injEq] at h
      exact h.1 ▸ hs
    · rw [Machine.run_cons (by simpa using hs)] at h
      cases hstep : m.step s a with
      | none => simp [hstep] at h
      | some u => exact ih (by simpa [hstep] using h)

/-- An invariant of the steps holds of every state a run waits or halts in. -/
theorem Machine.run_invariant {m : Machine α σ} {P : σ → Prop}
    (hstep : ∀ s a t, P s → m.step s a = some t → P t) {s : σ} (hs : P s) (xs : List α) :
    (∀ t, m.run s xs = .running t → P t) ∧ (∀ t unread, m.run s xs = .halted t unread → P t) := by
  induction xs generalizing s with
  | nil =>
    by_cases h : m.halted s = true
    · simp [Machine.run_of_halted h, hs]
    · simp [Machine.run_nil (by simpa using h : m.halted s = false), hs]
  | cons a as ih =>
    by_cases h : m.halted s = true
    · simp [Machine.run_of_halted h, hs]
    · rw [Machine.run_cons (by simpa using h)]
      cases hnext : m.step s a with
      | none => simp
      | some u => exact ih (hstep s a u hs hnext)

/-- Forget the symbols left unread. -/
def Outcome.verdict : Outcome α σ → Outcome α σ
  | .halted s _ => .halted s []
  | out => out

/-- The symbols of `xs` that a run on `xs` reads, none of them if one is refused. -/
def Outcome.reads (xs : List α) : Outcome α σ → List α
  | .running _ => xs
  | .halted _ unread => xs.take (xs.length - unread.length)
  | .refused => []

/-- The state a run ends in, unless a symbol was refused. -/
def Outcome.state? : Outcome α σ → Option σ
  | .running s => some s
  | .halted s _ => some s
  | .refused => none

/-- The state after a concatenation is reached in two runs: a halted machine
ignores what follows. -/
theorem Machine.state?_run_append (m : Machine α σ) (s : σ) (xs ys : List α) :
    (m.run s (xs ++ ys)).state? = (m.run s xs).state?.bind fun t => (m.run t ys).state? := by
  rw [Machine.run_append]
  cases hrun : m.run s xs with
  | running t => rfl
  | halted t unread =>
    simp only [Outcome.resume, Outcome.state?, Option.bind_some]
    rw [Machine.run_of_halted (Machine.halted_of_run_halted hrun)]
  | refused => rfl

/-- Nothing read, nothing changed. -/
theorem Machine.state?_run_nil (m : Machine α σ) (s : σ) : (m.run s []).state? = some s := by
  by_cases hs : m.halted s = true
  · rw [Machine.run_of_halted hs]
    rfl
  · rw [Machine.run_nil (by simpa using hs)]
    rfl

/-- Feed chunks in order, stopping at the first one after which the machine no
longer waits. The second component collects the symbols read. -/
def Machine.feed (m : Machine α σ) : σ → List (List α) → Outcome α σ × List α
  | s, [] => (m.run s [], [])
  | s, c :: cs =>
    match m.run s c with
    | .running t => ((m.feed t cs).1, c ++ (m.feed t cs).2)
    | out => (out, out.reads c)

/-- **Chunking independence**: feeding chunks reaches the verdict of one run on
their concatenation and reads the same symbols. -/
theorem Machine.feed_flatten (m : Machine α σ) (s : σ) (cs : List (List α)) :
    (m.feed s cs).1.verdict = (m.run s cs.flatten).verdict ∧
      ((m.run s cs.flatten) ≠ .refused →
        (m.feed s cs).2 = (m.run s cs.flatten).reads cs.flatten) := by
  induction cs generalizing s with
  | nil =>
    by_cases hs : m.halted s = true
    · simp [Machine.feed, Machine.run_of_halted hs, Outcome.reads]
    · simp [Machine.feed, Machine.run_nil (by simpa using hs : m.halted s = false), Outcome.reads]
  | cons c cs ih =>
    rw [List.flatten_cons, Machine.run_append]
    cases hrun : m.run s c with
    | refused => simp [Machine.feed, hrun, Outcome.resume]
    | halted t unread =>
      obtain ⟨read, rfl, -⟩ := Machine.run_halted_split hrun
      have hlength : (read ++ (unread ++ cs.flatten)).length - (unread ++ cs.flatten).length =
          read.length := by simp
      simp only [Machine.feed, hrun, Outcome.resume, Outcome.verdict, Outcome.reads,
        List.append_assoc, hlength, true_and]
      simp
    | running t =>
      obtain ⟨hverdict, hreads⟩ := ih t
      simp only [Machine.feed, hrun, Outcome.resume]
      refine ⟨hverdict, fun hne => ?_⟩
      rw [hreads hne]
      cases hrest : m.run t cs.flatten with
      | refused => exact absurd hrest hne
      | running u => rfl
      | halted u unread =>
        have hle : unread.length ≤ cs.flatten.length := by
          obtain ⟨read, hsplit, -⟩ := Machine.run_halted_split hrest
          simp [hsplit]
        simp only [Outcome.reads, List.length_append]
        rw [Nat.add_sub_assoc hle, List.take_length_add_append]

/-- Two ways to cut one input lead to the same verdict and read the same symbols. -/
theorem Machine.feed_eq_of_flatten_eq (m : Machine α σ) (s : σ) {cs ds : List (List α)}
    (h : cs.flatten = ds.flatten) :
    (m.feed s cs).1.verdict = (m.feed s ds).1.verdict ∧
      ((m.feed s cs).1 ≠ .refused → (m.feed s cs).2 = (m.feed s ds).2) := by
  obtain ⟨hcv, hcr⟩ := m.feed_flatten s cs
  obtain ⟨hdv, hdr⟩ := m.feed_flatten s ds
  refine ⟨by rw [hcv, hdv, h], fun hne => ?_⟩
  have hrun : m.run s cs.flatten ≠ .refused := by
    intro hrefused
    rw [hrefused] at hcv
    cases hfeed : (m.feed s cs).1 <;> simp_all [Outcome.verdict]
  rw [hcr hrun, hdr (h ▸ hrun), h]

/-- Outcomes of two machines that agree, with related states. -/
inductive Outcome.Related {τ : Type} (R : σ → τ → Prop) : Outcome α σ → Outcome α τ → Prop where
  | running {s : σ} {t : τ} : R s t → Outcome.Related R (.running s) (.running t)
  | halted {s : σ} {t : τ} {unread : List α} : R s t →
      Outcome.Related R (.halted s unread) (.halted t unread)
  | refused : Outcome.Related R .refused .refused

/-- **Machines that step alike run alike**: they wait, halt and refuse at the same symbols. -/
theorem Machine.run_related {τ : Type} {m : Machine α σ} {n : Machine α τ} {R : σ → τ → Prop}
    (hhalted : ∀ s t, R s t → m.halted s = n.halted t)
    (hstep : ∀ s t a, R s t → Option.Rel R (m.step s a) (n.step t a)) {s : σ} {t : τ} (h : R s t)
    (xs : List α) : Outcome.Related R (m.run s xs) (n.run t xs) := by
  have hstopped {s : σ} {t : τ} (h : R s t) (hn : n.halted t = true) (xs : List α) :
      Outcome.Related R (m.run s xs) (n.run t xs) := by
    rw [Machine.run_of_halted ((hhalted s t h).trans hn), Machine.run_of_halted hn]
    exact .halted h
  induction xs generalizing s t with
  | nil =>
    cases hn : n.halted t with
    | true => exact hstopped h hn []
    | false =>
      rw [Machine.run_nil ((hhalted s t h).trans hn), Machine.run_nil hn]
      exact .running h
  | cons a as ih =>
    cases hn : n.halted t with
    | true => exact hstopped h hn (a :: as)
    | false =>
      rw [Machine.run_cons ((hhalted s t h).trans hn), Machine.run_cons hn]
      have hrel := hstep s t a h
      generalize m.step s a = next at hrel
      generalize n.step t a = next' at hrel
      cases hrel with
      | some hnext => exact ih hnext
      | none => exact .refused

end Streaming

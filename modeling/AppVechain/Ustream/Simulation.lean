import AppVechain.Rlp.Fields
import AppVechain.Ustream.Parser

/-!
# The parsers refine the byte machine

A parser works on a chunk with a loop, a header buffer and a pointer that is
sometimes moved back; the machine of `Rlp.Rules` reads one byte at a time. `Sim`
relates their states between two chunks. A parser whose handlers do what the
rules say (`Refines`) answers every chunk as a run of the machine on its bytes
does, and never gets stuck (`Parser.process_answers`). The three parsers of the
application are instances.
-/

namespace AppVechain

open Rlp Streaming

variable {F E A : Type}

/-- How the data a parser writes relates to the data of the machine. `ready` data
can be written: a field was entered. -/
structure DataRel (E A : Type) where
  rel : E → A → Prop
  ready : A → Prop

/-- The context stands where the phase says. Within a field its header was
admitted, its payload is read, and the effect of its start was seen. -/
def AtPhase (r : Rules F A) (R : DataRel E A) (s : ParserState F E) (t : FieldState F A) : Prop :=
  match t.phase with
  | .header got =>
    s.processingField = false ∧ s.rlpBufferPos = got.length ∧ got.length < maxHeaderSize ∧
      s.rlpBuffer.toList.take got.length = got
  | .body isList single length pos =>
    s.processingField = true ∧ s.rlpBufferPos = 0 ∧ s.currentFieldIsList = isList ∧
      s.fieldSingleByte = single ∧ s.currentFieldLength = length ∧ s.currentFieldPos = pos ∧
      pos < length ∧ r.admits t.field isList length = true ∧ r.skips t.field length = false ∧
      r.start t.field length t.env = t.env ∧ R.ready t.env

/-- A parser state and a machine state that agree; `R` relates their data. -/
structure Sim (r : Rules F A) (R : DataRel E A) (s : ParserState F E) (t : FieldState F A) :
    Prop where
  field : s.currentField = t.field
  env : R.rel s.env t.env
  phase : AtPhase r R s t

/-- A handler does what the rules say, on a field whose header is complete:
it refuses the field, ends it without reading, or stores what the chunk has of it. -/
def Handled (r : Rules F A) (R : DataRel E A) (s : ParserState F E) (a : A)
    (result : Exec (ParserState F E)) : Prop :=
  let f := s.currentField
  let length := s.currentFieldLength
  if r.admits f s.currentFieldIsList length then
    if r.skips f length then
      ∃ env dataLength, R.rel env (r.finish f length (r.start f length a)) ∧
        result = .ok { s with
          dataLength := dataLength, currentField := r.next f, env := env, processingField := false }
    else
      match r.storeAll f s.fieldSingleByte s.currentFieldPos (s.workBuffer.ahead.take s.copySize)
        (r.start f length a) with
      | none => ∃ t, result = .throw t
      | some a =>
        if s.currentFieldPos + s.copySize = length then
          ∃ env, R.rel env (r.finish f length a) ∧
            result = .ok { s.advance s.copySize with
              currentField := r.next f, env := env, processingField := false }
        else ∃ env, R.rel env a ∧ result = .ok { s.advance s.copySize with env := env }
  else ∃ t, result = .throw t

/-- A parser implements the rules on related data. -/
structure Parser.Refines (p : Parser F E) (r : Rules F A) (R : DataRel E A) : Prop where
  isDone : p.isDone = r.isDone
  read : ∀ (b : UInt8) (s : ParserState F E) (a : A), s.processingField = false → R.rel s.env a →
    R.rel (p.read b s) (r.header b a)
  enter : ∀ (s : ParserState F E) (a : A), R.rel s.env a →
    ∃ env, p.enter s = { s with env := env } ∧ R.rel env (r.enter a)
  ready_enter : ∀ a, R.ready (r.enter a)
  ready_start : ∀ f length a, R.ready a → R.ready (r.start f length a)
  ready_store : ∀ f single pos b a a', R.ready a → r.store f single pos b a = some a' → R.ready a'
  handle : ∀ (s : ParserState F E) (a : A), r.isDone s.currentField = false →
    s.processingField = true → s.currentFieldPos ≤ s.currentFieldLength → R.rel s.env a →
    R.ready a → Handled r R s a (p.handle s)
  /-- Starting a field again changes nothing. -/
  start_start : ∀ f length a, r.start f length (r.start f length a) = r.start f length a
  start_store : ∀ f length single pos b a a', r.start f length a = a →
    r.store f single pos b a = some a' → r.start f length a' = a'
  /-- Nothing is read after a single byte that is not read as a payload. -/
  skips_single : ∀ f, r.admits f false 1 = true → r.skips f 1 = true → r.isDone (r.next f) = true

/-- The end of a parser call answers the run of the machine on the same bytes.
A single byte that is not read as a payload is given back, the machine keeps it. -/
inductive Answers (p : Parser F E) (r : Rules F A) (R : DataRel E A) :
    Result (ParserState F E) → Outcome UInt8 (FieldState F A) → Prop where
  | running {s t status} : Sim r R s t → s.workBuffer.ahead = [] →
      status = p.exhausted ∨ status = .processing →
      Answers p r R (.returned status s) (.running t)
  | halted {s t unread} : Sim r R s t →
      (s.workBuffer.ahead = unread ∨ ∃ f, r.admits f false 1 = true ∧ r.skips f 1 = true) →
      Answers p r R (.returned .finished s) (.halted t unread)
  | refused {s} : Answers p r R (.returned .fault s) .refused

/-- A call faults when a byte is refused, and otherwise ends in an agreeing state. -/
theorem Answers.of_state {p : Parser F E} {r : Rules F A} {R : DataRel E A}
    {result : Result (ParserState F E)} {out : Outcome UInt8 (FieldState F A)}
    (h : Answers p r R result out) (hexhausted : p.exhausted ≠ .fault) :
    match out.state? with
    | none => ∃ s, result = .returned .fault s
    | some t => ∃ status s, status ≠ .fault ∧ Sim r R s t ∧ result = .returned status s := by
  cases h with
  | running hsim _ hstatus =>
    refine ⟨_, _, ?_, hsim, rfl⟩
    obtain rfl | rfl := hstatus
    · exact hexhausted
    · decide
  | halted hsim _ => exact ⟨_, _, by decide, hsim, rfl⟩
  | refused => exact ⟨_, rfl⟩

/-- The pointer plays no part between two chunks. -/
theorem Sim.withWorkBuffer {r : Rules F A} {R : DataRel E A} {s : ParserState F E}
    {t : FieldState F A} (h : Sim r R s t) (w : WorkBuffer) :
    Sim r R { s with workBuffer := w } t :=
  ⟨h.field, h.env, h.phase⟩

/-- Moving the pointer by nothing. -/
theorem ParserState.advance_zero (s : ParserState F E) : s.advance 0 = s := by
  simp only [ParserState.advance, List.take_zero, List.reverse_nil, List.nil_append, List.drop_zero,
    Nat.add_zero, ite_self]

/-- What the copy of payload bytes leaves of the chunk. -/
theorem ParserState.copySize_eq (s : ParserState F E) :
    s.copySize = min s.workBuffer.ahead.length (s.currentFieldLength - s.currentFieldPos) := by
  unfold ParserState.copySize ParserState.commandLength
  split <;> omega

variable {p : Parser F E} {r : Rules F A} {R : DataRel E A}

/-- Storing bytes keeps a field started. -/
theorem Parser.Refines.start_storeAll (h : p.Refines r R) {f : F} {length : ℕ} {single : Bool}
    {pos : ℕ} {xs : List UInt8} {a a' : A} (hstart : r.start f length a = a)
    (hstore : r.storeAll f single pos xs a = some a') : r.start f length a' = a' := by
  induction xs generalizing pos a with
  | nil => cases hstore; exact hstart
  | cons b bs ih =>
    rw [Rules.storeAll, Option.bind_eq_some_iff] at hstore
    obtain ⟨a₁, hb, hbs⟩ := hstore
    exact ih (h.start_store f length single pos b a a₁ hstart hb) hbs

/-- Storing bytes keeps data ready. -/
theorem Parser.Refines.ready_storeAll (h : p.Refines r R) {f : F} {single : Bool} {pos : ℕ}
    {xs : List UInt8} {a a' : A} (hready : R.ready a)
    (hstore : r.storeAll f single pos xs a = some a') : R.ready a' := by
  induction xs generalizing pos a with
  | nil => cases hstore; exact hready
  | cons b bs ih =>
    rw [Rules.storeAll, Option.bind_eq_some_iff] at hstore
    obtain ⟨a₁, hb, hbs⟩ := hstore
    exact ih (h.ready_store f single pos b a a₁ hready hb) hbs

/-- The machine within a field, over the part of the payload that a chunk has. -/
theorem run_body_min {f : F} (hf : r.isDone f = false) {isList single : Bool} {length pos : ℕ}
    (hpos : pos < length) (a : A) (xs : List UInt8)
    {k : ℕ} (hk : k = min xs.length (length - pos)) :
    r.machine.run ⟨f, a, .body isList single length pos⟩ xs =
      (r.storeAll f single pos (xs.take k) a).elim .refused fun a =>
        r.machine.run (if pos + k = length then r.close f length a
          else ⟨f, a, .body isList single length (pos + k)⟩) (xs.drop k) := by
  by_cases hshort : pos + xs.length < length
  · have hkx : k = xs.length := by omega
    rw [Rules.run_body_short hf hshort, hkx, List.take_length, List.drop_length]
    congr 1
    funext a'
    rw [if_neg (by omega)]
    exact (Machine.run_nil hf).symm
  · conv_lhs => rw [← List.take_append_drop k xs]
    rw [Rules.run_body hf hpos (by rw [List.length_take]; omega)]
    congr 1
    funext a'
    rw [if_pos (by omega)]

/-- How the header loop answers the machine: it refuses, waits in the header, or
stands behind a complete header, whose last byte the machine has still to act on. -/
def FeedAnswers (r : Rules F A) (R : DataRel E A) (f : F) (size : ℕ)
    (out : Outcome UInt8 (FieldState F A)) : Feed (ParserState F E) → Prop
  | .decoded s => ∃ (h : Header) (a : A) (b : UInt8),
      readHeader (s.rlpBuffer.toList.take s.rlpBufferPos) = .complete h ∧ 0 < s.rlpBufferPos ∧
      s.currentField = f ∧ R.rel s.env a ∧ s.workBuffer.behind.head? = some b ∧
      s.workBuffer.ahead.length < size ∧
      out = ((r.begin f (r.enter a) h.isList (h.size = 0) h.length).bind (r.feedSingle b)).elim
        .refused fun t => r.machine.run t s.workBuffer.ahead
  | .starved s => ∃ t, Sim r R s t ∧ s.workBuffer.ahead = [] ∧ out = .running t
  | .fault _ => out = .refused
  | .stuck _ => False

/-- A larger bound on what is left of the chunk. -/
theorem FeedAnswers.mono {f : F} {m n : ℕ} {out : Outcome UInt8 (FieldState F A)}
    {feed : Feed (ParserState F E)} (h : FeedAnswers r R f m out feed) (hmn : m ≤ n) :
    FeedAnswers r R f n out feed := by
  cases feed with
  | decoded s =>
    obtain ⟨hd, a, b, hread, hpos, hf, henv, hlast, hlt, hout⟩ := h
    exact ⟨hd, a, b, hread, hpos, hf, henv, hlast, by omega, hout⟩
  | starved s => exact h
  | fault s => exact h
  | stuck e => exact h

/-- One turn of the header loop: a byte goes into the buffer, and the loop ends
when the buffer holds a header or is full. -/
theorem Parser.feed_cons (p : Parser F E) {s : ParserState F E} {got : List UInt8} {b : UInt8}
    {rest : List UInt8} (hahead : s.workBuffer.ahead = b :: rest)
    (hpos : s.rlpBufferPos = got.length) (hgot : got.length < maxHeaderSize)
    (htake : s.rlpBuffer.toList.take got.length = got) (n : ℕ) :
    ∃ s₁ : ParserState F E, s₁.rlpBufferPos = got.length + 1 ∧
      s₁.rlpBuffer.toList.take (got.length + 1) = got ++ [b] ∧
      s₁.processingField = s.processingField ∧ s₁.currentField = s.currentField ∧
      s₁.env = p.read b (s.advance 1) ∧
      s₁.workBuffer = ⟨b :: s.workBuffer.behind, rest⟩ ∧
      p.feed (n + 1) s =
        match readHeader (got ++ [b]) with
        | .complete _ => .decoded s₁
        | _ => if got.length + 1 = maxHeaderSize then .fault s₁ else p.feed n s₁ := by
  obtain ⟨u, hu⟩ : ∃ u, u = p.readByte b s := ⟨_, rfl⟩
  have hupos : u.rlpBufferPos = got.length := by rw [hu]; exact hpos
  have hupos5 : u.rlpBufferPos < 5 := hupos ▸ hgot
  have hubuffer : u.rlpBuffer = s.rlpBuffer := by rw [hu]; rfl
  have huproc : u.processingField = s.processingField := by rw [hu]; rfl
  have hufield : u.currentField = s.currentField := by rw [hu]; rfl
  have huenv : u.env = p.read b (s.advance 1) := by rw [hu]; rfl
  have hbuffer : (u.rlpBuffer.set u.rlpBufferPos b hupos5).toList.take (u.rlpBufferPos + 1) =
      got ++ [b] := by
    have hroom : got.length < (s.rlpBuffer.toList.set got.length b).length := by
      simpa [maxHeaderSize] using hgot
    simp only [Vector.toList_set, hupos, hubuffer]
    rw [List.take_succ_eq_append_getElem hroom, List.take_set_of_le (Nat.le_refl _), htake,
      List.getElem_set_self]
  refine ⟨{ u with
    rlpBuffer := u.rlpBuffer.set u.rlpBufferPos b hupos5
    rlpBufferPos := u.rlpBufferPos + 1 }, congrArg (· + 1) hupos, hupos ▸ hbuffer,
    huproc, hufield, huenv, ?_, ?_⟩
  · simp [hu, Parser.readByte, ParserState.advance, hahead]
  · have hcan := rlpCanDecode_eq (u.rlpBuffer.set u.rlpBufferPos b hupos5)
      (n := u.rlpBufferPos + 1) (by omega) (by omega)
    rw [hbuffer] at hcan
    rw [Parser.feed, hahead]
    simp only [← hu, hupos5, dif_pos, hcan]
    have hfull : u.rlpBufferPos + 1 = 5 ↔ got.length + 1 = maxHeaderSize := by
      rw [hupos, maxHeaderSize]
    cases readHeader (got ++ [b]) with
    | complete hd => rfl
    | incomplete => simp only [hfull]
    | unsupported => simp only [hfull]

/-- The header loop reads a header as the machine does. -/
theorem Parser.Refines.feed_answers (h : p.Refines r R) {s : ParserState F E} {t : FieldState F A}
    {got : List UInt8} (hsim : Sim r R s t) (hphase : t.phase = .header got)
    (hf : r.isDone t.field = false) :
    FeedAnswers r R t.field s.workBuffer.ahead.length (r.machine.run t s.workBuffer.ahead)
      (p.feed s.workBuffer.ahead.length s) := by
  induction hn : s.workBuffer.ahead.length generalizing s t got with
  | zero =>
    have hnil : s.workBuffer.ahead = [] := List.eq_nil_of_length_eq_zero hn
    exact ⟨t, hsim, hnil, by rw [hnil]; exact Machine.run_nil hf⟩
  | succ n ih =>
    obtain ⟨f, a, phase⟩ := t
    obtain rfl : phase = .header got := hphase
    obtain ⟨hfield, henv, hproc, hbufferPos, hgot, htake⟩ := hsim
    obtain ⟨b, rest, hahead⟩ : ∃ b rest, s.workBuffer.ahead = b :: rest := by
      cases hcase : s.workBuffer.ahead with
      | nil => simp [hcase] at hn
      | cons b rest => exact ⟨b, rest, rfl⟩
    have hrest : rest.length = n := by simpa [hahead] using hn
    obtain ⟨s₁, hpos₁, hbuffer₁, hproc₁, hfield₁, henv₁, hwork₁, hfeed⟩ :=
      p.feed_cons hahead hbufferPos hgot htake n
    have hR : R.rel s₁.env (r.header b a) := henv₁ ▸ h.read b (s.advance 1) a hproc henv
    rw [hfeed, hahead, Rules.run_cons hf]
    have hmore (hnone : ∀ hd, readHeader (got ++ [b]) ≠ .complete hd) :
        FeedAnswers r R f (n + 1)
          ((r.step ⟨f, a, .header got⟩ b).elim .refused fun t => r.machine.run t rest)
          (if got.length + 1 = maxHeaderSize then .fault s₁ else p.feed n s₁) := by
      rw [Rules.step_header hnone]
      by_cases hfull : got.length + 1 = maxHeaderSize
      · rw [if_pos hfull, if_neg (by omega)]
        rfl
      · rw [if_neg hfull, if_pos (by omega)]
        have hnext := ih (s := s₁) (t := ⟨f, r.header b a, .header (got ++ [b])⟩)
          ⟨hfield₁.trans hfield, hR, hproc₁.trans hproc, by simpa using hpos₁,
            by rw [List.length_append, List.length_singleton]; omega, by simpa using hbuffer₁⟩
          rfl hf (by rw [hwork₁, hrest])
        rw [hwork₁] at hnext
        exact hnext.mono (Nat.le_succ n)
    cases hread : readHeader (got ++ [b]) with
    | complete hd =>
      refine ⟨hd, r.header b a, b, by rw [hpos₁, hbuffer₁, hread], by omega,
        hfield₁.trans hfield, hR, by rw [hwork₁]; rfl, by rw [hwork₁]; simp only; omega, ?_⟩
      simp only [Rules.step, hread, hwork₁]
    | incomplete => exact hmore (by simp [hread])
    | unsupported => exact hmore (by simp [hread])

/-- A parser call from the end of the `switch` on. -/
def Parser.continue (p : Parser F E) (n : ℕ) :
    Exec (ParserState F E) → Result (ParserState F E)
  | .ok s => p.loop n s
  | .throw s => .returned .fault s
  | .stuck e => .stuck e

/-- A turn within a field. -/
theorem Parser.loop_payload (p : Parser F E) {s : ParserState F E} {n : ℕ}
    (hdone : p.isDone s.currentField = false) (hahead : s.commandLength ≠ 0)
    (hproc : s.processingField = true) : p.loop (n + 1) s = p.continue n (p.handle s) := by
  simp only [Parser.loop, Parser.turn, hdone, hahead, hproc, Bool.false_eq_true, if_true, if_false]
  cases p.handle s <;> rfl

/-- A turn that starts in a header and gets behind it. -/
theorem Parser.loop_header (p : Parser F E) {s s₁ s₂ : ParserState F E} {n : ℕ}
    (hdone : p.isDone s.currentField = false) (hahead : s.commandLength ≠ 0)
    (hproc : s.processingField = false) (hfeed : p.feed s.commandLength s = .decoded s₁)
    (hbegin : p.beginField s₁ = .ok s₂) : p.loop (n + 1) s = p.continue n (p.handle s₂) := by
  simp only [Parser.loop, Parser.turn, hdone, hahead, hproc, hfeed, hbegin, Bool.false_eq_true,
    if_false]
  cases p.handle s₂ <;> rfl

/-- The loop, while it stays below a given number of turns, answers the machine. -/
def LoopAnswers (p : Parser F E) (r : Rules F A) (R : DataRel E A) (n : ℕ) : Prop :=
  ∀ (s : ParserState F E) (t : FieldState F A), Sim r R s t →
    s.workBuffer.ahead.length + 2 ≤ n →
    Answers p r R (p.loop n s) (r.machine.run t s.workBuffer.ahead)

/-- A handler that reads payload goes on like the machine within the field. -/
theorem Parser.Refines.payload_answers (h : p.Refines r R) {n : ℕ} (ih : LoopAnswers p r R n)
    {s : ParserState F E} {a : A} (hf : r.isDone s.currentField = false)
    (hproc : s.processingField = true) (hbufferPos : s.rlpBufferPos = 0) (hR : R.rel s.env a)
    (hready : R.ready a)
    (hadmits : r.admits s.currentField s.currentFieldIsList s.currentFieldLength = true)
    (hskips : r.skips s.currentField s.currentFieldLength = false)
    (hpos : s.currentFieldPos < s.currentFieldLength)
    (hn : (s.workBuffer.ahead.drop s.copySize).length + 2 ≤ n) :
    Answers p r R (p.continue n (p.handle s))
      (r.machine.run ⟨s.currentField, r.start s.currentField s.currentFieldLength a,
        .body s.currentFieldIsList s.fieldSingleByte s.currentFieldLength s.currentFieldPos⟩
        s.workBuffer.ahead) := by
  have hhandled := h.handle s a hf hproc (Nat.le_of_lt hpos) hR hready
  rw [run_body_min hf hpos _ _ s.copySize_eq]
  simp only [Handled, hadmits, hskips, if_true, Bool.false_eq_true, if_false] at hhandled
  cases hstore : r.storeAll s.currentField s.fieldSingleByte s.currentFieldPos
      (s.workBuffer.ahead.take s.copySize)
      (r.start s.currentField s.currentFieldLength a) with
  | none =>
    rw [hstore] at hhandled
    obtain ⟨t, ht⟩ := hhandled
    rw [ht]
    exact .refused
  | some a' =>
    rw [hstore] at hhandled
    simp only [Option.elim_some] at hhandled ⊢
    by_cases hend : s.currentFieldPos + s.copySize = s.currentFieldLength
    · rw [if_pos hend] at hhandled ⊢
      obtain ⟨env, hR', hok⟩ := hhandled
      rw [hok]
      exact ih _ _ ⟨rfl, hR', rfl, hbufferPos, by decide, by simp⟩ hn
    · rw [if_neg hend] at hhandled ⊢
      obtain ⟨env, hR', hok⟩ := hhandled
      have hmin := s.copySize_eq
      rw [hok]
      refine ih _ _ ⟨rfl, hR', hproc, hbufferPos, rfl, rfl, rfl, ?_, by omega, hadmits, hskips,
        h.start_storeAll (h.start_start _ _ _) hstore,
        h.ready_storeAll (h.ready_start _ _ _ hready) hstore⟩ hn
      simp only [ParserState.advance, hproc, if_true]

/-- The statements behind the header loop set the context up for the field. -/
theorem Parser.Refines.beginField_eq (h : p.Refines r R) {s : ParserState F E} {hd : Header} {a : A}
    {b : UInt8} (hread : readHeader (s.rlpBuffer.toList.take s.rlpBufferPos) = .complete hd)
    (hbufferPos : 0 < s.rlpBufferPos) (hR : R.rel s.env a)
    (hlast : s.workBuffer.behind.head? = some b) :
    ∃ s₁ : ParserState F E, p.beginField s = .ok s₁ ∧ s₁.currentField = s.currentField ∧
      s₁.processingField = true ∧ s₁.rlpBufferPos = 0 ∧ s₁.currentFieldPos = 0 ∧
      s₁.currentFieldLength = hd.length ∧ s₁.currentFieldIsList = hd.isList ∧
      s₁.fieldSingleByte = decide (hd.size = 0) ∧ R.rel s₁.env (r.enter a) ∧
      s₁.workBuffer.ahead =
        if hd.size = 0 then b :: s.workBuffer.ahead else s.workBuffer.ahead := by
  obtain ⟨behind, hbehind⟩ : ∃ behind, s.workBuffer.behind = b :: behind := by
    cases hcase : s.workBuffer.behind with
    | nil => simp [hcase] at hlast
    | cons c behind =>
      rw [hcase, List.head?_cons, Option.some.injEq] at hlast
      exact ⟨behind, by rw [hlast]⟩
  have hunread : s.workBuffer.unread = some ⟨behind, b :: s.workBuffer.ahead⟩ := by
    have hw : s.workBuffer = ⟨b :: behind, s.workBuffer.ahead⟩ := by rw [← hbehind]
    rw [hw]
    rfl
  simp only [Parser.beginField, rlpDecodeLength_eq _ hbufferPos hread, hunread]
  by_cases hsize : hd.size = 0
  · rw [if_pos hsize]
    obtain ⟨env, henter, hR'⟩ := h.enter { s with
      currentFieldLength := hd.length, currentFieldIsList := hd.isList,
      fieldSingleByte := decide (hd.size = 0), workBuffer := ⟨behind, b :: s.workBuffer.ahead⟩,
      currentFieldPos := 0, rlpBufferPos := 0, processingField := true } a hR
    exact ⟨_, congrArg Exec.ok henter, rfl, rfl, rfl, rfl, rfl, rfl, rfl, hR', by rw [if_pos hsize]⟩
  · rw [if_neg hsize]
    obtain ⟨env, henter, hR'⟩ := h.enter { s with
      currentFieldLength := hd.length, currentFieldIsList := hd.isList,
      fieldSingleByte := decide (hd.size = 0), workBuffer := s.workBuffer,
      currentFieldPos := 0, rlpBufferPos := 0, processingField := true } a hR
    exact ⟨_, congrArg Exec.ok henter, rfl, rfl, rfl, rfl, rfl, rfl, rfl, hR', by rw [if_neg hsize]⟩

/-- A call from a complete header on. -/
theorem Parser.Refines.switch_answers (h : p.Refines r R) {n : ℕ} (ih : LoopAnswers p r R n)
    {s : ParserState F E} {hd : Header} {a : A} {b : UInt8} {f : F} (hfield : s.currentField = f)
    (hf : r.isDone f = false)
    (hread : readHeader (s.rlpBuffer.toList.take s.rlpBufferPos) = .complete hd)
    (hbufferPos : 0 < s.rlpBufferPos) (hR : R.rel s.env a)
    (hlast : s.workBuffer.behind.head? = some b)
    (hn : s.workBuffer.ahead.length + 2 ≤ n) :
    ∃ s₁, p.beginField s = .ok s₁ ∧ Answers p r R (p.continue n (p.handle s₁))
      (((r.begin f (r.enter a) hd.isList (hd.size = 0) hd.length).bind
        (r.feedSingle b)).elim .refused fun t => r.machine.run t s.workBuffer.ahead) := by
  obtain ⟨s₁, hbegin, hfield₁, hproc₁, hbufferPos₁, hpos₁, hlength₁, hlist₁,
      hsingle₁, hR₁, hwork₁⟩ :=
    h.beginField_eq hread hbufferPos hR hlast
  obtain ⟨-, -, hsum, -⟩ := readHeader_size hread
  have hone : hd.size = 0 → hd.length = 1 ∧ hd.isList = false := by
    intro hsize
    simp [readHeader_single hread hsize]
  obtain ⟨isList, length, size⟩ := hd
  obtain rfl : s₁.currentFieldLength = length := hlength₁
  obtain rfl : s₁.currentFieldIsList = isList := hlist₁
  obtain rfl : s₁.currentField = f := hfield₁.trans hfield
  refine ⟨s₁, hbegin, ?_⟩
  have hready := h.ready_enter a
  have hhandled := h.handle s₁ _ hf hproc₁ (by omega) hR₁ hready
  simp only [Rules.begin] at hone hsum hwork₁ hsingle₁ ⊢
  by_cases hadmits : r.admits s₁.currentField s₁.currentFieldIsList s₁.currentFieldLength = true
  swap
  · -- The field is refused at its header.
    simp only [Handled, hadmits, Bool.false_eq_true, if_false] at hhandled
    obtain ⟨t, ht⟩ := hhandled
    simp only [hadmits, Bool.false_eq_true, if_false, ht]
    exact .refused
  by_cases hskips : r.skips s₁.currentField s₁.currentFieldLength = true
  · -- The field ends at its header; after a byte that is given back nothing is left to read.
    simp only [Handled, hadmits, hskips, if_true] at hhandled
    obtain ⟨env, dataLength, hR₂, hok⟩ := hhandled
    simp only [hadmits, hskips, Bool.true_or, if_true, Option.bind_some, Rules.feedSingle,
      Rules.close, Option.elim_some, hok]
    have hsim : Sim r R { s₁ with
        dataLength := dataLength, currentField := r.next s₁.currentField, env := env,
        processingField := false } ⟨r.next s₁.currentField, _, .header []⟩ :=
      ⟨rfl, hR₂, rfl, hbufferPos₁, by decide, by simp⟩
    by_cases hsize : size = 0
    · obtain ⟨hlength, hlist⟩ := hone hsize
      rw [hlength] at hskips
      rw [hlength, hlist] at hadmits
      have hdone := h.skips_single _ hadmits hskips
      obtain ⟨m, rfl⟩ : ∃ m, n = m + 1 := ⟨n - 1, by omega⟩
      rw [Machine.run_of_halted hdone]
      simp only [Parser.continue, Parser.loop, Parser.turn, h.isDone, hdone, if_true]
      exact .halted hsim (.inr ⟨_, hadmits, hskips⟩)
    · rw [if_neg hsize] at hwork₁
      rw [← hwork₁]
      exact ih _ _ hsim (by rw [hwork₁]; exact hn)
  by_cases hempty : s₁.currentFieldLength = 0
  · -- An empty payload ends at its header, too.
    rw [if_neg (by omega)] at hwork₁
    have hcopy : s₁.copySize = 0 := by rw [s₁.copySize_eq]; omega
    have hend : s₁.currentFieldPos + s₁.copySize = s₁.currentFieldLength := by omega
    simp only [Handled, hadmits, hskips, if_true, Bool.false_eq_true, if_false, hend] at hhandled
    rw [hcopy] at hhandled
    obtain ⟨env, hR₂, hok⟩ := hhandled
    have hends : (r.skips s₁.currentField s₁.currentFieldLength ||
        decide (s₁.currentFieldLength = 0)) = true := by simp [hempty]
    simp only [hadmits, hends, if_true, Option.bind_some, Rules.feedSingle, Rules.close,
      Option.elim_some, hok]
    rw [← hwork₁]
    have hsim : Sim r R { s₁.advance 0 with
        currentField := r.next s₁.currentField, env := env, processingField := false }
        ⟨r.next s₁.currentField, _, .header []⟩ :=
      ⟨rfl, hR₂, rfl, hbufferPos₁, by decide, by simp⟩
    exact ih _ _ hsim (by simp only [ParserState.advance, List.drop_zero, hwork₁, hn])
  · have hskips' : r.skips s₁.currentField s₁.currentFieldLength = false := by simpa using hskips
    have hcopy := s₁.copySize_eq
    have hpayload := h.payload_answers ih hf hproc₁ hbufferPos₁ hR₁ hready hadmits hskips'
      (by omega) (by
      by_cases hsize : size = 0
      · obtain ⟨hlength, -⟩ := hone hsize
        rw [if_pos hsize] at hwork₁
        simp only [hwork₁, List.length_drop, List.length_cons] at hcopy ⊢
        omega
      · rw [if_neg hsize] at hwork₁
        simp only [hwork₁, List.length_drop]
        omega)
    rw [hpos₁, hsingle₁] at hpayload
    simp only [hadmits, hskips', hempty, decide_false, Bool.or_false, Bool.false_eq_true, if_true,
      if_false, Option.bind_some]
    by_cases hsize : size = 0
    · rw [if_pos hsize] at hwork₁
      rw [hwork₁, Rules.run_cons hf] at hpayload
      simpa only [Rules.feedSingle, hsize, decide_true, Rules.step] using hpayload
    · rw [if_neg hsize] at hwork₁
      rw [hwork₁] at hpayload
      simpa only [Rules.feedSingle, hsize, decide_false, Option.elim_some] using hpayload

/-- The loop answers the machine as long as it has two turns more than there are
bytes. Every turn reads a byte, or is the last one. -/
theorem Parser.Refines.loop_answers (h : p.Refines r R) (n : ℕ) : LoopAnswers p r R n := by
  induction n with
  | zero => intro s t hsim hn; omega
  | succ n ih =>
    intro s t hsim hn
    by_cases hdone : r.isDone t.field = true
    · rw [Machine.run_of_halted hdone]
      simp only [Parser.loop, Parser.turn, h.isDone, hsim.field, hdone, if_true]
      exact .halted hsim (.inl rfl)
    have hf : r.isDone t.field = false := by simpa using hdone
    by_cases hnil : s.workBuffer.ahead = []
    · rw [hnil, Machine.run_nil hf]
      simp only [Parser.loop, Parser.turn, h.isDone, hsim.field, hf, ParserState.commandLength,
        hnil, List.length_nil, Bool.false_eq_true, if_true, if_false]
      exact .running hsim hnil (.inl rfl)
    have hpos := List.length_pos_iff.mpr hnil
    obtain ⟨f, a, phase⟩ := t
    cases phase with
    | body isList single length pos =>
      obtain ⟨rfl, hR, hproc, hbufferPos, rfl, rfl, rfl, rfl, hlt, hadmits, hskips, hstart,
        hready⟩ := hsim
      have hcopy := s.copySize_eq
      have hpayload := h.payload_answers ih hf hproc hbufferPos hR hready hadmits hskips hlt (by
        rw [List.length_drop]
        omega)
      rw [hstart] at hpayload
      rw [p.loop_payload (h.isDone ▸ hf) (by simpa [ParserState.commandLength] using hnil) hproc]
      exact hpayload
    | header got =>
      have hfield : s.currentField = f := hsim.field
      have hproc : s.processingField = false := hsim.phase.1
      have hahead : s.commandLength ≠ 0 := by simpa [ParserState.commandLength] using hnil
      have hdone' : p.isDone s.currentField = false := by rw [h.isDone, hfield]; exact hf
      have hfeed := h.feed_answers hsim rfl hf
      cases hcase : p.feed s.workBuffer.ahead.length s with
      | decoded s₁ =>
        rw [hcase] at hfeed
        obtain ⟨hd, a₁, b, hread, hpos₁, hfield₁, hR₁, hlast, hlt, hrun⟩ := hfeed
        obtain ⟨s₂, hbegin, hanswers⟩ :=
          h.switch_answers ih hfield₁ hf hread hpos₁ hR₁ hlast (by omega)
        rw [p.loop_header hdone' hahead hproc hcase hbegin, hrun]
        exact hanswers
      | starved s₁ =>
        rw [hcase] at hfeed
        obtain ⟨t₁, hsim₁, hnil₁, hrun⟩ := hfeed
        have hcase' : p.feed s.commandLength s = .starved s₁ := hcase
        simp only [Parser.loop, Parser.turn, hdone', hahead, hproc, hcase', Bool.false_eq_true,
          if_false]
        rw [hrun]
        exact .running hsim₁ hnil₁ (.inr rfl)
      | fault s₁ =>
        rw [hcase] at hfeed
        have hcase' : p.feed s.commandLength s = .fault s₁ := hcase
        simp only [Parser.loop, Parser.turn, hdone', hahead, hproc, hcase', Bool.false_eq_true,
          if_false]
        rw [show r.machine.run _ _ = .refused from hfeed]
        exact .refused
      | stuck e => rw [hcase] at hfeed; exact hfeed.elim

/-- **A parser call on a chunk answers the machine's run on its bytes.** -/
theorem Parser.Refines.process_answers (h : p.Refines r R) {s : ParserState F E}
    {t : FieldState F A} (hsim : Sim r R s t) (buffer : List UInt8) :
    Answers p r R (p.process s buffer) (r.machine.run t buffer) :=
  h.loop_answers _ _ _ (hsim.withWorkBuffer ⟨[], buffer⟩) (Nat.le_refl _)

/-- A call in a state that agrees with the machine has a result. -/
theorem Parser.Refines.process_returned (h : p.Refines r R) {s : ParserState F E}
    {t : FieldState F A} (hsim : Sim r R s t) (buffer : List UInt8) :
    ∃ status s', p.process s buffer = .returned status s' := by
  have hanswers := h.process_answers hsim buffer
  generalize p.process s buffer = result at hanswers ⊢
  generalize r.machine.run t buffer = out at hanswers
  cases hanswers with
  | running => exact ⟨_, _, rfl⟩
  | halted => exact ⟨_, _, rfl⟩
  | refused => exact ⟨_, _, rfl⟩

/-- Payload bytes are used as the machine stores them. -/
def Stored (R : DataRel E A) (stored : Option A) (used : Exec E) : Prop :=
  match stored with
  | none => ∃ env, used = .throw env
  | some a => ∃ env, R.rel env a ∧ used = .ok env

/-- A field handler of the common shape does what rules with its limits say, if its
two parameters do. -/
theorem processField_handled {spec : FieldSpec F E} {s : ParserState F E} {a : A}
    (hproc : s.processingField = true) (hpos : s.currentFieldPos ≤ s.currentFieldLength)
    (hR : R.rel s.env a)
    (hadmits : r.admits s.currentField s.currentFieldIsList s.currentFieldLength =
      (s.currentFieldIsList == spec.isList && !spec.maxLength.any (· < s.currentFieldLength)))
    (hskips : r.skips s.currentField s.currentFieldLength = false)
    (hstart : r.start s.currentField s.currentFieldLength a = a)
    (huse : spec.maxLength.any (· < s.currentFieldLength) = false → ∀ bytes : List UInt8,
      s.currentFieldPos + bytes.length ≤ s.currentFieldLength →
      Stored R (r.storeAll s.currentField s.fieldSingleByte s.currentFieldPos bytes a)
        (spec.use bytes s))
    (hready : ∀ bytes a', r.storeAll s.currentField s.fieldSingleByte s.currentFieldPos bytes a =
      some a' → R.ready a')
    (hfinish : ∀ (t : ParserState F E) (a' : A), t.currentField = s.currentField →
      t.currentFieldLength = s.currentFieldLength → R.rel t.env a' →
      R.ready a' → ∃ env, R.rel env (r.finish s.currentField s.currentFieldLength a') ∧
        spec.finish t = { t with currentField := r.next s.currentField, env := env }) :
    Handled r R s a (processField spec s) := by
  have hcopy := s.copySize_eq
  by_cases hlimits :
      (s.currentFieldIsList == spec.isList && !spec.maxLength.any (· < s.currentFieldLength)) = true
  swap
  · simp only [Handled, hadmits, hlimits, Bool.false_eq_true, if_false]
    refine ⟨s, ?_⟩
    by_cases hlist : s.currentFieldIsList = spec.isList
    · have hmax : spec.maxLength.any (· < s.currentFieldLength) = true := by
        simpa [hlist] using hlimits
      rw [processField, if_neg (not_not.mpr hlist), if_pos hmax]
    · rw [processField, if_pos hlist]
  obtain ⟨hlist, hmax⟩ : s.currentFieldIsList = spec.isList ∧
      spec.maxLength.any (· < s.currentFieldLength) = false := by simpa using hlimits
  have hbody := huse hmax (s.workBuffer.ahead.take s.copySize) (by rw [List.length_take]; omega)
  simp only [Handled, hadmits, hlimits, hskips, hstart, if_true, Bool.false_eq_true, if_false]
  rw [processField, if_neg (not_not.mpr hlist), if_neg (by simp [hmax])]
  by_cases hlt : s.currentFieldPos < s.currentFieldLength
  · have henough : ¬s.commandLength < s.copySize := by
      rw [ParserState.commandLength]
      omega
    rw [if_pos hlt, copyData, if_neg henough]
    cases hstore : r.storeAll s.currentField s.fieldSingleByte s.currentFieldPos
        (s.workBuffer.ahead.take s.copySize) a with
    | none =>
      rw [hstore] at hbody
      obtain ⟨env, huse⟩ := hbody
      rw [huse]
      exact ⟨_, rfl⟩
    | some a' =>
      rw [hstore] at hbody
      obtain ⟨env, hR', huse⟩ := hbody
      obtain ⟨env', hR'', hspec⟩ := hfinish
        (ParserState.advance { s with env := env } s.copySize) a'
        rfl rfl hR' (hready _ _ hstore)
      have hpos' : (ParserState.advance { s with env := env } s.copySize).currentFieldPos =
          s.currentFieldPos + s.copySize := by
        simp only [ParserState.advance, hproc, if_true]
      have hlength' : (ParserState.advance { s with env := env } s.copySize).currentFieldLength =
          s.currentFieldLength := rfl
      rw [huse]
      simp only [Exec.map, Exec.bind, hpos', hlength']
      by_cases hend : s.currentFieldPos + s.copySize = s.currentFieldLength
      · rw [if_pos hend, if_pos hend, hspec]
        exact ⟨env', hR'', rfl⟩
      · rw [if_neg hend, if_neg hend]
        exact ⟨env, hR', rfl⟩
  · have hend : s.currentFieldPos = s.currentFieldLength := by omega
    have hzero : s.copySize = 0 := by omega
    obtain ⟨env', hR'', hspec⟩ := hfinish s a rfl rfl hR (hready [] a rfl)
    simp only [hzero, List.take_zero, Rules.storeAll, Nat.add_zero, if_pos hend, if_neg hlt,
      Exec.bind, s.advance_zero, hspec]
    exact ⟨env', hR'', rfl⟩

end AppVechain

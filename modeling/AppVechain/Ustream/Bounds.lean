import AppVechain.Ustream.Transcript

/-!
# Bounds of the parsers

Every context keeps its positions and its pointer within bounds, also when a
call faults. This is shown for the common loop once, with an invariant of the
data the context points to: for the transaction these are the two inner contexts.
-/

namespace AppVechain

open Rlp Streaming

variable {F E : Type}

/-- A property of the state at the end of a statement, if there is one. -/
def Exec.Holds {S : Type} (P : S → Prop) : Exec S → Prop
  | .ok s => P s
  | .throw s => P s
  | .stuck _ => True

/-- Statements one after the other. -/
theorem Exec.Holds.bind {S : Type} {P Q : S → Prop} {x : Exec S} {f : S → Exec S}
    (h : x.Holds P) (hweak : ∀ s, P s → Q s) (hf : ∀ s, P s → (f s).Holds Q) :
    (x.bind f).Holds Q := by
  cases x with
  | ok s => exact hf s h
  | throw s => exact hweak s h
  | stuck e => trivial

/-- A state with data exchanged. -/
theorem Exec.Holds.map {S T : Type} {P : S → Prop} {Q : T → Prop} {x : Exec S} {f : S → T}
    (h : x.Holds P) (hf : ∀ s, P s → Q (f s)) : (x.map f).Holds Q := by
  cases x with
  | ok s => exact hf s h
  | throw s => exact hf s h
  | stuck e => trivial

/-- The positions of a context are within its header buffer and its field, and its pointer
is within the chunk it was given. -/
structure FieldContext.InBounds (c : FieldContext) (chunk : List UInt8) : Prop where
  rlpBufferPos : c.rlpBufferPos ≤ 5
  currentFieldPos : c.processingField = true → c.currentFieldPos ≤ c.currentFieldLength
  workBuffer : c.workBuffer.behind.reverse ++ c.workBuffer.ahead = chunk

/-- A context within its bounds, with data that satisfy an invariant: one for the time while
a field is processed and one for the time between fields. -/
def ParserState.Safe (chunk : List UInt8) (I : Bool → E → Prop) (s : ParserState F E) : Prop :=
  s.toFieldContext.InBounds chunk ∧ I s.processingField s.env

/-- The parts of a parser keep the bounds and an invariant of its data. -/
structure Parser.Safe (p : Parser F E) (chunk : List UInt8) (I : Bool → E → Prop) : Prop where
  read : ∀ b s, I false s.env → I false (p.read b s)
  enter : ∀ s, I false s.env →
    (p.enter s).toFieldContext = s.toFieldContext ∧ I true (p.enter s).env
  handle : ∀ s, s.processingField = true → s.Safe chunk I →
    (p.handle s).Holds (ParserState.Safe chunk I)

/-- The pointer moves within its chunk. -/
theorem WorkBuffer.take_drop (w : WorkBuffer) (n : ℕ) :
    ((w.ahead.take n).reverse ++ w.behind).reverse ++ w.ahead.drop n =
      w.behind.reverse ++ w.ahead := by
  rw [List.reverse_append, List.reverse_reverse, List.append_assoc, List.take_append_drop]

/-- Moving on within the field keeps the bounds. -/
theorem FieldContext.InBounds.advance {s : ParserState F E} {chunk : List UInt8} {n : ℕ}
    (h : s.toFieldContext.InBounds chunk)
    (hn : s.processingField = true → s.currentFieldPos + n ≤ s.currentFieldLength) :
    (s.advance n).toFieldContext.InBounds chunk := by
  refine ⟨h.rlpBufferPos, ?_, ?_⟩
  · intro hproc
    have hpos : (s.advance n).currentFieldPos = s.currentFieldPos + n := if_pos hproc
    rw [hpos]
    exact hn hproc
  · exact (s.workBuffer.take_drop n).trans h.workBuffer

variable {p : Parser F E} {chunk : List UInt8} {I : Bool → E → Prop}

/-- How the loop that reads a header ends. -/
def Feed.Holds {S : Type} (P : S → Prop) : Feed S → Prop
  | .decoded s => P s
  | .starved s => P s
  | .fault s => P s
  | .stuck _ => True

/-- Reading a header keeps the bounds. -/
theorem Parser.Safe.feed (h : p.Safe chunk I) (n : ℕ) {s : ParserState F E} (hs : s.Safe chunk I)
    (hproc : s.processingField = false) :
    (p.feed n s).Holds fun t => t.Safe chunk I ∧ t.processingField = false := by
  induction n generalizing s with
  | zero => exact ⟨hs, hproc⟩
  | succ n ih =>
    rw [Parser.feed]
    cases hahead : s.workBuffer.ahead with
    | nil => exact ⟨hs, hproc⟩
    | cons b rest =>
      have hnot : ¬s.processingField = true := by rw [hproc]; decide
      have hI : I false s.env := hproc ▸ hs.2
      have hread : (p.readByte b s).Safe chunk I := by
        refine ⟨hs.1.advance fun h => absurd h hnot, ?_⟩
        show I s.processingField (p.read b (s.advance 1))
        rw [hproc]
        exact h.read b _ hI
      dsimp only
      split
      case isFalse => trivial
      case isTrue hlt =>
        have hstored : ({ p.readByte b s with
            rlpBuffer := (p.readByte b s).rlpBuffer.set (p.readByte b s).rlpBufferPos b hlt
            rlpBufferPos := (p.readByte b s).rlpBufferPos + 1 } : ParserState F E).Safe chunk I :=
          ⟨⟨hlt, hread.1.currentFieldPos, hread.1.workBuffer⟩, hread.2⟩
        split
        · exact ⟨hstored, hproc⟩
        · exact ⟨hstored, hproc⟩
        · split_ifs
          · exact ⟨hstored, hproc⟩
          · exact ih hstored hproc

/-- Giving a byte back keeps the pointer within the chunk. -/
theorem WorkBuffer.unread_eq {w w' : WorkBuffer} (h : w.unread = some w') :
    w'.behind.reverse ++ w'.ahead = w.behind.reverse ++ w.ahead := by
  obtain ⟨behind, ahead⟩ := w
  cases behind with
  | nil => cases h
  | cons b behind =>
    cases h
    rw [List.reverse_cons, List.append_assoc, List.singleton_append]

/-- A field begins within its bounds. -/
theorem Parser.Safe.beginField (h : p.Safe chunk I) {s : ParserState F E} (hs : s.Safe chunk I)
    (hproc : s.processingField = false) :
    (p.beginField s).Holds fun t => t.Safe chunk I ∧
      (t.processingField = true ∨ p.beginField s = .throw t) := by
  have hI : I false s.env := hproc ▸ hs.2
  have hstarted (fieldLength : ℕ) (list single : Bool) (w : WorkBuffer)
      (hw : w.behind.reverse ++ w.ahead = chunk) : (p.enter { s with
        currentFieldLength := fieldLength
        currentFieldIsList := list
        fieldSingleByte := single
        workBuffer := w
        currentFieldPos := 0
        rlpBufferPos := 0
        processingField := true }).Safe chunk I ∧ (p.enter { s with
        currentFieldLength := fieldLength
        currentFieldIsList := list
        fieldSingleByte := single
        workBuffer := w
        currentFieldPos := 0
        rlpBufferPos := 0
        processingField := true }).processingField = true := by
    obtain ⟨hcontext, hI'⟩ := h.enter { s with
      currentFieldLength := fieldLength
      currentFieldIsList := list
      fieldSingleByte := single
      workBuffer := w
      currentFieldPos := 0
      rlpBufferPos := 0
      processingField := true } hI
    have hproc' := congrArg FieldContext.processingField hcontext
    refine ⟨⟨?_, ?_⟩, hproc'⟩
    · rw [hcontext]
      exact ⟨Nat.zero_le _, fun _ => Nat.zero_le _, hw⟩
    · rw [hproc']
      exact hI'
  unfold Parser.beginField
  split
  · exact ⟨hs, .inr rfl⟩
  · dsimp only
    split_ifs
    · split
      · trivial
      · rename_i w hw
        obtain ⟨hsafe, hproc'⟩ :=
          hstarted _ _ _ w ((WorkBuffer.unread_eq hw).trans hs.1.workBuffer)
        exact ⟨hsafe, .inl hproc'⟩
    · obtain ⟨hsafe, hproc'⟩ := hstarted _ _ _ _ hs.1.workBuffer
      exact ⟨hsafe, .inl hproc'⟩

/-- The state at the end of a call. -/
def Result.Holds {S : Type} (P : S → Prop) : Result S → Prop
  | .returned _ s => P s
  | .stuck _ => True

/-- One turn of the loop keeps the bounds. -/
theorem Parser.Safe.turn (h : p.Safe chunk I) {s : ParserState F E} (hs : s.Safe chunk I) :
    (p.turn s).elim (Result.Holds (ParserState.Safe chunk I)) (ParserState.Safe chunk I) := by
  unfold Parser.turn
  dsimp only
  split_ifs with hdone hempty hproc
  · exact hs
  · exact hs
  · have hhandle := h.handle s hproc hs
    cases hcase : p.handle s with
    | ok t => rw [hcase] at hhandle; exact hhandle
    | throw t => rw [hcase] at hhandle; exact hhandle
    | stuck e => trivial
  · have hfeed := h.feed s.commandLength hs (Bool.eq_false_iff.mpr hproc)
    cases hcase : p.feed s.commandLength s with
    | starved t => rw [hcase] at hfeed; exact hfeed.1
    | fault t => rw [hcase] at hfeed; exact hfeed.1
    | stuck e => trivial
    | decoded t =>
      rw [hcase] at hfeed
      have hbegin := h.beginField hfeed.1 hfeed.2
      dsimp only
      cases hfield : p.beginField t with
      | ok t' =>
        rw [hfield] at hbegin
        obtain ⟨hsafe, hproc' | hthrow⟩ := hbegin
        · have hhandle := h.handle t' hproc' hsafe
          dsimp only
          cases hcase : p.handle t' with
          | ok t => rw [hcase] at hhandle; exact hhandle
          | throw t => rw [hcase] at hhandle; exact hhandle
          | stuck e => trivial
        · cases hthrow
      | throw t' => rw [hfield] at hbegin; exact hbegin.1
      | stuck e => trivial

/-- **A call keeps the bounds**, whatever it returns. -/
theorem Parser.Safe.process (h : p.Safe chunk I) {s : ParserState F E}
    (hheader : s.rlpBufferPos ≤ 5)
    (hpos : s.processingField = true → s.currentFieldPos ≤ s.currentFieldLength)
    (hI : I s.processingField s.env) :
    (p.process s chunk).Holds (ParserState.Safe chunk I) := by
  have hloop (n : ℕ) (t : ParserState F E) (ht : t.Safe chunk I) :
      (p.loop n t).Holds (ParserState.Safe chunk I) := by
    induction n generalizing t with
    | zero => trivial
    | succ n ih =>
      have hturn := h.turn ht
      rw [Parser.loop]
      cases hcase : p.turn t with
      | inl result => rw [hcase] at hturn; exact hturn
      | inr t' => rw [hcase] at hturn; exact ih t' hturn
  exact hloop _ _ ⟨⟨hheader, hpos, rfl⟩, hI⟩

/-- Copying payload bytes keeps the bounds when the bytes belong to the field. -/
theorem copyData_safe {use : List UInt8 → ParserState F E → Exec E} {n : ℕ} {s : ParserState F E}
    (hs : s.Safe chunk I) (hproc : s.processingField = true)
    (hn : s.currentFieldPos + n ≤ s.currentFieldLength)
    (huse : ∀ bytes, bytes <:+: chunk → (use bytes s).Holds (I true)) :
    (copyData use n s).Holds fun t => t.Safe chunk I ∧ t.processingField = true := by
  unfold copyData
  split_ifs
  · exact ⟨hs, hproc⟩
  · have hbytes : s.workBuffer.ahead.take n <:+: chunk := by
      rw [← hs.1.workBuffer]
      exact (List.take_prefix _ _).isInfix.trans (List.suffix_append _ _).isInfix
    have hused := huse _ hbytes
    cases hcase : use (s.workBuffer.ahead.take n) s with
    | ok env =>
      rw [hcase] at hused
      refine ⟨⟨hs.1.advance fun _ => hn, ?_⟩, hproc⟩
      show I s.processingField env
      rw [hproc]
      exact hused
    | throw env =>
      rw [hcase] at hused
      refine ⟨⟨hs.1, ?_⟩, hproc⟩
      show I s.processingField env
      rw [hproc]
      exact hused
    | stuck e => trivial

/-- What the chunk holds of the field belongs to the field. -/
theorem copySize_le {s : ParserState F E} (h : s.currentFieldPos < s.currentFieldLength) :
    s.currentFieldPos + s.copySize ≤ s.currentFieldLength := by
  unfold ParserState.copySize
  split_ifs <;> omega

/-- A field handler of the common shape keeps the bounds. -/
theorem processField_safe {spec : FieldSpec F E} (hweak : ∀ env, I true env → I false env)
    (huse : ∀ bytes s, bytes <:+: chunk → I true s.env → (spec.use bytes s).Holds (I true))
    (hfinish : ∀ s, I true s.env →
      (spec.finish s).toFieldContext = s.toFieldContext ∧ I true (spec.finish s).env)
    {s : ParserState F E} (hproc : s.processingField = true) (hs : s.Safe chunk I) :
    (processField spec s).Holds (ParserState.Safe chunk I) := by
  have hI : I true s.env := hproc ▸ hs.2
  have hcopied : ((if s.currentFieldPos < s.currentFieldLength then copyData spec.use s.copySize s
      else .ok s) : Exec (ParserState F E)).Holds
        fun t => t.Safe chunk I ∧ t.processingField = true := by
    split_ifs with hlt
    · exact copyData_safe hs hproc (copySize_le hlt) fun bytes hbytes => huse bytes s hbytes hI
    · exact ⟨hs, hproc⟩
  rw [processField]
  by_cases hkind : s.currentFieldIsList ≠ spec.isList
  · rw [if_pos hkind]
    exact hs
  · rw [if_neg hkind]
    by_cases hlong : spec.maxLength.any (· < s.currentFieldLength) = true
    · rw [if_pos hlong]
      exact hs
    · rw [if_neg hlong]
      refine hcopied.bind (fun t ht => ht.1) ?_
      rintro t ⟨ht, hproc'⟩
      show (if _ then _ else t : ParserState F E).Safe chunk I
      split_ifs
      · obtain ⟨hcontext, hI'⟩ := hfinish t (hproc' ▸ ht.2)
        refine ⟨⟨?_, fun hfalse => absurd hfalse Bool.false_ne_true, ?_⟩, hweak _ hI'⟩
        · exact (congrArg FieldContext.rlpBufferPos hcontext).trans_le ht.1.rlpBufferPos
        · have hwork := congrArg FieldContext.workBuffer hcontext
          show (spec.finish t).workBuffer.behind.reverse ++ (spec.finish t).workBuffer.ahead = chunk
          rw [hwork]
          exact ht.1.workBuffer
      · exact ht

/-- Moving bytes into an array changes data without an invariant. -/
theorem memmove_holds {n : ℕ} {out : Vector UInt8 n} {pos : ℕ} {bytes : List UInt8} {T : Type}
    {P : T → Prop} {f : Vector UInt8 n → T} (hf : ∀ v, P (f v)) :
    ((memmove out pos bytes).map f).Holds P := by
  unfold memmove
  split_ifs
  · exact hf _
  · trivial

/-- The handler of the data of a clause keeps the bounds. -/
theorem processDataField_safe {s : ClauseState} (hproc : s.processingField = true)
    (hs : s.Safe chunk fun _ _ => True) :
    (processDataField s).Holds (ParserState.Safe chunk fun _ _ => True) := by
  unfold processDataField
  by_cases hlist : s.currentFieldIsList = true
  · rw [if_pos hlist]
    exact hs
  · rw [if_neg hlist]
    dsimp only
    by_cases htoken : s.currentFieldLength = 68
    · rw [if_pos htoken]
      refine Exec.Holds.bind (P := fun t : ClauseState => t.Safe chunk (fun _ _ => True) ∧
        t.processingField = true) ?_ (fun t ht => ht.1) ?_
      · split_ifs with hlt
        · refine copyData_safe hs hproc (copySize_le hlt) fun bytes _ => ?_
          exact memmove_holds fun _ => trivial
        · exact ⟨hs, hproc⟩
      · rintro t ⟨ht, -⟩
        dsimp only [Exec.Holds]
        split_ifs
        · exact ⟨⟨ht.1.rlpBufferPos, nofun, ht.1.workBuffer⟩, trivial⟩
        · exact ht
    · rw [if_neg htoken]
      exact ⟨⟨hs.1.rlpBufferPos, nofun, hs.1.workBuffer⟩, trivial⟩

/-- The clause parser keeps the bounds. -/
theorem clauseParser_safe (chunk : List UInt8) : clauseParser.Safe chunk fun _ _ => True where
  read _ _ _ := trivial
  enter _ _ := ⟨rfl, trivial⟩
  handle s hproc hs := by
    rw [clauseParser]
    dsimp only
    split
    · exact processField_safe (fun _ _ => trivial)
        (fun _ _ _ _ => memmove_holds fun _ => trivial) (fun _ _ => ⟨rfl, trivial⟩) hproc hs
    · exact processField_safe (fun _ _ => trivial)
        (fun _ _ _ _ => memmove_holds fun _ => trivial) (fun _ _ => ⟨rfl, trivial⟩) hproc hs
    · exact processDataField_safe hproc hs
    · exact hs

/-- The context is within its bounds in a part of one of the chunks. -/
def FieldContext.Within (c : FieldContext) (chunks : List (List UInt8)) : Prop :=
  ∃ window, (window = [] ∨ ∃ chunk ∈ chunks, window <:+: chunk) ∧ c.InBounds window

/-- The clause context is within its bounds, once it was initialised. -/
def ClausesEnv.Within (chunks : List (List UInt8)) (processingField : Bool) (env : ClausesEnv) :
    Prop :=
  processingField = true ∨ env.entered ≠ 0 → env.clauseContext.toFieldContext.Within chunks

/-- A cleared context is within its bounds. -/
theorem FieldContext.zero_within (chunks : List (List UInt8)) : FieldContext.zero.Within chunks :=
  ⟨[], .inl rfl, Nat.zero_le _, nofun, rfl⟩

/-- The clause parser is called within bounds, and stays there. -/
theorem copyClausesData_within {bytes : List UInt8} {chunks : List (List UInt8)} {s : ClausesState}
    (hbytes : ∃ chunk ∈ chunks, bytes <:+: chunk)
    (h : s.env.clauseContext.toFieldContext.Within chunks) :
    (copyClausesData bytes s).Holds (ClausesEnv.Within chunks true) := by
  obtain ⟨window, -, hin⟩ := h
  have hcall := (clauseParser_safe bytes).process (s := s.env.loadClause) hin.rlpBufferPos
    hin.currentFieldPos trivial
  have hstore (t : ClauseState) (ht : t.Safe bytes fun _ _ => True) :
      (s.env.storeClause t).Within chunks true := by
    have hcontext : (s.env.storeClause t).clauseContext.toFieldContext = t.toFieldContext := by
      unfold ClausesEnv.storeClause
      split <;> rfl
    intro _
    rw [hcontext]
    exact ⟨bytes, .inr hbytes, ht.1⟩
  unfold copyClausesData processClause
  cases hcase : clauseParser.process s.env.loadClause bytes with
  | stuck e => trivial
  | returned status t =>
    rw [hcase] at hcall
    cases status <;> exact hstore t hcall

/-- The clause list parser keeps the bounds. -/
theorem clausesParser_safe (scratch : Scratch) {chunk : List UInt8} {chunks : List (List UInt8)}
    (hchunk : ∃ c ∈ chunks, chunk <:+: c) :
    (clausesParser scratch).Safe chunk (ClausesEnv.Within chunks) where
  read _ _ h := h
  enter s h := by
    refine ⟨rfl, fun _ => ?_⟩
    have hcontext : (enterClause scratch s).env.clauseContext.toFieldContext =
        FieldContext.zero := by
      unfold enterClause
      dsimp only
      split <;> rfl
    rw [show ((clausesParser scratch).enter s).env = (enterClause scratch s).env from rfl, hcontext]
    exact FieldContext.zero_within chunks
  handle s hproc hs := by
    obtain ⟨c, hc, hinfix⟩ := hchunk
    rw [clausesParser]
    dsimp only
    split
    · refine processField_safe (fun env h _ => h (.inl rfl)) ?_ ?_ hproc hs
      · intro bytes t hbytes ht
        exact copyClausesData_within ⟨c, hc, hbytes.trans hinfix⟩ (ht (.inl rfl))
      · intro t ht
        dsimp only
        split
        · exact ⟨rfl, ht⟩
        · exact ⟨rfl, ht⟩
    · exact hs

/-- What the inner contexts of a transaction are kept within. -/
def TxEnv.Within (chunks : List (List UInt8)) (_ : Bool) (env : TxEnv) : Prop :=
  env.clauses.toFieldContext.Within chunks ∧
    env.clauses.env.Within chunks env.clauses.processingField

/-- Hashing plays no part. -/
theorem TxEnv.Within.hashTx {chunks : List (List UInt8)} {b : Bool} {env : TxEnv}
    (h : env.Within chunks b) (bytes : List UInt8) (s : TxState) :
    (AppVechain.hashTx bytes s env).Within chunks b := by
  unfold AppVechain.hashTx
  split
  · exact h
  · exact h

/-- The clause list parser is called within bounds, and stays there. -/
theorem copyTxDataClauses_within (scratch : Scratch) {bytes : List UInt8}
    {chunks : List (List UInt8)} {s : TxState} (hbytes : ∃ chunk ∈ chunks, bytes <:+: chunk)
    (h : s.env.Within chunks true) :
    (copyTxDataClauses scratch bytes s).Holds (TxEnv.Within chunks true) := by
  obtain ⟨⟨window, -, hin⟩, hinner⟩ := h
  have hcall := (clausesParser_safe scratch hbytes).process (s := s.env.clauses) hin.rlpBufferPos
    hin.currentFieldPos hinner
  have hstore (t : ClausesState) (ht : t.Safe bytes (ClausesEnv.Within chunks)) :
      ({ s.env with clauses := t } : TxEnv).Within chunks true :=
    ⟨⟨bytes, .inr hbytes, ht.1⟩, ht.2⟩
  unfold copyTxDataClauses processClauses
  cases hcase : (clausesParser scratch).process s.env.clauses bytes with
  | stuck e => trivial
  | returned status t =>
    rw [hcase] at hcall
    cases status with
    | fault => exact hstore t hcall
    | processing => exact (hstore t hcall).hashTx bytes s
    | finished => exact (hstore t hcall).hashTx bytes s

/-- A field that does not change the inner contexts. -/
theorem txField_safe {chunks : List (List UInt8)} {spec : FieldSpec RlpTxField TxEnv}
    (huse : ∀ bytes s, bytes <:+: chunk → TxEnv.Within chunks true s.env →
      (spec.use bytes s).Holds (TxEnv.Within chunks true))
    (hfinish : ∀ s, (spec.finish s).toFieldContext = s.toFieldContext ∧
      (spec.finish s).env.clauses = s.env.clauses)
    {s : TxState} (hproc : s.processingField = true) (hs : s.Safe chunk (TxEnv.Within chunks)) :
    (processField spec s).Holds (ParserState.Safe chunk (TxEnv.Within chunks)) := by
  refine processField_safe (fun _ h => h) huse (fun t ht => ?_) hproc hs
  obtain ⟨hcontext, hclauses⟩ := hfinish t
  refine ⟨hcontext, ?_⟩
  unfold TxEnv.Within
  rw [hclauses]
  exact ht

/-- The transaction parser keeps the bounds. -/
theorem txParser_safe (scratch : Scratch) {chunk : List UInt8} {chunks : List (List UInt8)}
    (hchunk : ∃ c ∈ chunks, chunk <:+: c) :
    (txParser scratch).Safe chunk (TxEnv.Within chunks) where
  read b s h := h.hashTx [b] s
  enter s h := ⟨rfl, h⟩
  handle s hproc hs := by
    have hnull (maxLength : Option ℕ) (isList : Bool) :
        (processField ⟨isList, maxLength, copyTxDataNull, nextTxField⟩ s).Holds
          (ParserState.Safe chunk (TxEnv.Within chunks)) := by
      refine txField_safe (fun bytes t _ ht => ?_) (fun _ => ⟨rfl, rfl⟩) hproc hs
      exact ht.hashTx bytes t
    rw [txParser]
    dsimp only
    split
    · unfold processContent
      split_ifs
      · exact hs
      · exact ⟨⟨hs.1.rlpBufferPos, fun hfalse => absurd hfalse Bool.false_ne_true,
          hs.1.workBuffer⟩, hs.2⟩
    · exact hnull _ _
    · exact hnull _ _
    · exact hnull _ _
    · obtain ⟨c, hc, hinfix⟩ := hchunk
      refine txField_safe (fun bytes t hbytes ht => ?_) (fun _ => ⟨rfl, rfl⟩) hproc hs
      exact copyTxDataClauses_within scratch ⟨c, hc, hbytes.trans hinfix⟩ ht
    · refine txField_safe (fun bytes t _ ht => ?_) (fun _ => ⟨rfl, rfl⟩) hproc hs
      exact Exec.Holds.map (memmove_holds (P := TxEnv.Within chunks true) fun _ => ht)
        fun env henv => henv.hashTx bytes t
    · refine txField_safe (fun bytes t _ ht => ?_) (fun _ => ⟨rfl, rfl⟩) hproc hs
      exact Exec.Holds.map (memmove_holds (P := TxEnv.Within chunks true) fun _ => ht)
        fun env henv => henv.hashTx bytes t
    · exact hnull _ _
    · exact hnull _ _
    · exact hnull _ _
    · exact hs

/-- The states reached by `initTx` and calls of `processTx` up to the first result other
than `USTREAM_PROCESSING`, with the chunks and the status returned last. -/
inductive TxVisited (scratch : Scratch) (env : TxEnv) :
    List (List UInt8) → ParserStatus → TxState → Prop where
  | initTx : TxVisited scratch env [] .processing (initTx env)
  | processTx {chunks : List (List UInt8)} {chunk : List UInt8} {status : ParserStatus}
      {s s' : TxState} : TxVisited scratch env chunks .processing s →
      processTx scratch s chunk = .returned status s' →
      TxVisited scratch env (chunk :: chunks) status s'

/-- A visited state that did not fault is reached. -/
theorem TxVisited.reached {scratch : Scratch} {env : TxEnv} {chunks : List (List UInt8)}
    {status : ParserStatus} {s : TxState} (h : TxVisited scratch env chunks status s)
    (hstatus : status ≠ .fault) :
    ∃ received consumed, TxReached scratch env status s received consumed := by
  induction h with
  | initTx => exact ⟨[], [], .initTx⟩
  | processTx _ hcall ih =>
    obtain ⟨received, consumed, hreached⟩ := ih (by decide)
    exact ⟨_, _, hreached.processTx hcall hstatus⟩

/-- A visited state that did not fault agrees with a state of the machine. -/
theorem TxVisited.sim {scratch : Scratch} {env : TxEnv} {chunks : List (List UInt8)}
    {status : ParserStatus} {s : TxState} (h : TxVisited scratch env chunks status s)
    (hstatus : status ≠ .fault) : ∃ t, Sim (txRules scratch) (txRel scratch) s t := by
  obtain ⟨received, consumed, hreached⟩ := h.reached hstatus
  obtain ⟨t, hsim, -⟩ := hreached.run
  exact ⟨t, hsim⟩

/-- More chunks do not narrow the bounds. -/
theorem FieldContext.Within.mono {c : FieldContext} {chunks chunks' : List (List UInt8)}
    (h : c.Within chunks) (hsub : chunks ⊆ chunks') : c.Within chunks' := by
  obtain ⟨window, hwindow, hin⟩ := h
  refine ⟨window, hwindow.imp id ?_, hin⟩
  rintro ⟨chunk, hchunk, hinfix⟩
  exact ⟨chunk, hsub hchunk, hinfix⟩

/-- **In-bounds parsing**: in every state up to the first result that is not
`USTREAM_PROCESSING`, the positions and the pointers of the three contexts are within bounds,
that of the transaction within the last chunk; and no call runs into an access outside of an
array or of its chunk. -/
theorem txVisited_within {scratch : Scratch} {env : TxEnv} {chunks : List (List UInt8)}
    {status : ParserStatus} {s : TxState} (h : TxVisited scratch env chunks status s) :
    s.toFieldContext.InBounds (chunks.headD []) ∧
      s.env.clauses.toFieldContext.Within chunks ∧
      (s.env.clauses.env.entered ≠ 0 →
        s.env.clauses.env.clauseContext.toFieldContext.Within chunks) ∧
      (status = .processing → ∀ chunk, ∃ status' s', processTx scratch s chunk =
        .returned status' s') := by
  have hsafe : s.Safe (chunks.headD []) (TxEnv.Within chunks) := by
    induction h with
    | initTx =>
      refine ⟨⟨Nat.zero_le _, nofun, rfl⟩, FieldContext.zero_within _, ?_⟩
      rintro (hproc | hentered)
      · cases hproc
      · exact absurd rfl hentered
    | @processTx chunks chunk status s s' _ hcall ih =>
      obtain ⟨hin, houter, hinner⟩ := ih
      have hsub : chunks ⊆ chunk :: chunks := List.subset_cons_self _ _
      have hchunk : ∃ c ∈ chunk :: chunks, chunk <:+: c :=
        ⟨chunk, List.mem_cons_self, List.infix_rfl⟩
      have hprocess := (txParser_safe scratch hchunk).process (s := s) hin.rlpBufferPos
        hin.currentFieldPos ⟨houter.mono hsub, fun henter => (hinner henter).mono hsub⟩
      rw [show (txParser scratch).process s chunk = _ from hcall] at hprocess
      exact hprocess
  refine ⟨hsafe.1, hsafe.2.1, fun hentered => hsafe.2.2 (.inr hentered), ?_⟩
  rintro rfl chunk
  obtain ⟨t, hsim⟩ := h.sim (by decide)
  exact (txParser_refines scratch keptByHashing_eq).process_returned hsim chunk

theorem txVisited_within_twoClauses : ∃ s s',
    TxVisited .valid .zero (twoClausesChunks.take 2).reverse .processing s ∧
      TxVisited .valid .zero twoClausesChunks.reverse .finished s' ∧
      s.env.clauses.env.entered = 2 ∧
      s.toFieldContext.InBounds ((twoClauses.drop 7).take 4) ∧
      s.env.clauses.env.clauseContext.toFieldContext.Within (twoClausesChunks.take 2).reverse ∧
      s'.toFieldContext.InBounds (twoClauses.drop 11) := by
  obtain ⟨first, s, s', hfirst, hsecond, hthird, hentered⟩ : ∃ first s s',
      processTx .valid (initTx .zero) (twoClauses.take 7) = .returned .processing first ∧
      processTx .valid first ((twoClauses.drop 7).take 4) = .returned .processing s ∧
      processTx .valid s (twoClauses.drop 11) = .returned .finished s' ∧
      s.env.clauses.env.entered = 2 :=
    ⟨_, _, _, rfl, rfl, rfl, rfl⟩
  have h := (TxVisited.initTx.processTx hfirst).processTx hsecond
  have h' := h.processTx hthird
  obtain ⟨hbounds, -, hclause, -⟩ := txVisited_within h
  obtain ⟨hbounds', -⟩ := txVisited_within h'
  exact ⟨s, s', h, h', hentered, hbounds, hclause (by rw [hentered]; decide), hbounds'⟩

end AppVechain

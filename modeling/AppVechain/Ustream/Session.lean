import AppVechain.Ustream.Refinement

/-!
# Transactions in chunks

A transaction reaches the parser in chunks, one for each command. The caller
goes on until the parser returns something else than `USTREAM_PROCESSING`.
Whatever the cuts, the session answers one run of the machine of the
transaction on all the bytes.
-/

namespace AppVechain

open Rlp Streaming

/-- What the caller uses of a parsed transaction. -/
structure TxView where
  gaspricecoef : TxInt256
  gas : TxInt256
  firstClause : ClauseContent
  clausesLength : UInt8
  dataPresent : Bool
  blake2b : List UInt8
  deriving DecidableEq

/-- What the parser holds of a transaction. -/
def TxEnv.view (env : TxEnv) : TxView where
  gaspricecoef := env.content.gaspricecoef
  gas := env.content.gas
  firstClause := env.clauses.env.firstClause
  clausesLength := env.clauses.env.content.clausesLength
  dataPresent := env.clauses.env.content.dataPresent
  blake2b := env.blake2b

/-- What the machine holds of a transaction. -/
def TxData.view (d : TxData) : TxView where
  gaspricecoef := d.content.gaspricecoef
  gas := d.content.gas
  firstClause := d.clauses.env.firstClause
  clausesLength := d.clauses.env.content.clausesLength
  dataPresent := d.clauses.env.content.dataPresent
  blake2b := d.blake2b

/-- The bytes of a chunk that a call went past. -/
def TxState.consumed (s : TxState) (chunk : List UInt8) : List UInt8 :=
  chunk.take (chunk.length - s.commandLength)

/-- Call `processTx` on chunks in order until the result is not
`USTREAM_PROCESSING`. The second component collects the bytes consumed. -/
def processTxChunks (scratch : Scratch) :
    TxState → List (List UInt8) → Result TxState × List UInt8
  | s, [] => (.returned .processing s, [])
  | s, chunk :: chunks =>
    match processTx scratch s chunk with
    | .returned .processing t =>
      ((processTxChunks scratch t chunks).1,
        t.consumed chunk ++ (processTxChunks scratch t chunks).2)
    | .returned status t => (.returned status t, t.consumed chunk)
    | .stuck e => (.stuck e, [])

/-- Related data have the same view. -/
theorem txRel_view {scratch : Scratch} {env : TxEnv} {d : TxData}
    (h : (txRel scratch).rel env d) : env.view = d.view := by
  obtain ⟨hclauses, hcontent, hhash⟩ := h
  obtain ⟨hlist, -, hfirst, -⟩ := hclauses.env
  simp only [TxEnv.view, TxData.view, hcontent, hhash, hlist, hfirst]

/-- An initialised parser is at the start of a transaction. -/
theorem initTx_sim (scratch : Scratch) {H : List UInt8 → List UInt8 → Prop} (hH : H [] [])
    (env : TxEnv) : Sim (txRules scratch) (txRelUpTo scratch H) (initTx env)
      (txStart env.clauses.env.firstClause env.content) := by
  have hclauses : Sim (clausesRules scratch) clausesRel (initClauses env.clauses.env)
      (clausesStart env.clauses.env.firstClause) :=
    ⟨rfl, ⟨rfl, rfl, rfl, fun h => absurd rfl h⟩, rfl, rfl, by decide, rfl⟩
  exact ⟨rfl, ⟨hclauses, rfl, hH⟩, rfl, rfl, by decide, rfl⟩

/-- No field of a transaction gives a byte back. -/
theorem txRules_no_unread (scratch : Scratch) :
    ¬∃ f, (txRules scratch).admits f false 1 = true ∧ (txRules scratch).skips f 1 = true := by
  rintro ⟨f, hadmits, hskips⟩
  obtain rfl : f = .content := of_decide_eq_true hskips
  cases hadmits

/-- The machine at the start of a transaction has not halted. -/
theorem txStart_halted (scratch : Scratch) (firstClause : ClauseContent) (content : TxContent) :
    (txRules scratch).machine.halted (txStart firstClause content) = false := rfl

/-- How a session answers the machine fed with the same chunks: the status, the
state and the bytes consumed agree, unless a byte is refused. -/
inductive ChunksAnswer (scratch : Scratch) : Result TxState × List UInt8 →
    Outcome UInt8 (FieldState RlpTxField TxData) × List UInt8 → Prop where
  | processing {s t bytes} : Sim (txRules scratch) (txRel scratch) s t →
      ChunksAnswer scratch (.returned .processing s, bytes) (.running t, bytes)
  | finished {s t bytes unread} : Sim (txRules scratch) (txRel scratch) s t →
      ChunksAnswer scratch (.returned .finished s, bytes) (.halted t unread, bytes)
  | fault {s bytes read} : ChunksAnswer scratch (.returned .fault s, bytes) (.refused, read)

/-- One call, with the bytes it consumes. -/
theorem processTx_cases (scratch : Scratch) {H : List UInt8 → List UInt8 → Prop}
    (hH : KeptByHashing H) {s : TxState} {t : FieldState RlpTxField TxData}
    (hsim : Sim (txRules scratch) (txRelUpTo scratch H) s t) (chunk : List UInt8) :
    match (txRules scratch).machine.run t chunk with
    | .running t' => ∃ s', processTx scratch s chunk = .returned .processing s' ∧
        Sim (txRules scratch) (txRelUpTo scratch H) s' t' ∧ s'.consumed chunk = chunk
    | .halted t' unread => ∃ s', processTx scratch s chunk = .returned .finished s' ∧
        Sim (txRules scratch) (txRelUpTo scratch H) s' t' ∧
        s'.consumed chunk = chunk.take (chunk.length - unread.length)
    | .refused => ∃ s', processTx scratch s chunk = .returned .fault s' := by
  have hanswers := (txParser_refines scratch hH).process_answers hsim chunk
  unfold processTx
  cases hrun : (txRules scratch).machine.run t chunk with
  | running t' =>
    rw [hrun] at hanswers
    generalize hresult : (txParser scratch).process s chunk = result at hanswers
    cases hanswers with
    | running hsim' hahead hstatus =>
      rename_i s' status
      obtain rfl : status = .processing := by
        obtain h | h := hstatus
        · exact h
        · exact h
      refine ⟨s', rfl, hsim', ?_⟩
      rw [TxState.consumed, ParserState.commandLength, hahead, List.length_nil, Nat.sub_zero,
        List.take_length]
  | halted t' unread =>
    rw [hrun] at hanswers
    generalize hresult : (txParser scratch).process s chunk = result at hanswers
    cases hanswers with
    | halted hsim' hahead =>
      rename_i s'
      refine ⟨s', rfl, hsim', ?_⟩
      rw [TxState.consumed, ParserState.commandLength,
        hahead.resolve_right (txRules_no_unread scratch)]
  | refused =>
    rw [hrun] at hanswers
    generalize hresult : (txParser scratch).process s chunk = result at hanswers
    cases hanswers with
    | refused => exact ⟨_, rfl⟩

/-- **A session answers the machine**, chunk by chunk. -/
theorem processTxChunks_answer (scratch : Scratch) {s : TxState}
    {t : FieldState RlpTxField TxData} (hsim : Sim (txRules scratch) (txRel scratch) s t)
    (ht : (txRules scratch).machine.halted t = false) (chunks : List (List UInt8)) :
    ChunksAnswer scratch (processTxChunks scratch s chunks)
      ((txRules scratch).machine.feed t chunks) := by
  induction chunks generalizing s t with
  | nil =>
    rw [processTxChunks, Machine.feed, Machine.run_nil ht]
    exact .processing hsim
  | cons chunk chunks ih =>
    have hcall := processTx_cases scratch keptByHashing_eq hsim chunk
    rw [processTxChunks, Machine.feed]
    cases hrun : (txRules scratch).machine.run t chunk with
    | running t' =>
      rw [hrun] at hcall
      obtain ⟨s', hprocess, hsim', hconsumed⟩ := hcall
      have hrest := ih hsim' (Machine.halted_of_run_running hrun)
      simp only [hprocess, hconsumed]
      generalize processTxChunks scratch s' chunks = session at hrest
      generalize (txRules scratch).machine.feed t' chunks = fed at hrest
      cases hrest with
      | processing hsim'' => exact .processing hsim''
      | finished hsim'' => exact .finished hsim''
      | fault => exact .fault
    | halted t' unread =>
      rw [hrun] at hcall
      obtain ⟨s', hprocess, hsim', hconsumed⟩ := hcall
      simp only [hprocess, hconsumed]
      exact .finished hsim'
    | refused =>
      rw [hrun] at hcall
      obtain ⟨s', hprocess⟩ := hcall
      simp only [hprocess]
      exact .fault

/-- A session from an initialised parser. -/
theorem processTxChunks_initTx (scratch : Scratch) (env : TxEnv) (chunks : List (List UInt8)) :
    ChunksAnswer scratch (processTxChunks scratch (initTx env) chunks)
      ((txRules scratch).machine.feed (txStart env.clauses.env.firstClause env.content) chunks) :=
  processTxChunks_answer scratch (initTx_sim scratch rfl env)
    (txStart_halted scratch env.clauses.env.firstClause env.content) chunks

/-- **A session is one run on all the bytes**: it waits, finishes or faults as the run
does, and consumes what the run reads. -/
theorem processTxChunks_run (scratch : Scratch) (env : TxEnv) (chunks : List (List UInt8)) :
    match (txRules scratch).machine.run (txStart env.clauses.env.firstClause env.content)
      chunks.flatten with
    | .running t => ∃ s, Sim (txRules scratch) (txRel scratch) s t ∧
        processTxChunks scratch (initTx env) chunks = (.returned .processing s, chunks.flatten)
    | .halted t unread => ∃ s consumed, Sim (txRules scratch) (txRel scratch) s t ∧
        processTxChunks scratch (initTx env) chunks = (.returned .finished s, consumed) ∧
        chunks.flatten = consumed ++ unread
    | .refused => ∃ s consumed,
        processTxChunks scratch (initTx env) chunks = (.returned .fault s, consumed) := by
  have hanswer := processTxChunks_initTx scratch env chunks
  obtain ⟨hverdict, hreads⟩ := (txRules scratch).machine.feed_flatten
    (txStart env.clauses.env.firstClause env.content) chunks
  generalize processTxChunks scratch (initTx env) chunks = session at hanswer ⊢
  generalize (txRules scratch).machine.feed
      (txStart env.clauses.env.firstClause env.content) chunks =
    fed at hanswer hverdict hreads
  cases hrun : (txRules scratch).machine.run (txStart env.clauses.env.firstClause env.content)
      chunks.flatten with
  | running t =>
    rw [hrun] at hverdict hreads
    cases hanswer with
    | processing hsim =>
      cases hverdict
      exact ⟨_, hsim, Prod.ext rfl (hreads (by simp))⟩
    | finished _ => cases hverdict
    | fault => cases hverdict
  | halted t unread =>
    rw [hrun] at hverdict hreads
    obtain ⟨read, hread, -⟩ := Machine.run_halted_split hrun
    cases hanswer with
    | processing _ => cases hverdict
    | finished hsim =>
      cases hverdict
      rename_i s consumed _
      have hconsumed : consumed = chunks.flatten.take (chunks.flatten.length - unread.length) :=
        hreads (by simp)
      refine ⟨s, consumed, hsim, rfl, ?_⟩
      rw [hconsumed, hread, List.length_append, Nat.add_sub_cancel, List.take_left]
    | fault => cases hverdict
  | refused =>
    rw [hrun] at hverdict
    cases hanswer with
    | processing _ => cases hverdict
    | finished _ => cases hverdict
    | fault => exact ⟨_, _, rfl⟩

/-- **The cuts of a stream do not matter**: two sessions on the same bytes end
with the same status and, unless they fault, hold and hash the same and have
consumed the same bytes. -/
theorem processTxChunks_chunking (scratch : Scratch) (env : TxEnv)
    (chunks chunks' : List (List UInt8))
    (hflatten : chunks.flatten = chunks'.flatten) :
    ∃ status s s' consumed consumed',
      processTxChunks scratch (initTx env) chunks = (.returned status s, consumed) ∧
      processTxChunks scratch (initTx env) chunks' = (.returned status s', consumed') ∧
      (status ≠ .fault → s.env.view = s'.env.view ∧ consumed = consumed') := by
  have h := processTxChunks_initTx scratch env chunks
  have h' := processTxChunks_initTx scratch env chunks'
  obtain ⟨hverdict, hread⟩ := Machine.feed_eq_of_flatten_eq (txRules scratch).machine
    (txStart env.clauses.env.firstClause env.content) hflatten
  generalize processTxChunks scratch (initTx env) chunks = session at h ⊢
  generalize processTxChunks scratch (initTx env) chunks' = session' at h' ⊢
  generalize (txRules scratch).machine.feed
      (txStart env.clauses.env.firstClause env.content) chunks =
    fed at h hverdict hread
  generalize (txRules scratch).machine.feed
      (txStart env.clauses.env.firstClause env.content) chunks' =
    fed' at h' hverdict hread
  cases h with
  | processing hsim =>
    cases h' with
    | processing hsim' =>
      cases hverdict
      exact ⟨_, _, _, _, _, rfl, rfl, fun _ =>
        ⟨(txRel_view hsim.env).trans (txRel_view hsim'.env).symm, hread (by simp)⟩⟩
    | finished _ => cases hverdict
    | fault => cases hverdict
  | finished hsim =>
    cases h' with
    | processing _ => cases hverdict
    | finished hsim' =>
      cases hverdict
      exact ⟨_, _, _, _, _, rfl, rfl, fun _ =>
        ⟨(txRel_view hsim.env).trans (txRel_view hsim'.env).symm, hread (by simp)⟩⟩
    | fault => cases hverdict
  | fault =>
    cases h' with
    | processing _ => cases hverdict
    | finished _ => cases hverdict
    | fault => exact ⟨_, _, _, _, _, rfl, rfl, fun h => absurd rfl h⟩

/-- A transaction with two clauses, the second one with data. -/
def twoClauses : List UInt8 :=
  [0xd1, 0x80, 0x80, 0x80, 0xc8, 0xc3, 0x80, 0x80, 0x80, 0xc3, 0x80, 0x80, 0x01, 0x80, 0x80, 0x80,
    0x80, 0xc0]

/-- It is cut within each of its clauses. -/
def twoClausesChunks : List (List UInt8) :=
  [twoClauses.take 7, (twoClauses.drop 7).take 4, twoClauses.drop 11]

theorem processTxChunks_chunking_twoClauses : ∃ s s',
    processTxChunks .valid (initTx .zero) twoClausesChunks =
        (.returned .finished s, twoClauses) ∧
      processTxChunks .valid (initTx .zero) [twoClauses] =
        (.returned .finished s', twoClauses) ∧
      s.env.view = s'.env.view := by
  obtain ⟨whole, hwhole⟩ : ∃ s, processTxChunks .valid (initTx .zero) [twoClauses] =
    (.returned .finished s, twoClauses) := ⟨_, rfl⟩
  obtain ⟨status, s, s', consumed, consumed', hchunks, hone, hsame⟩ :=
    processTxChunks_chunking .valid .zero twoClausesChunks [twoClauses] rfl
  rw [hwhole, Prod.mk.injEq, Result.returned.injEq] at hone
  obtain ⟨⟨rfl, rfl⟩, rfl⟩ := hone
  obtain ⟨hview, rfl⟩ := hsame ParserStatus.noConfusion
  exact ⟨s, whole, hchunks, hwhole, hview⟩

end AppVechain

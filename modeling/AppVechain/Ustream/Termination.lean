import AppVechain.Ustream.Bounds

/-!
# The parsers return

The loops of the three parsers run with a bound on their turns, and a loop that
reaches its bound has no result. In every state between two chunks, and for every
chunk, the loops end before their bounds: every turn uses up a byte, or the next
turn is the last one. The calls that the loops make of the inner parsers have a
result, or the outer call would have none.
-/

namespace AppVechain

variable {F E : Type}

/-- A loop that has ended does not depend on the bound. -/
theorem Parser.loop_mono (p : Parser F E) {n m : ℕ} {s t : ParserState F E} {status : ParserStatus}
    (h : p.loop n s = .returned status t) (hnm : n ≤ m) : p.loop m s = .returned status t := by
  induction n generalizing m s with
  | zero => cases h
  | succ n ih =>
    obtain ⟨m, rfl⟩ : ∃ k, m = k + 1 := ⟨m - 1, by omega⟩
    rw [Parser.loop] at h ⊢
    cases hturn : p.turn s with
    | inl result =>
      rw [hturn] at h
      exact h
    | inr s' =>
      rw [hturn] at h
      exact ih h (by omega)

/-- The loop of a parser ends on a chunk, at the latest in the second turn after the
last byte, and so do the loops of the parsers that it calls. -/
def Parser.Returns (p : Parser F E) (s : ParserState F E) (chunk : List UInt8) : Prop :=
  ∃ status t, p.process s chunk = .returned status t ∧
    ∀ turns, chunk.length + 2 ≤ turns →
      p.loop turns { s with workBuffer := ⟨[], chunk⟩ } = .returned status t

/-- A parser returns in a state that agrees with the machine. -/
theorem Parser.Refines.returns {A : Type} {p : Parser F E} {r : Rlp.Rules F A} {R : DataRel E A}
    (h : p.Refines r R) {s : ParserState F E} {t : Rlp.FieldState F A} (hsim : Sim r R s t)
    (chunk : List UInt8) : p.Returns s chunk := by
  obtain ⟨status, s', hprocess⟩ := h.process_returned hsim chunk
  exact ⟨status, s', hprocess, fun turns hturns => p.loop_mono hprocess hturns⟩

/-- **The parsers return**, in every state that is reached by `initTx` and calls of
`processTx` that returned `USTREAM_PROCESSING`, and for every chunk: the parser of the
transaction, that of the clause list, and that of a clause once there was one. -/
theorem txVisited_returns {scratch : Scratch} {env : TxEnv} {chunks : List (List UInt8)}
    {s : TxState} (h : TxVisited scratch env chunks .processing s) (chunk : List UInt8) :
    (txParser scratch).Returns s chunk ∧
      (clausesParser scratch).Returns s.env.clauses chunk ∧
      (s.env.clauses.env.entered ≠ 0 →
        clauseParser.Returns s.env.clauses.env.loadClause chunk) := by
  obtain ⟨t, hsim⟩ := h.sim (by decide)
  obtain ⟨hclauses, -, -⟩ := hsim.env
  obtain ⟨-, hentered, -, hclause⟩ := hclauses.env
  refine ⟨(txParser_refines scratch keptByHashing_eq).returns hsim chunk,
    (clausesParser_refines scratch).returns hclauses chunk, fun hne => ?_⟩
  exact clauseParser_refines.returns (hclause (hentered ▸ hne)).2 chunk

/-- A chunk that gives a byte back: the chain tag is encoded by itself. -/
theorem txVisited_returns_initTx :
    (txParser .valid).Returns (initTx .zero) [0xc1, 0x27] ∧
      (clausesParser .valid).Returns (initTx .zero).env.clauses [0xc1, 0x27] ∧
      ((initTx .zero).env.clauses.env.entered ≠ 0 →
        clauseParser.Returns (initTx .zero).env.clauses.env.loadClause [0xc1, 0x27]) :=
  txVisited_returns (TxVisited.initTx : TxVisited .valid .zero [] .processing _) [0xc1, 0x27]

end AppVechain

import AppVechain.Rlp.Related
import AppVechain.Ustream.Soundness

/-!
# Lists of clauses

The clause list parser counts clauses in eight bits and takes a counter of zero
for the start of the list. The clauses numbered 1, 257, 513 and so on are
therefore written over the clause that is displayed. This is described here for
lists of any length, in terms of the payloads of their clauses.
-/

namespace AppVechain

open Rlp Streaming

/-- The clause that reading a payload leaves behind, over what was there before. -/
def decodeClause (content : ClauseContent) (payload : List UInt8) : Option ClauseContent :=
  (clauseRules.machine.run (clauseStart content) payload).state?.map FieldState.env

/-- The payloads of the clauses that are entered: all complete clauses, and one that
is cut off behind its header. -/
def splitClauses (payload : List UInt8) : List (List UInt8) :=
  (splitItems payload).1.map Item.payload ++
    match readHeader (splitItems payload).2 with
    | .complete h => [(splitItems payload).2.drop h.size]
    | _ => []

/-- The clauses that are written over the displayed one, from clause `k` on. -/
def displayedPayloads : ℕ → List (List UInt8) → List (List UInt8)
  | _, [] => []
  | k, payload :: payloads =>
    if k % 256 = 0 then payload :: displayedPayloads (k + 1) payloads
    else displayedPayloads (k + 1) payloads

/-- Read payloads one after the other over the same clause. -/
def overlayClauses : ClauseContent → List (List UInt8) → Option ClauseContent
  | content, [] => some content
  | content, payload :: payloads =>
    (decodeClause content payload).bind fun content => overlayClauses content payloads

/-- Between two multiples of 256 no clause is written over the displayed one. -/
theorem displayedPayloads_eq_nil {k : ℕ} {payloads : List (List UInt8)} (hk : 0 < k)
    (hlength : k + payloads.length ≤ 256) : displayedPayloads k payloads = [] := by
  induction payloads generalizing k with
  | nil => rfl
  | cons payload payloads ih =>
    simp only [List.length_cons] at hlength
    rw [displayedPayloads, if_neg (by omega), ih (by omega) (by omega)]

/-- In a list of at most 256 clauses only the first one is displayed. -/
theorem displayedPayloads_head {payload : List UInt8} {payloads : List (List UInt8)}
    (hlength : payloads.length ≤ 255) : displayedPayloads 0 (payload :: payloads) = [payload] := by
  rw [displayedPayloads, if_pos rfl, displayedPayloads_eq_nil (by omega) (by omega)]

/-- The clauses that are written over the first one. -/
def overwritingPayloads (payloads : List (List UInt8)) : List (List UInt8) :=
  displayedPayloads 256 (payloads.drop 256)

/-- The counter of clauses, from the number of clauses. -/
structure Counted (d : ClausesData) : Prop where
  clausesLength : d.content.clausesLength = UInt8.ofNat d.entered

/-- The clauses entered so far. -/
theorem Counted.zero_iff {d : ClausesData} (h : Counted d) :
    d.content.clausesLength = 0 ↔ d.entered % 256 = 0 := by
  rw [h.clausesLength, ← UInt8.toNat_inj]
  simp

/-- A clause is counted when it is entered. -/
theorem Counted.enter {d : ClausesData} (h : Counted d) (scratch : Scratch) :
    Counted (d.enter scratch) := by
  constructor
  simp only [ClausesData.enter, h.clausesLength, UInt8.ofNat_add]
  rfl

/-- A payload that decodes to a clause is fed, and leaves that clause. -/
theorem feed_of_decodeClause {scratch : Scratch} {d : ClausesData} {payload : List UInt8}
    {content : ClauseContent}
    (h : decodeClause (d.enter scratch).clause.env payload = some content) :
    ∃ clause, (d.enter scratch).feed payload = some { d.enter scratch with clause := clause } ∧
      clause.env = content := by
  obtain ⟨clause, hstate, hclause⟩ := Option.map_eq_some_iff.mp h
  refine ⟨clause, ?_, hclause⟩
  unfold ClausesData.feed
  rw [show (d.enter scratch).clause = clauseStart (d.enter scratch).clause.env from rfl, hstate]
  rfl

/-- Feeding a clause changes the displayed clause if it is written over it. -/
theorem feed_enter {scratch : Scratch} {d e : ClausesData} (hd : Counted d) {payload : List UInt8}
    (h : (d.enter scratch).feed payload = some e) :
    Counted e ∧ e.entered = d.entered + 1 ∧
      overlayClauses d.firstClause (displayedPayloads d.entered [payload]) =
        some e.firstClause := by
  obtain ⟨clause, hstate, rfl⟩ := Option.map_eq_some_iff.mp h
  refine ⟨⟨(hd.enter scratch).clausesLength⟩, rfl, ?_⟩
  by_cases hzero : d.content.clausesLength = 0
  · have hmod := hd.zero_iff.mp hzero
    have hstart : (d.enter scratch).clause = clauseStart d.firstClause := by
      simp only [ClausesData.enter, hzero, if_true]
    have hfirst : ({ d.enter scratch with clause := clause } : ClausesData).firstClause =
        clause.env := by
      simp only [ClausesData.firstClause, ClausesData.enter, hzero, if_true, Option.getD_none]
    rw [hstart] at hstate
    rw [hfirst]
    simp only [displayedPayloads, hmod, if_true, overlayClauses, decodeClause, hstate,
      Option.map_some, Option.bind_some]
  · have hmod := mt hd.zero_iff.mpr hzero
    simp only [displayedPayloads, hmod, if_false, overlayClauses, ClausesData.firstClause,
      ClausesData.enter, hzero, Option.getD_some]

/-- Payloads can be taken apart where their numbers go on. -/
theorem displayedPayloads_append (k : ℕ) (xs ys : List (List UInt8)) :
    displayedPayloads k (xs ++ ys) =
      displayedPayloads k xs ++ displayedPayloads (k + xs.length) ys := by
  induction xs generalizing k with
  | nil => rfl
  | cons x xs ih =>
    simp only [List.cons_append, displayedPayloads, ih, List.length_cons,
      show k + 1 + xs.length = k + (xs.length + 1) by omega]
    split <;> rfl

/-- Payloads are read one after the other. -/
theorem overlayClauses_append (content : ClauseContent) (xs ys : List (List UInt8)) :
    overlayClauses content (xs ++ ys) =
      (overlayClauses content xs).bind fun content => overlayClauses content ys := by
  induction xs generalizing content with
  | nil => rfl
  | cons x xs ih =>
    simp only [List.cons_append, overlayClauses, ih]
    cases decodeClause content x <;> rfl

/-- The end of a clause changes the data flag only. -/
theorem clausesRules_finish (scratch : Scratch) (f : RlpClausesField) (length : ℕ)
    (d : ClausesData) :
    (clausesRules scratch).finish f length d =
      { d with content := { d.content with
        dataPresent := d.content.dataPresent || d.clauseDataPresent scratch } } := by
  simp only [clausesRules]
  split <;> simp_all

/-- What is known after some clauses were entered from a start. -/
structure ClausesRead (start : ClausesData) (payloads : List (List UInt8)) (d : ClausesData) :
    Prop where
  counted : Counted d
  entered : d.entered = start.entered + payloads.length
  firstClause : overlayClauses start.firstClause (displayedPayloads start.entered payloads) =
    some d.firstClause

/-- Nothing was read. -/
theorem ClausesRead.nil {d : ClausesData} (h : Counted d) : ClausesRead d [] d := ⟨h, rfl, rfl⟩

/-- One more clause. -/
theorem ClausesRead.snoc {scratch : Scratch} {start d e : ClausesData}
    {payloads : List (List UInt8)} {payload : List UInt8} (h : ClausesRead start payloads d)
    (hfeed : (d.enter scratch).feed payload = some e) :
    ClausesRead start (payloads ++ [payload]) e := by
  obtain ⟨hcounted, hentered, hfirst⟩ := feed_enter h.counted hfeed
  refine ⟨hcounted, by rw [hentered, h.entered, List.length_append]; rfl, ?_⟩
  rw [displayedPayloads_append, overlayClauses_append, h.firstClause, ← h.entered]
  exact hfirst

/-- The data flag plays no part. -/
theorem ClausesRead.finish {start d : ClausesData} {payloads : List (List UInt8)}
    (h : ClausesRead start payloads d) (scratch : Scratch) (f : RlpClausesField) (length : ℕ) :
    ClausesRead start payloads ((clausesRules scratch).finish f length d) := by
  rw [clausesRules_finish]
  exact ⟨⟨h.counted.clausesLength⟩, h.entered, h.firstClause⟩

/-- What is behind the last whole clause: at most the header of one more, with some payload. -/
theorem clausesRules_run_rest {scratch : Scratch} {d : ClausesData} {rest : List UInt8}
    (hsplit : splitItem rest = none) {s : FieldState RlpClausesField ClausesData}
    (h : ((clausesRules scratch).machine.run ⟨.clause, d, .header []⟩ rest).state? = some s) :
    (∀ hd, readHeader rest ≠ .complete hd) ∧ s.env = d ∨
      ∃ hd, readHeader rest = .complete hd ∧
        (d.enter scratch).feed (rest.drop hd.size) = some s.env := by
  by_cases hread : ∃ hd, readHeader rest = .complete hd
  · obtain ⟨hd, hread⟩ := hread
    have hne : (clausesRules scratch).machine.run ⟨.clause, d, .header []⟩ rest ≠ .refused := by
      intro hrefused
      rw [hrefused] at h
      cases h
    rw [Rules.run_cut rfl hread hsplit rfl, if_pos (admits_of_run rfl hne hread),
      clausesRules_storeAll, clausesRules_headers] at h
    right
    refine ⟨hd, hread, ?_⟩
    show ((clausesRules scratch).start .clause hd.length ((clausesRules scratch).enter d)).feed
      (rest.drop hd.size) = _
    cases hfeed : ((clausesRules scratch).start .clause hd.length
        ((clausesRules scratch).enter d)).feed (rest.drop hd.size) with
    | none =>
      rw [hfeed] at h
      cases h
    | some e =>
      rw [hfeed] at h
      cases h
      rfl
  · have hnone : ∀ hd, readHeader rest ≠ .complete hd := fun hd hcase => hread ⟨hd, hcase⟩
    rw [Rules.run_no_header rfl hnone, clausesRules_headers] at h
    left
    refine ⟨hnone, ?_⟩
    split at h <;> cases h
    rfl

/-- **Reading a list of clauses**: every clause that is entered is counted, and those
with a number of the form 256 k + 1 are written over the displayed one. -/
theorem clausesRules_run (scratch : Scratch) {start : ClausesData} {payload : List UInt8}
    {s : FieldState RlpClausesField ClausesData} (hstart : Counted start)
    (h : ((clausesRules scratch).machine.run ⟨.clause, start, .header []⟩ payload).state? =
      some s) : ClausesRead start (splitClauses payload) s.env := by
  obtain ⟨clauses, rest, rfl, hsplit⟩ := exists_items payload
  have hread (d : ClausesData) (read : List (List UInt8)) (hd : ClausesRead start read d)
      (hrun : ((clausesRules scratch).machine.run ⟨.clause, d, .header []⟩
        (itemsBytes clauses ++ rest)).state? = some s) :
      ClausesRead start (read ++ clauses.map Item.payload ++
        match readHeader rest with
        | .complete h => [rest.drop h.size]
        | _ => []) s.env := by
    clear h
    induction clauses generalizing d read with
    | nil =>
      rw [itemsBytes, List.flatMap_nil, List.nil_append] at hrun
      rw [List.map_nil, List.append_nil]
      rcases clausesRules_run_rest hsplit hrun with ⟨hnone, hs⟩ | ⟨hd', hread, hfeed⟩
      · rw [hs]
        cases hread : readHeader rest with
        | complete hd' => exact absurd hread (hnone hd')
        | incomplete =>
          rw [List.append_nil]
          exact hd
        | unsupported =>
          rw [List.append_nil]
          exact hd
      · rw [hread]
        exact hd.snoc hfeed
    | cons clause clauses ih =>
      rw [itemsBytes_cons, List.append_assoc, Rules.run_item rfl clause rfl,
        clausesRules_readItem] at hrun
      by_cases hlist : clause.isList = true
      · rw [if_pos hlist] at hrun
        cases hfeed : (d.enter scratch).feed clause.payload with
        | none =>
          rw [hfeed] at hrun
          cases hrun
        | some e =>
          rw [hfeed] at hrun
          have hnext := ih _ (read ++ [clause.payload]) ((hd.snoc hfeed).finish scratch _ _) hrun
          simpa [List.append_assoc] using hnext
      · rw [if_neg hlist] at hrun
        cases hrun
  simpa [splitClauses, splitItems_itemsBytes _ _ hsplit] using hread start [] (.nil hstart) h

/-- The value of a clause has at most 32 bytes. -/
theorem clauseRules_keeps : clauseRules.Keeps fun c => c.value.length ≤ 32 where
  header _ _ h := h
  enter _ h := h
  start f _ _ h := by cases f <;> exact h
  store f _ _ _ _ _ h hstore := by cases f <;> cases hstore <;> exact h
  finish f isList length c hadmits h := by
    cases f
    case value =>
      rw [show clauseRules.admits .value isList length = (!isList && !decide (MAX_INT256 < length))
        from rfl, Bool.and_eq_true, Bool.not_eq_true', Bool.not_eq_true', decide_eq_false_iff_not]
        at hadmits
      exact Nat.le_of_not_lt hadmits.2
    all_goals exact h

/-- So has that of a clause that was read over another one. -/
theorem overlayClauses_value_length {payloads : List (List UInt8)} {content c : ClauseContent}
    (h : overlayClauses content payloads = some c) (hcontent : content.value.length ≤ 32) :
    c.value.length ≤ 32 := by
  induction payloads generalizing content with
  | nil =>
    cases h
    exact hcontent
  | cons payload payloads ih =>
    obtain ⟨next, hdecode, hrest⟩ := Option.bind_eq_some_iff.mp h
    obtain ⟨s, hs, rfl⟩ := Option.map_eq_some_iff.mp hdecode
    have hstart : (clauseStart content).Admitted clauseRules := trivial
    exact ih hrest (clauseRules_keeps.run hcontent hstart hs)

/-- The first clause is displayed, and those are written over it that are numbered 257, 513 and so
on. -/
theorem displayedPayloads_eq (payloads : List (List UInt8)) :
    displayedPayloads 0 payloads = payloads.take 1 ++ overwritingPayloads payloads := by
  have hhead : displayedPayloads 0 (payloads.take 256) = payloads.take 1 := by
    cases payloads with
    | nil => rfl
    | cons payload payloads =>
      rw [List.take_succ_cons, displayedPayloads_head (List.length_take_le 255 payloads)]
      rfl
  conv_lhs => rw [← List.take_append_drop 256 payloads]
  rw [displayedPayloads_append, hhead, Nat.zero_add]
  obtain hshort | hlong := Nat.lt_or_ge payloads.length 256
  · rw [overwritingPayloads, List.drop_eq_nil_of_le hshort.le]
    rfl
  · rw [List.length_take, Nat.min_eq_left hlong, overwritingPayloads]

/-- The payloads of the clauses of a transaction. -/
def TxLayout.clausePayloads (l : TxLayout) : List (List UInt8) :=
  splitClauses l.items.clauses.payload

/-- **The clauses of a session that finished** on a transaction in front of other bytes: their
number is kept in eight bits, and those that are displayed were written over the clause of the
start. -/
theorem processTxChunks_clauses {scratch : Scratch} {env : TxEnv} {chunks : List (List UInt8)}
    {s : TxState} {consumed : List UInt8}
    (h : processTxChunks scratch (initTx env) chunks = (.returned .finished s, consumed))
    {l : TxLayout} {rest : List UInt8} (hl : chunks.flatten = l.bytes ++ rest) :
    s.env.view.clausesLength = UInt8.ofNat l.clausePayloads.length ∧
      overlayClauses env.clauses.env.firstClause (displayedPayloads 0 l.clausePayloads) =
        some s.env.view.firstClause := by
  obtain ⟨t, unread, hsim, -, hrun⟩ := run_of_finished h
  obtain ⟨l', hbytes, -, clauses, hclauses, henv⟩ := txRules_run_halted scratch hrun
  rw [hl] at hbytes
  obtain rfl := TxLayout.bytes_append_inj hbytes
  have hread := clausesRules_run scratch
    (show Counted (.initial env.clauses.env.firstClause) from ⟨rfl⟩) hclauses
  rw [txRel_view hsim.env, henv]
  constructor
  · show clauses.env.content.clausesLength = _
    rw [hread.counted.clausesLength, hread.entered]
    exact congrArg UInt8.ofNat (Nat.zero_add _)
  · exact hread.firstClause

end AppVechain

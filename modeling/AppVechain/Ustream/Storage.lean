import AppVechain.Ustream.Control
import AppVechain.Ustream.FieldsLayout
import Mathlib.Order.BooleanAlgebra.Basic

/-!
# Transactions in another storage

A transaction that is parsed in chunks leaves the variables of its clauses to
whatever runs in between, and a parser that is given the same bytes at once
finds another storage. Both hold the same of the transaction but for the data flag,
and this one as well if the first clause decides about it.
-/

namespace AppVechain

open Rlp Streaming

/-- The flags that are read back from a storage are at most those of another one. `M` relates the
flags that are there before a clause is read. -/
structure Scratch.Below (M : Bool → Bool → Prop) (scratch scratch' : Scratch) : Prop where
  fresh : ∀ k, M (scratch.fresh k).dataPresent (scratch'.fresh k).dataPresent
  dataPresent : ∀ k {flag flag' : Bool}, M flag flag' →
    scratch.dataPresent k flag ≤ scratch'.dataPresent k flag'

/-- What relates the flags of the clause being read: those of the displayed one are the same. -/
def ownFlags (M : Bool → Bool → Prop) : Option ClauseContent → Bool → Bool → Prop
  | none => Eq
  | some _ => M

/-- Clauses whose flags are related. -/
def FlagRel (N : Bool → Bool → Prop) (c c' : ClauseContent) : Prop := N c.dataPresent c'.dataPresent

/-- Machines of a clause list that read the same list in two storages. -/
structure FlagsRelated (M : Bool → Bool → Prop) (d e : ClausesData) : Prop where
  clause : FieldState.Related (FlagRel (ownFlags M d.saved)) d.clause e.clause
  saved : Option.Rel (FlagRel Eq) d.saved e.saved
  clausesLength : d.content.clausesLength = e.content.clausesLength
  entered : d.entered = e.entered
  flag : d.content.dataPresent ≤ e.content.dataPresent

variable {M N : Bool → Bool → Prop} {scratch scratch' : Scratch}

/-- Reading a clause keeps its flag, or sets it by its data. -/
theorem clauseRules_flags (hN : ∀ b, N b b) : clauseRules.Related clauseRules (FlagRel N) where
  isDone _ := rfl
  admits _ _ _ := rfl
  skips _ _ := rfl
  next _ := rfl
  header _ _ _ h := h
  enter _ _ h := h
  start f _ _ _ h := by
    cases f
    case data => exact hN _
    all_goals exact h
  store f _ _ _ _ _ h := by cases f <;> exact .some h
  finish f _ _ _ h := by cases f <;> exact h

/-- The flags of the displayed clause are the same. -/
theorem FlagsRelated.firstClause {d e : ClausesData} (h : FlagsRelated M d e) :
    FlagRel Eq d.firstClause e.firstClause := by
  have hsaved := h.saved
  have hclause := h.clause.env
  unfold ClausesData.firstClause
  generalize d.saved = saved at hsaved hclause ⊢
  generalize e.saved = saved' at hsaved ⊢
  cases hsaved with
  | none => exact hclause
  | some hsame => exact hsame

/-- Entering a clause. -/
theorem FlagsRelated.enter {d e : ClausesData} (h : FlagsRelated M d e)
    (hbelow : scratch.Below M scratch') : FlagsRelated M (d.enter scratch) (e.enter scratch') := by
  have hfirst := h.firstClause
  unfold ClausesData.enter
  rw [← h.clausesLength, ← h.entered]
  by_cases hzero : d.content.clausesLength = 0
  · simp only [hzero, if_true]
    exact ⟨⟨rfl, rfl, hfirst⟩, .none, rfl, rfl, h.flag⟩
  · simp only [hzero, if_false]
    exact ⟨⟨rfl, rfl, hbelow.fresh d.entered⟩, .some hfirst, rfl, rfl, h.flag⟩

/-- Reading bytes of a clause. -/
theorem FlagsRelated.feed (hM : ∀ b, M b b) {d e : ClausesData} (h : FlagsRelated M d e)
    (bytes : List UInt8) : Option.Rel (FlagsRelated M) (d.feed bytes) (e.feed bytes) := by
  have hown : ∀ b, ownFlags M d.saved b b := by
    cases d.saved with
    | none => exact fun _ => rfl
    | some _ => exact hM
  have hrun := outcome_state_related ((clauseRules_flags hown).run h.clause bytes)
  unfold ClausesData.feed
  generalize (clauseRules.machine.run d.clause bytes).state? = state at hrun
  generalize (clauseRules.machine.run e.clause bytes).state? = state' at hrun
  cases hrun with
  | some hstate => exact .some ⟨hstate, h.saved, h.clausesLength, h.entered, h.flag⟩
  | none => exact .none

/-- The end of a clause. -/
theorem FlagsRelated.finish {d e : ClausesData} (h : FlagsRelated M d e)
    (hbelow : scratch.Below M scratch') (f : RlpClausesField) (length : ℕ) :
    FlagsRelated M ((clausesRules scratch).finish f length d)
      ((clausesRules scratch').finish f length e) := by
  have hread : d.clauseDataPresent scratch ≤ e.clauseDataPresent scratch' := by
    have hsaved := h.saved
    have hclause := h.clause.env
    unfold ClausesData.clauseDataPresent
    rw [← h.entered]
    generalize d.saved = saved at hsaved hclause ⊢
    generalize e.saved = saved' at hsaved ⊢
    cases hsaved with
    | none => exact le_of_eq hclause
    | some => exact hbelow.dataPresent d.entered hclause
  rw [clausesRules_finish, clausesRules_finish]
  exact ⟨h.clause, h.saved, h.clausesLength, h.entered, sup_le_sup h.flag hread⟩

/-- **Reading a list in two storages**: the flag in the lower one is at most that in the other. -/
theorem clausesRules_flags (hM : ∀ b, M b b) (hbelow : scratch.Below M scratch') :
    (clausesRules scratch).Related (clausesRules scratch') (FlagsRelated M) where
  isDone _ := rfl
  admits _ _ _ := rfl
  skips _ _ := rfl
  next _ := rfl
  header _ _ _ h := h
  enter _ _ h := h.enter hbelow
  start _ _ _ _ h := h
  store _ _ _ b _ _ h := h.feed hM [b]
  finish f length _ _ h := h.finish hbelow f length

/-- The end of a list that was read in two storages. -/
theorem clausesRules_run_le (hM : ∀ b, M b b) (hbelow : scratch.Below M scratch')
    (firstClause : ClauseContent) {payload : List UInt8}
    {s s' : FieldState RlpClausesField ClausesData}
    (hs : ((clausesRules scratch).machine.run (clausesStart firstClause) payload).state? = some s)
    (hs' : ((clausesRules scratch').machine.run (clausesStart firstClause) payload).state? =
      some s') : s.env.content.dataPresent ≤ s'.env.content.dataPresent := by
  have hstart : FieldState.Related (FlagsRelated M) (clausesStart firstClause)
      (clausesStart firstClause) := by
    refine ⟨rfl, rfl, ⟨rfl, rfl, ?_⟩, .some rfl, rfl, rfl, le_rfl⟩
    exact hM _
  have hrun := outcome_state_related ((clausesRules_flags hM hbelow).run hstart payload)
  rw [hs, hs'] at hrun
  cases hrun with
  | some hrelated => exact hrelated.env.flag

/-- The same flags are there before a clause is read, and are read back. -/
structure Scratch.Alike (scratch scratch' : Scratch) : Prop where
  fresh : ∀ k, (scratch.fresh k).dataPresent = (scratch'.fresh k).dataPresent
  dataPresent : scratch.SameFlags scratch'

/-- Storages that are alike are below each other. -/
theorem Scratch.Alike.below (h : scratch.Alike scratch') : scratch.Below Eq scratch' where
  fresh := h.fresh
  dataPresent k flag _ hflag := by
    subst hflag
    exact (h.dataPresent k flag).le

/-- The other way round. -/
theorem Scratch.Alike.symm (h : scratch.Alike scratch') : scratch'.Alike scratch :=
  ⟨fun k => (h.fresh k).symm, fun k flag => (h.dataPresent k flag).symm⟩

/-- Any storage is below one in which all flags are found set, and above one in which none is. -/
theorem Scratch.below_stale (scratch : Scratch) : scratch.Below (fun _ _ => True) (.stale true) :=
  ⟨fun _ => trivial, fun _ _ _ _ => Bool.le_true _⟩

theorem Scratch.stale_below (scratch : Scratch) :
    (Scratch.stale false).Below (fun _ _ => True) scratch :=
  ⟨fun _ => trivial, fun _ _ _ _ => Bool.false_le _⟩

/-- A flag that is set stays so. -/
theorem clausesRules_keeps_flag (scratch : Scratch) :
    (clausesRules scratch).Keeps fun d => d.content.dataPresent = true where
  header _ _ h := h
  enter _ h := h
  start _ _ _ h := h
  store _ _ _ _ _ _ h hstore := by
    obtain ⟨_, -, rfl⟩ := Option.map_eq_some_iff.mp hstore
    exact h
  finish f _ length d _ h := by
    rw [clausesRules_finish]
    exact Bool.or_eq_true_iff.mpr (.inl h)

/-- What is no whole clause leaves the flag. -/
theorem clausesRules_run_rest_flag {d : ClausesData} {rest : List UInt8}
    (hsplit : splitItem rest = none) {s : FieldState RlpClausesField ClausesData}
    (h : ((clausesRules scratch).machine.run ⟨.clause, d, .header []⟩ rest).state? = some s) :
    s.env.content.dataPresent = d.content.dataPresent := by
  rcases clausesRules_run_rest hsplit h with ⟨-, hs⟩ | ⟨hd, -, hfeed⟩
  · rw [hs]
  · obtain ⟨clause, -, hs⟩ := Option.map_eq_some_iff.mp hfeed
    rw [← hs]
    rfl

/-- In a list of clauses there is no second one, or the first one has data. -/
def FirstDecides (payload : List UInt8) : Prop :=
  (splitClauses payload).length ≤ 1 ∨ ∃ first ∈ (splitClauses payload).head?,
    ∃ c, decodeClause .zero first = some c ∧ c.dataPresent = true

/-- The flag of the first clause, if it is whole. -/
def firstFlag (payload : List UInt8) : Bool :=
  ((splitItems payload).1.head?.bind fun i => decodeClause .zero i.payload).elim false
    ClauseContent.dataPresent

/-- The first clause is the one that is displayed, and sets the flag to its own. -/
theorem clausesRules_first_flag {payload : List UInt8} {e : ClausesData}
    (h : ((ClausesData.initial .zero).enter scratch).feed payload = some e) :
    ∃ clause, decodeClause .zero payload = some clause ∧
      ((clausesRules scratch).finish .clause payload.length e).content.dataPresent =
        clause.dataPresent := by
  obtain ⟨clause, hclause, rfl⟩ := Option.map_eq_some_iff.mp h
  refine ⟨clause.env, congrArg (Option.map FieldState.env) hclause, ?_⟩
  rw [clausesRules_finish]
  exact Bool.false_or _

/-- **The first clause decides**: whatever the storage, the flag of the list is its own. -/
theorem clausesRules_run_decided {payload : List UInt8} (hdecides : FirstDecides payload)
    {s : FieldState RlpClausesField ClausesData}
    (h : ((clausesRules scratch).machine.run (clausesStart .zero) payload).state? = some s) :
    s.env.content.dataPresent = firstFlag payload := by
  obtain ⟨clauses, rest, rfl, hsplit⟩ := exists_items payload
  have hitems := splitItems_itemsBytes clauses rest hsplit
  unfold FirstDecides splitClauses at hdecides
  unfold firstFlag
  rw [hitems] at hdecides ⊢
  cases clauses with
  | nil =>
    rw [itemsBytes, List.flatMap_nil, List.nil_append] at h
    exact clausesRules_run_rest_flag hsplit h
  | cons i clauses =>
    rw [itemsBytes_cons, List.append_assoc, clausesStart, Rules.run_item rfl i rfl,
      clausesRules_readItem] at h
    by_cases hlist : i.isList = true
    case neg =>
      rw [if_neg hlist] at h
      cases h
    rw [if_pos hlist] at h
    cases hfeed : ((ClausesData.initial .zero).enter scratch).feed i.payload with
    | none =>
      rw [hfeed] at h
      cases h
    | some e =>
      obtain ⟨clause, hdecode, hone⟩ := clausesRules_first_flag hfeed
      rw [hfeed] at h
      show _ = ((some i).bind fun i => decodeClause .zero i.payload).elim false _
      rw [Option.bind_some, hdecode]
      show _ = clause.dataPresent
      by_cases hset : clause.dataPresent = true
      · rw [hset] at hone ⊢
        exact (clausesRules_keeps_flag scratch).run (s := ⟨.clause, _, .header []⟩) hone trivial h
      · have hnil : clauses = [] := by
          rcases hdecides with hlength | ⟨first, hfirst, c, hc, hdata⟩
          · rw [List.map_cons, List.cons_append, List.length_cons, List.length_append,
              List.length_map] at hlength
            exact List.eq_nil_of_length_eq_zero (by omega)
          · cases hfirst
            rw [hdecode] at hc
            cases hc
            exact absurd hdata hset
        subst hnil
        rw [itemsBytes, List.flatMap_nil, List.nil_append] at h
        exact (clausesRules_run_rest_flag hsplit h).trans hone

/-- A list that is read in one storage is read in another one. -/
theorem exists_clauses (scratch' : Scratch) (firstClause : ClauseContent) {payload : List UInt8}
    {s : FieldState RlpClausesField ClausesData}
    (h : ((clausesRules scratch).machine.run (clausesStart firstClause) payload).state? = some s) :
    ∃ s', ((clausesRules scratch').machine.run (clausesStart firstClause) payload).state? =
      some s' := by
  have hstart : SameClauses (clausesStart firstClause) (clausesStart firstClause) :=
    ⟨rfl, rfl, rfl, rfl, trivial⟩
  have hrun := outcome_state_related
    ((clausesRules_related scratch scratch').run hstart payload)
  rw [h] at hrun
  generalize ((clausesRules scratch').machine.run (clausesStart firstClause) payload).state? =
    state at hrun ⊢
  cases hrun with
  | some => exact ⟨_, rfl⟩

/-- In a transaction at the front of the bytes there is no second clause, or the first one has
data. -/
def FlagDecided (bytes : List UInt8) : Prop :=
  ∀ l : TxLayout, l.bytes <+: bytes → FirstDecides l.items.clauses.payload

/-- It is enough that this holds of the transaction itself. -/
theorem TxLayout.flagDecided {l : TxLayout} (h : FirstDecides l.items.clauses.payload) :
    FlagDecided l.bytes := by
  rintro l' ⟨rest, hrest⟩
  rw [← List.append_nil l.bytes] at hrest
  rwa [TxLayout.bytes_append_inj hrest]

/-- A flag that is settled by the fields of the clauses is decided by the first one. -/
theorem FieldsLayout.FlagSettled.flagDecided {l : FieldsLayout} (h : l.FlagSettled) :
    FlagDecided l.bytes := by
  have hcarry := l.carry
  apply TxLayout.flagDecided
  rw [FirstDecides, l.clauses_payload, splitClauses_itemsBytes, List.length_map,
    ← hcarry.length_eq]
  refine h.imp_right ?_
  rintro ⟨f, hf, hdata⟩
  obtain ⟨others, hfields⟩ := List.head?_eq_some_iff.mp hf
  rw [hfields] at hcarry
  obtain ⟨i, items, hi, -, hitems⟩ := List.forall₂_cons_left_iff.mp hcarry
  refine ⟨i.payload, by rw [hitems]; rfl, _, hi.decode .zero, ?_⟩
  simpa [ClauseContent.fill] using hdata

/-- **A transaction in another storage**: the same is held of it but for the data flag. -/
theorem txRules_run_storage {content : TxContent} {xs unread : List UInt8}
    {t : FieldState RlpTxField TxData}
    (h : (txRules scratch).machine.run (txStart .zero content) xs = .halted t unread)
    (scratch' : Scratch) :
    ∃ t', (txRules scratch').machine.run (txStart .zero content) xs = .halted t' unread ∧
      t'.env.view = { t.env.view with dataPresent := t'.env.view.dataPresent } ∧
      (FlagDecided xs → t'.env.view.dataPresent = t.env.view.dataPresent) ∧
      ∀ M : Bool → Bool → Prop, (∀ b, M b b) →
        (scratch.Below M scratch' → t.env.view.dataPresent ≤ t'.env.view.dataPresent) ∧
        (scratch'.Below M scratch → t'.env.view.dataPresent ≤ t.env.view.dataPresent) := by
  obtain ⟨l, rfl, hadmitted, clauses, hclauses, henv⟩ := txRules_run_halted scratch h
  obtain ⟨clauses', hclauses'⟩ := exists_clauses scratch' .zero hclauses
  obtain ⟨t', hrun', henv'⟩ :=
    txRules_run_layout scratch' .zero content l hadmitted hclauses' unread
  have hcounted : Counted (.initial .zero) := ⟨rfl⟩
  have hread := clausesRules_run scratch hcounted hclauses
  have hread' := clausesRules_run scratch' hcounted hclauses'
  refine ⟨t', hrun', ?_, ?_, ?_⟩
  · have hfirst : clauses'.env.firstClause = clauses.env.firstClause :=
      Option.some.inj (hread'.firstClause.symm.trans hread.firstClause)
    have hlength : clauses'.env.content.clausesLength = clauses.env.content.clausesLength := by
      rw [hread'.counted.clausesLength, hread.counted.clausesLength, hread'.entered, hread.entered]
    rw [henv, henv']
    show (⟨_, _, clauses'.env.firstClause, clauses'.env.content.clausesLength, _, _⟩ : TxView) = _
    rw [hfirst, hlength]
    rfl
  · intro hdecided
    have hdecides := hdecided l (List.prefix_append _ _)
    rw [henv, henv']
    exact (clausesRules_run_decided hdecides hclauses').trans
      (clausesRules_run_decided hdecides hclauses).symm
  · intro M hM
    rw [henv, henv']
    exact ⟨fun hbelow => clausesRules_run_le hM hbelow .zero hclauses hclauses',
      fun hbelow => clausesRules_run_le hM hbelow .zero hclauses' hclauses⟩

/-- A data flag that was found is found again in a storage where all flags are found so. -/
theorem txRules_run_found {content : TxContent} {xs unread : List UInt8}
    {t : FieldState RlpTxField TxData}
    (h : (txRules scratch).machine.run (txStart .zero content) xs = .halted t unread) :
    ∃ t', (txRules (.stale t.env.view.dataPresent)).machine.run (txStart .zero content) xs =
      .halted t' unread ∧ t'.env.view = t.env.view := by
  obtain ⟨t', hrun, hview, -, hbelow⟩ := txRules_run_storage h (.stale t.env.view.dataPresent)
  obtain ⟨hle, hge⟩ := hbelow (fun _ _ => True) fun _ => trivial
  refine ⟨t', hrun, ?_⟩
  have hflag : t'.env.view.dataPresent = t.env.view.dataPresent := by
    cases hfound : t.env.view.dataPresent with
    | true =>
      rw [hfound] at hle
      exact Bool.eq_true_of_true_le (hle scratch.below_stale)
    | false =>
      rw [hfound] at hge
      exact Bool.eq_false_of_le_false (hge scratch.stale_below)
  rw [hview, hflag]

/-- A parser that was just initialised, and the run of its machine. -/
theorem processTx_fresh (scratch : Scratch) (bytes : List UInt8) :
    match (txRules scratch).machine.run (txStart .zero .zero) bytes with
    | .running _ => ∃ tx, processTx scratch (initTx .zero) bytes = .returned .processing tx
    | .halted t unread => ∃ tx,
        processTx scratch (initTx .zero) bytes = .returned .finished tx ∧
        tx.env.view = t.env.view ∧ tx.consumed bytes = bytes.take (bytes.length - unread.length)
    | .refused => ∃ tx, processTx scratch (initTx .zero) bytes = .returned .fault tx := by
  have hcases := processTx_cases scratch keptByHashing_eq (initTx_sim scratch rfl .zero) bytes
  rw [show txStart TxEnv.zero.clauses.env.firstClause TxEnv.zero.content =
    txStart .zero .zero from rfl] at hcases
  cases hrun : (txRules scratch).machine.run (txStart .zero .zero) bytes with
  | running t =>
    rw [hrun] at hcases
    obtain ⟨tx, hprocess, -⟩ := hcases
    exact ⟨tx, hprocess⟩
  | halted t unread =>
    rw [hrun] at hcases
    obtain ⟨tx, hprocess, hsim, hconsumed⟩ := hcases
    exact ⟨tx, hprocess, txRel_view hsim.env, hconsumed⟩
  | refused =>
    rw [hrun] at hcases
    exact hcases

/-- The run of a parser that finished. -/
theorem halted_of_finished {bytes : List UInt8} {tx : TxState}
    (h : processTx scratch (initTx .zero) bytes = .returned .finished tx) :
    ∃ t unread, (txRules scratch).machine.run (txStart .zero .zero) bytes = .halted t unread ∧
      tx.env.view = t.env.view ∧ tx.consumed bytes = bytes.take (bytes.length - unread.length) := by
  have hfresh := processTx_fresh scratch bytes
  rw [h] at hfresh
  cases hrun : (txRules scratch).machine.run (txStart .zero .zero) bytes with
  | running t =>
    rw [hrun] at hfresh
    obtain ⟨_, hprocess⟩ := hfresh
    cases hprocess
  | refused =>
    rw [hrun] at hfresh
    obtain ⟨_, hprocess⟩ := hfresh
    cases hprocess
  | halted t unread =>
    rw [hrun] at hfresh
    obtain ⟨_, hprocess, hview, hconsumed⟩ := hfresh
    cases hprocess
    exact ⟨t, unread, rfl, hview, hconsumed⟩

/-- A run that halts is one of a parser that finishes. -/
theorem finished_of_halted {bytes unread : List UInt8} {t : FieldState RlpTxField TxData}
    (h : (txRules scratch).machine.run (txStart .zero .zero) bytes = .halted t unread) :
    ∃ tx, processTx scratch (initTx .zero) bytes = .returned .finished tx ∧
      tx.env.view = t.env.view ∧
      tx.consumed bytes = bytes.take (bytes.length - unread.length) := by
  have hfresh := processTx_fresh scratch bytes
  rwa [h] at hfresh

/-- **A parser that reads the same bytes in another storage**: it ends alike, and holds the same
but for the data flag, which is the same if the first clause decides about it or the storages are
alike. -/
theorem processTx_storage {bytes : List UInt8} {tx : TxState}
    (h : processTx scratch (initTx .zero) bytes = .returned .finished tx) (scratch' : Scratch) :
    ∃ tx', processTx scratch' (initTx .zero) bytes = .returned .finished tx' ∧
      tx'.consumed bytes = tx.consumed bytes ∧
      tx'.env.view = { tx.env.view with dataPresent := tx'.env.view.dataPresent } ∧
      (FlagDecided bytes ∨ scratch.Alike scratch' →
        tx'.env.view.dataPresent = tx.env.view.dataPresent) := by
  obtain ⟨t, unread, hrun, hview, hconsumed⟩ := halted_of_finished h
  obtain ⟨t', hrun', hview', hdecided, hbelow⟩ := txRules_run_storage hrun scratch'
  obtain ⟨tx', hprocess', htx', hconsumed'⟩ := finished_of_halted hrun'
  refine ⟨tx', hprocess', hconsumed'.trans hconsumed.symm, ?_, ?_⟩
  · rw [htx', hview', hview]
  · rw [htx', hview]
    rintro (hfirst | halike)
    · exact hdecided hfirst
    · obtain ⟨hle, hge⟩ := hbelow Eq fun _ => rfl
      exact le_antisymm (hge halike.symm.below) (hle halike.below)

/-- **Parsers that read the same bytes in two storages** return the same status. -/
theorem processTx_status (scratch scratch' : Scratch) (bytes : List UInt8) :
    ∃ status tx tx', processTx scratch (initTx .zero) bytes = .returned status tx ∧
      processTx scratch' (initTx .zero) bytes = .returned status tx' ∧
      (status = .finished → FlagDecided bytes → tx'.env.view = tx.env.view) := by
  have hfresh := processTx_fresh scratch bytes
  have hfresh' := processTx_fresh scratch' bytes
  have hrelated := txRules_run_related scratch scratch' .zero .zero .zero .zero bytes
  cases hrun : (txRules scratch).machine.run (txStart .zero .zero) bytes with
  | running t =>
    rw [hrun] at hfresh hrelated
    generalize (txRules scratch').machine.run (txStart .zero .zero) bytes = out at hfresh' hrelated
    cases hrelated
    obtain ⟨tx, hprocess⟩ := hfresh
    obtain ⟨tx', hprocess'⟩ := hfresh'
    exact ⟨_, tx, tx', hprocess, hprocess', ParserStatus.noConfusion⟩
  | halted t unread =>
    rw [hrun] at hfresh
    obtain ⟨tx, hprocess, -⟩ := hfresh
    obtain ⟨tx', hprocess', -, hview, hflag⟩ := processTx_storage hprocess scratch'
    refine ⟨_, tx, tx', hprocess, hprocess', fun _ hdecided => ?_⟩
    rw [hview, hflag (.inl hdecided)]
  | refused =>
    rw [hrun] at hfresh hrelated
    generalize (txRules scratch').machine.run (txStart .zero .zero) bytes = out at hfresh' hrelated
    cases hrelated
    obtain ⟨tx, hprocess⟩ := hfresh
    obtain ⟨tx', hprocess'⟩ := hfresh'
    exact ⟨_, tx, tx', hprocess, hprocess', ParserStatus.noConfusion⟩

/-- **The data flag that was found, found again**: nothing else of the storage matters, and the flag
does not where the first clause decides about it. -/
theorem processTx_stale {bytes : List UInt8} {tx : TxState}
    (h : processTx scratch (initTx .zero) bytes = .returned .finished tx) {found : Bool}
    (hfound : FlagDecided bytes ∨ found = tx.env.view.dataPresent) :
    ∃ tx', processTx (.stale found) (initTx .zero) bytes = .returned .finished tx' ∧
      tx'.env.view = tx.env.view := by
  rcases hfound with hdecided | rfl
  · obtain ⟨tx', hprocess', -, hview, hflag⟩ := processTx_storage h (.stale found)
    refine ⟨tx', hprocess', ?_⟩
    rw [hview, hflag (.inl hdecided)]
  · obtain ⟨t, unread, hrun, hview, -⟩ := halted_of_finished h
    obtain ⟨t', hrun', hview'⟩ := txRules_run_found hrun
    obtain ⟨tx', hprocess', htx', -⟩ := finished_of_halted hrun'
    rw [hview]
    exact ⟨tx', hprocess', htx'.trans hview'⟩

end AppVechain

import AppVechain.Ustream.Simulation
import AppVechain.Ustream.Tx

/-!
# What the three parsers compute

Each parser is described by rules for the byte machine: which items its fields
admit, and what their bytes do to the data that is kept. A clause list feeds the
bytes of a clause to the machine of the clause, a transaction feeds the bytes of
the list to the machine of the list. The parsers refine these machines whatever
their contexts held before, so a session is a run of `txRules` on its bytes.
-/

namespace AppVechain

open Rlp Streaming

/-- Data that a parser and its machine share. -/
def DataRel.eq {E : Type} : DataRel E E := ⟨Eq, fun _ => True⟩

/-- The fields of a clause. -/
def clauseRules : Rules RlpClauseField ClauseContent where
  isDone field := field = .done
  header _ content := content
  enter content := content
  admits
    | .toAddress, isList, length => !isList && !decide (MAX_ADDRESS < length)
    | .value, isList, length => !isList && !decide (MAX_INT256 < length)
    | .data, isList, _ => !isList
    | _, _, _ => false
  skips field length := field = .data && length ≠ 68
  start
    | .data, length, content => { content with dataPresent := length ≠ 0 }
    | _, _, content => content
  store
    | .toAddress, _, pos, b, content =>
      some { content with toAddress := writeBytes content.toAddress pos [b] }
    | .value, _, pos, b, content =>
      some { content with
        value := { content.value with value := writeBytes content.value.value pos [b] } }
    | .data, _, pos, b, content => some { content with data := writeBytes content.data pos [b] }
    | _, _, _, _, content => some content
  finish
    | .toAddress, length, content => { content with toLength := length }
    | .value, length, content => { content with value := { content.value with length := length } }
    | _, _, content => content
  next := RlpClauseField.succ

/-- The start of a clause. -/
def clauseStart (content : ClauseContent) : FieldState RlpClauseField ClauseContent :=
  ⟨.toAddress, content, .header []⟩

/-- What is kept of a clause list. -/
structure ClausesData where
  /-- The clause being read. -/
  clause : FieldState RlpClauseField ClauseContent
  /-- The clause that is displayed, while another one is being read. -/
  saved : Option ClauseContent
  content : ClausesContent
  entered : ℕ

/-- The clause that is displayed. -/
def ClausesData.firstClause (d : ClausesData) : ClauseContent := d.saved.getD d.clause.env

/-- Before the first clause. -/
def ClausesData.initial (firstClause : ClauseContent) : ClausesData where
  clause := ⟨.done, .zero, .header []⟩
  saved := some firstClause
  content := ⟨0, false⟩
  entered := 0

/-- The header of a clause starts the machine of the clause. -/
def ClausesData.enter (scratch : Scratch) (d : ClausesData) : ClausesData :=
  { content := { d.content with clausesLength := d.content.clausesLength + 1 }
    entered := d.entered + 1
    clause := clauseStart
      (if d.content.clausesLength = 0 then d.firstClause else scratch.fresh d.entered)
    saved := if d.content.clausesLength = 0 then none else some d.firstClause }

/-- Bytes of a clause. What follows the fields of a clause is ignored. -/
def ClausesData.feed (bytes : List UInt8) (d : ClausesData) : Option ClausesData :=
  (clauseRules.machine.run d.clause bytes).state?.map fun clause => { d with clause := clause }

/-- The data flag as it is read at the end of a clause. -/
def ClausesData.clauseDataPresent (scratch : Scratch) (d : ClausesData) : Bool :=
  match d.saved with
  | none => d.clause.env.dataPresent
  | some _ => scratch.dataPresent d.entered d.clause.env.dataPresent

/-- The fields of a clause list, which are all clauses. -/
def clausesRules (scratch : Scratch) : Rules RlpClausesField ClausesData where
  isDone _ := false
  header _ d := d
  enter := ClausesData.enter scratch
  admits field isList _ := field = .clause && isList
  skips _ _ := false
  start _ _ d := d
  store _ _ _ b d := d.feed [b]
  finish _ _ d :=
    if d.clauseDataPresent scratch then { d with content := { d.content with dataPresent := true } }
    else d
  next field := field

/-- The start of a clause list. -/
def clausesStart (firstClause : ClauseContent) : FieldState RlpClausesField ClausesData :=
  ⟨.clause, .initial firstClause, .header []⟩

/-- What is kept of a transaction. -/
structure TxData where
  clauses : FieldState RlpClausesField ClausesData
  content : TxContent
  blake2b : List UInt8

/-- Bytes are hashed, except for a single byte, which was hashed as a header. -/
def TxData.hash (single : Bool) (bytes : List UInt8) (d : TxData) : TxData :=
  if single then d else { d with blake2b := d.blake2b ++ bytes }

/-- Bytes of the clause list. -/
def TxData.feed (scratch : Scratch) (bytes : List UInt8) (d : TxData) : Option TxData :=
  ((clausesRules scratch).machine.run d.clauses bytes).state?.map fun clauses =>
    { d with clauses := clauses }

/-- What the fields of a transaction do with a block of bytes, the hash aside. -/
def TxData.keep (scratch : Scratch) (field : RlpTxField) (pos : ℕ) (bytes : List UInt8)
    (d : TxData) : Option TxData :=
  match field with
  | .clauses => d.feed scratch bytes
  | .gasPriceCoef => some { d with content := { d.content with
      gaspricecoef := { d.content.gaspricecoef with
        value := writeBytes d.content.gaspricecoef.value pos bytes } } }
  | .gas => some { d with content := { d.content with
      gas := { d.content.gas with value := writeBytes d.content.gas.value pos bytes } } }
  | _ => some d

/-- The fields of a transaction. The first one is the header of the outer list. -/
def txRules (scratch : Scratch) : Rules RlpTxField TxData where
  isDone field := field = .done
  header b d := d.hash false [b]
  enter d := d
  admits
    | .content, isList, _ => isList
    | .chainTag, isList, length => !isList && !decide (MAX_INT32 < length)
    | .blockRef, isList, length => !isList && !decide (MAX_INT64 < length)
    | .expiration, isList, length => !isList && !decide (MAX_INT32 < length)
    | .clauses, isList, _ => isList
    | .gasPriceCoef, isList, length => !isList && !decide (MAX_INT8 < length)
    | .gas, isList, length => !isList && !decide (MAX_INT64 < length)
    | .dependsOn, isList, length => !isList && !decide (MAX_INT256 < length)
    | .nonce, isList, length => !isList && !decide (MAX_INT64 < length)
    | .reserved, isList, _ => isList
    | _, _, _ => false
  skips field _ := field = .content
  start _ _ d := d
  store field single pos b d := (d.keep scratch field pos [b]).map (TxData.hash single [b])
  finish
    | .gasPriceCoef, length, d => { d with content := { d.content with
        gaspricecoef := { d.content.gaspricecoef with length := length } } }
    | .gas, length, d => { d with content := { d.content with
        gas := { d.content.gas with length := length } } }
    | _, _, d => d
  next := RlpTxField.succ

/-- The start of a transaction, over what is left of an earlier one. -/
def txStart (firstClause : ClauseContent) (content : TxContent) : FieldState RlpTxField TxData :=
  ⟨.content, ⟨clausesStart firstClause, content, []⟩, .header []⟩

/-- `memmove` within the bounds. -/
theorem memmove_eq {n : ℕ} (out : Vector UInt8 n) {pos : ℕ} {bytes : List UInt8}
    (h : pos + bytes.length ≤ n) : memmove out pos bytes = .ok (writeBytes out pos bytes) :=
  if_pos h

/-- Bytes of the address are written as a block. -/
theorem clauseRules_storeAll_toAddress (single : Bool) (pos : ℕ) (bytes : List UInt8)
    (content : ClauseContent) :
    clauseRules.storeAll .toAddress single pos bytes content =
      some { content with toAddress := writeBytes content.toAddress pos bytes } :=
  Rules.storeAll_block (fun pos bytes (content : ClauseContent) =>
    some { content with toAddress := writeBytes content.toAddress pos bytes })
    (fun _ _ => rfl) (fun _ _ _ _ => rfl) pos bytes content

/-- Bytes of the value are written as a block. -/
theorem clauseRules_storeAll_value (single : Bool) (pos : ℕ) (bytes : List UInt8)
    (content : ClauseContent) :
    clauseRules.storeAll .value single pos bytes content =
      some { content with value := { content.value with
        value := writeBytes content.value.value pos bytes } } :=
  Rules.storeAll_block (fun pos bytes (content : ClauseContent) =>
    some { content with value := { content.value with
      value := writeBytes content.value.value pos bytes } })
    (fun _ _ => rfl) (fun _ _ _ _ => rfl) pos bytes content

/-- Bytes of the data are written as a block. -/
theorem clauseRules_storeAll_data (single : Bool) (pos : ℕ) (bytes : List UInt8)
    (content : ClauseContent) :
    clauseRules.storeAll .data single pos bytes content =
      some { content with data := writeBytes content.data pos bytes } :=
  Rules.storeAll_block (fun pos bytes (content : ClauseContent) =>
    some { content with data := writeBytes content.data pos bytes })
    (fun _ _ => rfl) (fun _ _ _ _ => rfl) pos bytes content

/-- The recipient is read as the rules say. -/
theorem processToField_handled {s : ClauseState} (hfield : s.currentField = .toAddress)
    (hproc : s.processingField = true) (hpos : s.currentFieldPos ≤ s.currentFieldLength) :
    Handled clauseRules DataRel.eq s s.env (processToField s) := by
  refine processField_handled hproc hpos rfl (by simp [clauseRules, hfield])
    (by simp [clauseRules, hfield]) (by simp [clauseRules, hfield]) ?_ (fun _ _ _ => trivial) ?_
  · intro hmax bytes hbytes
    have hle : s.currentFieldLength ≤ MAX_ADDRESS := by simpa using hmax
    rw [hfield, clauseRules_storeAll_toAddress]
    exact ⟨_, rfl, congrArg (Exec.map _) (memmove_eq s.env.toAddress (hbytes.trans hle))⟩
  · intro t a' htfield htlength hR _
    obtain rfl : t.env = a' := hR
    rw [← htlength, ← htfield, htfield.trans hfield]
    exact ⟨{ t.env with toLength := t.currentFieldLength }, rfl, by
      dsimp only
      rw [htfield.trans hfield]
      rfl⟩

/-- The value is read as the rules say. -/
theorem processValueField_handled {s : ClauseState} (hfield : s.currentField = .value)
    (hproc : s.processingField = true) (hpos : s.currentFieldPos ≤ s.currentFieldLength) :
    Handled clauseRules DataRel.eq s s.env (processValueField s) := by
  refine processField_handled hproc hpos rfl (by simp [clauseRules, hfield])
    (by simp [clauseRules, hfield]) (by simp [clauseRules, hfield]) ?_ (fun _ _ _ => trivial) ?_
  · intro hmax bytes hbytes
    have hle : s.currentFieldLength ≤ MAX_INT256 := by simpa using hmax
    rw [hfield, clauseRules_storeAll_value]
    exact ⟨_, rfl, congrArg (Exec.map _) (memmove_eq s.env.value.value (hbytes.trans hle))⟩
  · intro t a' htfield htlength hR _
    obtain rfl : t.env = a' := hR
    rw [← htlength, ← htfield, htfield.trans hfield]
    exact ⟨{ t.env with value := { t.env.value with length := t.currentFieldLength } }, rfl, by
      dsimp only
      rw [htfield.trans hfield]
      rfl⟩

/-- What `processDataField` does with data that is kept. -/
private def dataSpec : FieldSpec RlpClauseField ClauseContent where
  isList := false
  maxLength := none
  use bytes s :=
    (memmove s.env.data s.currentFieldPos bytes).map fun data => { s.env with data := data }
  finish s := { s with currentField := s.currentField.succ }

/-- The data are read as the rules say. -/
theorem processDataField_handled {s : ClauseState} (hfield : s.currentField = .data)
    (hproc : s.processingField = true) (hpos : s.currentFieldPos ≤ s.currentFieldLength) :
    Handled clauseRules DataRel.eq s s.env (processDataField s) := by
  by_cases hlist : s.currentFieldIsList = true
  · simp only [Handled, hfield, clauseRules, hlist, processDataField, Bool.not_true,
      Bool.false_eq_true, if_false, if_true]
    exact ⟨s, rfl⟩
  have hlist' : s.currentFieldIsList = false := by simpa using hlist
  by_cases hlength : s.currentFieldLength = 68
  swap
  · simp only [Handled, hfield, clauseRules, hlist', processDataField, hlength, ne_eq,
      not_false_eq_true, decide_true, Bool.and_self, Bool.not_false, Bool.false_eq_true, if_false,
      if_true]
    exact ⟨_, s.dataLength, rfl, rfl⟩
  · -- The flag is set again on every call.
    let s₁ : ClauseState := { s with env := { s.env with dataPresent := s.currentFieldLength ≠ 0 } }
    have hstart : clauseRules.start s.currentField s.currentFieldLength s.env = s₁.env := by
      rw [hfield]
      rfl
    have hbody : processDataField s = processField dataSpec s₁ := by
      simp only [processDataField, processField, dataSpec, hlist', hlength, s₁, Bool.false_eq_true,
        if_false, if_true, ne_eq, not_true_eq_false, Option.any_none]
    have hhandled : Handled clauseRules DataRel.eq s₁ s₁.env (processField dataSpec s₁) := by
      refine processField_handled (s := s₁) hproc hpos rfl
        (by simp [clauseRules, s₁, hfield, hlist', dataSpec])
        (by simp [clauseRules, s₁, hfield, hlength]) (by simp [clauseRules, s₁, hfield]) ?_
        (fun _ _ _ => trivial) ?_
      · intro _ bytes hbytes
        rw [show s₁.currentField = .data from hfield, clauseRules_storeAll_data]
        exact ⟨_, rfl, congrArg (Exec.map _)
          (memmove_eq s₁.env.data (hbytes.trans (Nat.le_of_eq hlength)))⟩
      · intro t a' htfield htlength hR _
        obtain rfl : t.env = a' := hR
        rw [← htlength, ← htfield, htfield.trans hfield]
        exact ⟨t.env, rfl, by
          dsimp only [dataSpec]
          rw [htfield.trans hfield]
          rfl⟩
    have hagain : clauseRules.start s.currentField s.currentFieldLength s₁.env = s₁.env := by
      rw [hfield]
      rfl
    rw [hbody]
    simp only [Handled] at hhandled ⊢
    rw [hstart]
    rw [show clauseRules.start s₁.currentField s₁.currentFieldLength s₁.env = s₁.env from hagain]
      at hhandled
    exact hhandled

/-- **The clause parser refines its machine.** -/
theorem clauseParser_refines : clauseParser.Refines clauseRules DataRel.eq where
  isDone := rfl
  read _ _ _ _ h := h
  enter s a h := ⟨s.env, rfl, h⟩
  ready_enter _ := trivial
  ready_start _ _ _ _ := trivial
  ready_store _ _ _ _ _ _ _ _ := trivial
  handle s a hf hproc hpos hR _ := by
    obtain rfl : s.env = a := hR
    cases hfield : s.currentField with
    | none =>
      simp only [Handled, hfield, clauseRules, clauseParser, Bool.false_eq_true, if_false]
      exact ⟨s, rfl⟩
    | done => simp [clauseRules, hfield] at hf
    | toAddress =>
      simp only [clauseParser, hfield]
      exact processToField_handled hfield hproc hpos
    | value =>
      simp only [clauseParser, hfield]
      exact processValueField_handled hfield hproc hpos
    | data =>
      simp only [clauseParser, hfield]
      exact processDataField_handled hfield hproc hpos
  start_start f length a := by cases f <;> rfl
  start_store f length single pos b a a' hstart hstore := by
    cases f with
    | data =>
      cases hstore
      have hflag : decide (length ≠ 0) = a.dataPresent := congrArg ClauseContent.dataPresent hstart
      simp only [clauseRules, hflag]
    | none => rfl
    | toAddress => rfl
    | value => rfl
    | done => rfl
  skips_single f _ hskips := by
    cases f <;> simp_all [clauseRules, RlpClauseField.succ]

/-- Feeding no bytes changes nothing. -/
theorem ClausesData.feed_nil (d : ClausesData) : d.feed [] = some d := by
  simp only [ClausesData.feed, Machine.state?_run_nil, Option.map_some]

/-- Bytes can be fed one after the other. -/
theorem ClausesData.feed_append (d : ClausesData) (xs ys : List UInt8) :
    d.feed (xs ++ ys) = (d.feed xs).bind (ClausesData.feed ys) := by
  simp only [ClausesData.feed, Machine.state?_run_append]
  cases (clauseRules.machine.run d.clause xs).state? <;> rfl

/-- Bytes of a clause are fed as a block. -/
theorem clausesRules_storeAll (scratch : Scratch) (f : RlpClausesField) (single : Bool) (pos : ℕ)
    (bytes : List UInt8) (d : ClausesData) :
    (clausesRules scratch).storeAll f single pos bytes d = d.feed bytes :=
  Rules.storeAll_block (r := clausesRules scratch) (fun _ bytes (d : ClausesData) => d.feed bytes)
    (fun _ d => d.feed_nil) (fun _ b bs d => d.feed_append [b] bs) pos bytes d

/-- What the clause list parser reaches, related to what is kept of it. The
clause parser holds a clause from the first header on. -/
def clausesRel : DataRel ClausesEnv ClausesData where
  rel env d :=
    env.content = d.content ∧ env.entered = d.entered ∧ env.firstClause = d.firstClause ∧
      (d.entered ≠ 0 →
        env.clauseContext.env = (if d.saved.isNone then .firstClause else .tmpContent) ∧
        Sim clauseRules DataRel.eq env.loadClause d.clause)
  ready d := d.entered ≠ 0

/-- The clause parser and its clause, after they were put back. -/
theorem ClausesEnv.loadClause_storeClause (env : ClausesEnv) (s : ClauseState) :
    (env.storeClause s).loadClause = s := by
  unfold ClausesEnv.storeClause
  cases env.clauseContext.env <;> rfl

/-- The clause parser keeps writing to the same clause. -/
theorem ClausesEnv.ref_storeClause (env : ClausesEnv) (s : ClauseState) :
    (env.storeClause s).clauseContext.env = env.clauseContext.env := by
  unfold ClausesEnv.storeClause
  cases h : env.clauseContext.env <;> rfl

/-- Putting a clause back keeps the data related. -/
theorem clausesRel_storeClause {env : ClausesEnv} {d : ClausesData} (h : clausesRel.rel env d)
    (hready : clausesRel.ready d) {s : ClauseState}
    {clause : FieldState RlpClauseField ClauseContent}
    (hsim : Sim clauseRules DataRel.eq s clause) :
    clausesRel.rel (env.storeClause s) { d with clause := clause } := by
  obtain ⟨hcontent, hentered, hfirst, hclause⟩ := h
  obtain ⟨href, -⟩ := hclause hready
  have hs : s.env = clause.env := hsim.env
  refine ⟨?_, ?_, ?_, fun _ => ⟨?_, ?_⟩⟩
  · unfold ClausesEnv.storeClause
    cases env.clauseContext.env <;> exact hcontent
  · unfold ClausesEnv.storeClause
    cases env.clauseContext.env <;> exact hentered
  · unfold ClausesEnv.storeClause
    cases hsaved : d.saved with
    | none =>
      rw [hsaved] at href
      rw [href]
      exact hs
    | some first =>
      rw [hsaved] at href
      rw [href]
      simp only [ClausesData.firstClause, hsaved] at hfirst
      exact hfirst
  · rw [ClausesEnv.ref_storeClause, href]
  · rw [ClausesEnv.loadClause_storeClause]
    exact hsim

/-- The bytes of a clause are parsed as they are fed. -/
theorem copyClausesData_rel {s : ClausesState} {d : ClausesData} (h : clausesRel.rel s.env d)
    (hready : clausesRel.ready d) (bytes : List UInt8) :
    Stored clausesRel (d.feed bytes) (copyClausesData bytes s) := by
  obtain ⟨-, hsim⟩ := h.2.2.2 hready
  have hanswers := (clauseParser_refines.process_answers hsim bytes).of_state (by decide)
  unfold copyClausesData processClause ClausesData.feed
  cases hstate : (clauseRules.machine.run d.clause bytes).state? with
  | none =>
    rw [hstate] at hanswers
    obtain ⟨t, ht⟩ := hanswers
    rw [ht]
    exact ⟨_, rfl⟩
  | some clause =>
    rw [hstate] at hanswers
    obtain ⟨status, t, hstatus, hsim', ht⟩ := hanswers
    rw [ht]
    refine ⟨_, clausesRel_storeClause h hready hsim', ?_⟩
    cases status with
    | fault => exact absurd rfl hstatus
    | processing => rfl
    | finished => rfl

/-- An initialised clause parser is at the start of a clause. -/
theorem initClause_sim (content : ClauseContent) :
    Sim clauseRules DataRel.eq (initClause content) (clauseStart content) :=
  ⟨rfl, rfl, rfl, rfl, by decide, rfl⟩

/-- The header of a clause starts the clause parser as it starts the machine. -/
theorem enterClause_rel (scratch : Scratch) {s : ClausesState} {d : ClausesData}
    (h : clausesRel.rel s.env d) :
    ∃ env, enterClause scratch s = { s with env := env } ∧
      clausesRel.rel env (d.enter scratch) := by
  obtain ⟨hcontent, hentered, hfirst, -⟩ := h
  refine ⟨_, rfl, ?_⟩
  by_cases hzero : d.content.clausesLength = 0
  · simp only [hcontent, hzero, if_true]
    refine ⟨by simp only [ClausesData.enter, hzero], congrArg (· + 1) hentered,
      ?_, fun _ => ⟨?_, ?_⟩⟩
    · simpa only [ClausesData.enter, ClausesData.firstClause, hzero, if_true, clauseStart,
        Option.getD_none] using hfirst
    · simp only [ClausesData.enter, hzero, if_true, Option.isNone_none]
      rfl
    · simp only [ClausesData.enter, hzero, if_true]
      rw [← hfirst]
      exact initClause_sim s.env.firstClause
  · simp only [hcontent, hzero, if_false]
    refine ⟨rfl, congrArg (· + 1) hentered, ?_, fun _ => ⟨?_, ?_⟩⟩
    · simpa only [ClausesData.enter, ClausesData.firstClause, hzero, if_false,
        Option.getD_some] using hfirst
    · simp only [ClausesData.enter, hzero, if_false, Option.isNone_some]
      rfl
    · simp only [ClausesData.enter, hzero, if_false]
      rw [← hentered]
      exact initClause_sim (scratch.fresh s.env.entered)

/-- The data flag is read from the clause that is being read. -/
theorem clauseDataPresent_eq (scratch : Scratch) {env : ClausesEnv} {d : ClausesData}
    (h : clausesRel.rel env d) (hready : clausesRel.ready d) :
    env.clauseDataPresent scratch = d.clauseDataPresent scratch := by
  obtain ⟨-, hentered, hfirst, hclause⟩ := h
  obtain ⟨href, hsim⟩ := hclause hready
  have henv : env.loadClause.env = d.clause.env := hsim.env
  unfold ClausesEnv.loadClause at henv
  cases hsaved : d.saved with
  | none =>
    rw [hsaved] at href
    rw [href] at henv
    simp only [ClausesEnv.clauseDataPresent, ClausesData.clauseDataPresent, hsaved, href,
      Option.isNone_none, if_true]
    exact congrArg ClauseContent.dataPresent henv
  | some first =>
    rw [hsaved] at href
    rw [href] at henv
    simp only [ClausesEnv.clauseDataPresent, ClausesData.clauseDataPresent, hsaved, href,
      Option.isNone_some, Bool.false_eq_true, if_false, hentered]
    exact congrArg (fun c => scratch.dataPresent d.entered c.dataPresent) henv

/-- **The clause list parser refines its machine.** -/
theorem clausesParser_refines (scratch : Scratch) :
    (clausesParser scratch).Refines (clausesRules scratch) clausesRel where
  isDone := rfl
  read _ _ _ _ h := h
  enter _ _ h := enterClause_rel scratch h
  ready_enter _ := Nat.succ_ne_zero _
  ready_start _ _ _ h := h
  ready_store f single pos b d d' hready hstore := by
    obtain ⟨clause, -, rfl⟩ := Option.map_eq_some_iff.mp hstore
    exact hready
  handle s d _ hproc hpos hR hready := by
    cases hfield : s.currentField with
    | none =>
      simp only [Handled, hfield, clausesRules, clausesParser]
      exact ⟨s, rfl⟩
    | done =>
      simp only [Handled, hfield, clausesRules, clausesParser]
      exact ⟨s, rfl⟩
    | clause =>
      simp only [clausesParser, hfield]
      refine processField_handled hproc hpos hR (by simp [clausesRules, hfield]) rfl rfl ?_ ?_ ?_
      · intro _ bytes _
        rw [clausesRules_storeAll]
        exact copyClausesData_rel hR hready bytes
      · intro bytes d' hstore
        rw [clausesRules_storeAll] at hstore
        obtain ⟨clause, -, rfl⟩ := Option.map_eq_some_iff.mp hstore
        exact hready
      · intro t d' htfield _ hR' hready'
        obtain ⟨hcontent, hrest⟩ := hR'
        simp only [clauseDataPresent_eq scratch ⟨hcontent, hrest⟩ hready', clausesRules, ← htfield]
        by_cases hflag : d'.clauseDataPresent scratch = true
        · rw [if_pos hflag, if_pos hflag]
          exact ⟨{ t.env with content := { t.env.content with dataPresent := true } },
            ⟨by simp only [hcontent], hrest⟩, rfl⟩
        · rw [if_neg hflag, if_neg hflag]
          exact ⟨t.env, ⟨hcontent, hrest⟩, rfl⟩
  start_start _ _ _ := rfl
  start_store _ _ _ _ _ _ _ _ _ := rfl
  skips_single _ _ h := by cases h

/-- A relation of hash transcripts that hashing the same bytes keeps. -/
def KeptByHashing (H : List UInt8 → List UInt8 → Prop) : Prop :=
  ∀ xs ys bytes, H xs ys → H (xs ++ bytes) (ys ++ bytes)

/-- Hashing the same bytes keeps equal transcripts equal. -/
theorem keptByHashing_eq : KeptByHashing Eq := fun _ _ bytes h => congrArg (· ++ bytes) h

/-- Any transcripts are related by no condition. -/
theorem keptByHashing_true : KeptByHashing fun _ _ => True := fun _ _ _ _ => trivial

/-- What the transaction parser reaches, related to what is kept of it, with the
hash transcripts related by `H`. -/
def txRelUpTo (scratch : Scratch) (H : List UInt8 → List UInt8 → Prop) : DataRel TxEnv TxData where
  rel env d :=
    Sim (clausesRules scratch) clausesRel env.clauses d.clauses ∧ env.content = d.content ∧
      H env.blake2b d.blake2b
  ready _ := True

/-- What the transaction parser reaches, related to what is kept of it. -/
abbrev txRel (scratch : Scratch) : DataRel TxEnv TxData := txRelUpTo scratch Eq

/-- Bytes can be fed one after the other. -/
theorem TxData.feed_append (scratch : Scratch) (d : TxData) (xs ys : List UInt8) :
    d.feed scratch (xs ++ ys) = (d.feed scratch xs).bind (TxData.feed scratch ys) := by
  simp only [TxData.feed, Machine.state?_run_append]
  cases ((clausesRules scratch).machine.run d.clauses xs).state? <;> rfl

/-- Hashing no bytes changes nothing. -/
theorem TxData.hash_nil (single : Bool) (d : TxData) : d.hash single [] = d := by
  cases single
  · simp only [TxData.hash, List.append_nil, Bool.false_eq_true, if_false]
  · rfl

/-- Bytes can be hashed one after the other. -/
theorem TxData.hash_cons (single : Bool) (b : UInt8) (bs : List UInt8) (d : TxData) :
    d.hash single (b :: bs) = (d.hash single [b]).hash single bs := by
  cases single
  · simp only [TxData.hash, Bool.false_eq_true, if_false, List.append_assoc, List.singleton_append]
  · rfl

/-- Keeping no bytes changes nothing. -/
theorem TxData.keep_nil (scratch : Scratch) (f : RlpTxField) (pos : ℕ) (d : TxData) :
    d.keep scratch f pos [] = some d := by
  cases f <;> rfl

/-- Bytes can be kept one after the other. -/
theorem TxData.keep_cons (scratch : Scratch) (f : RlpTxField) (pos : ℕ) (b : UInt8)
    (bs : List UInt8) (d : TxData) :
    d.keep scratch f pos (b :: bs) =
      (d.keep scratch f pos [b]).bind (TxData.keep scratch f (pos + 1) bs) := by
  cases f <;> first | rfl | exact d.feed_append scratch [b] bs

/-- The hash plays no part in what is kept. -/
theorem TxData.keep_hash (scratch : Scratch) (f : RlpTxField) (single : Bool) (pos : ℕ)
    (xs ys : List UInt8) (d : TxData) :
    (d.hash single xs).keep scratch f pos ys =
      (d.keep scratch f pos ys).map (TxData.hash single xs) := by
  cases single
  · cases f <;> first | rfl | skip
    simp only [TxData.hash, TxData.keep, TxData.feed, Bool.false_eq_true, if_false, Option.map_map]
    rfl
  · exact (Option.map_id' ..).symm

/-- Bytes of a field are kept and hashed as a block. -/
theorem txRules_storeAll (scratch : Scratch) (f : RlpTxField) (single : Bool) (pos : ℕ)
    (bytes : List UInt8) (d : TxData) :
    (txRules scratch).storeAll f single pos bytes d =
      (d.keep scratch f pos bytes).map (TxData.hash single bytes) := by
  refine Rules.storeAll_block (r := txRules scratch) (fun pos bytes (d : TxData) =>
    (d.keep scratch f pos bytes).map (TxData.hash single bytes)) (fun pos d => ?_)
    (fun pos b bs d => ?_) pos bytes d
  · simp only [TxData.keep_nil, Option.map_some, TxData.hash_nil]
  · simp only [txRules, TxData.keep_cons scratch f pos b bs]
    cases d.keep scratch f pos [b] with
    | none => rfl
    | some d' =>
      simp only [Option.bind_some, Option.map_some, TxData.keep_hash, Option.map_map]
      congr 1
      funext d''
      exact TxData.hash_cons single b bs d''

/-- Hashing keeps the data related. -/
theorem txRel_hash (scratch : Scratch) {H : List UInt8 → List UInt8 → Prop}
    (hH : KeptByHashing H) {s : TxState} (hproc : s.processingField = true)
    (bytes : List UInt8) {env : TxEnv} {d : TxData} (h : (txRelUpTo scratch H).rel env d) :
    (txRelUpTo scratch H).rel (hashTx bytes s env) (d.hash s.fieldSingleByte bytes) := by
  obtain ⟨hclauses, hcontent, hhash⟩ := h
  unfold hashTx TxData.hash
  rw [hproc, Bool.true_and]
  by_cases hsingle : s.fieldSingleByte = true
  · rw [if_pos hsingle, if_pos hsingle]
    exact ⟨hclauses, hcontent, hhash⟩
  · rw [if_neg hsingle, if_neg hsingle]
    exact ⟨hclauses, hcontent, hH _ _ bytes hhash⟩

/-- A field that is hashed after it was kept, by rules that keep the same. -/
theorem keptField_handled (scratch : Scratch) {H : List UInt8 → List UInt8 → Prop}
    (hH : KeptByHashing H) {s : TxState} {d : TxData}
    {spec : FieldSpec RlpTxField TxEnv} {f : RlpTxField} (hfield : s.currentField = f)
    (hproc : s.processingField = true) (hpos : s.currentFieldPos ≤ s.currentFieldLength)
    (hR : (txRelUpTo scratch H).rel s.env d)
    {out : List UInt8 → TxState → Exec TxEnv} (huse : spec.use = copyTxData out)
    (finish : ℕ → TxEnv → TxEnv)
    (hspec : ∀ t, spec.finish t = nextTxField { t with env := finish t.currentFieldLength t.env })
    (hskips : f ≠ .content)
    (hkeep : spec.maxLength.any (· < s.currentFieldLength) = false → ∀ bytes : List UInt8,
      s.currentFieldPos + bytes.length ≤ s.currentFieldLength →
      ∃ env d', d.keep scratch f s.currentFieldPos bytes = some d' ∧ out bytes s = .ok env ∧
        (txRelUpTo scratch H).rel env d')
    (hfinish : ∀ length env d', (txRelUpTo scratch H).rel env d' →
      (txRelUpTo scratch H).rel (finish length env) ((txRules scratch).finish f length d'))
    (hadmits : ∀ isList length, (txRules scratch).admits f isList length =
      (isList == spec.isList && !spec.maxLength.any (· < length))) :
    Handled (txRules scratch) (txRelUpTo scratch H) s d (processField spec s) := by
  subst hfield
  refine processField_handled hproc hpos hR (hadmits _ _) (decide_eq_false hskips) rfl ?_
    (fun _ _ _ => trivial) ?_
  · intro hmax bytes hbytes
    obtain ⟨env, d', hd', hout, hkept⟩ := hkeep hmax bytes hbytes
    rw [txRules_storeAll, hd', huse]
    exact ⟨_, txRel_hash scratch hH hproc bytes hkept, congrArg (Exec.map _) hout⟩
  · intro t d' htfield htlength hR' _
    rw [hspec, nextTxField, ← htlength]
    dsimp only
    rw [htfield]
    exact ⟨_, hfinish _ _ _ hR', rfl⟩

/-- A field that is hashed and not kept. -/
theorem hashedField_handled (scratch : Scratch) {H : List UInt8 → List UInt8 → Prop}
    (hH : KeptByHashing H) {s : TxState} {d : TxData}
    {spec : FieldSpec RlpTxField TxEnv} {f : RlpTxField} (hfield : s.currentField = f)
    (hproc : s.processingField = true) (hpos : s.currentFieldPos ≤ s.currentFieldLength)
    (hR : (txRelUpTo scratch H).rel s.env d) (huse : spec.use = copyTxDataNull)
    (hspec : spec.finish = nextTxField) (hskips : f ≠ .content)
    (hkeep : ∀ pos bytes, d.keep scratch f pos bytes = some d)
    (hfinish : ∀ length d, (txRules scratch).finish f length d = d)
    (hadmits : ∀ isList length, (txRules scratch).admits f isList length =
      (isList == spec.isList && !spec.maxLength.any (· < length))) :
    Handled (txRules scratch) (txRelUpTo scratch H) s d (processField spec s) := by
  refine keptField_handled scratch hH hfield hproc hpos hR huse (fun _ env => env)
    (fun t => by rw [hspec]) hskips ?_ ?_ hadmits
  · intro _ bytes _
    exact ⟨s.env, d, hkeep _ bytes, rfl, hR⟩
  · intro length env d' hR'
    rw [hfinish]
    exact hR'

/-- The clause list is fed to its parser. -/
theorem processClausesField_handled (scratch : Scratch) {H : List UInt8 → List UInt8 → Prop}
    (hH : KeptByHashing H) {s : TxState} {d : TxData}
    (hfield : s.currentField = .clauses) (hproc : s.processingField = true)
    (hpos : s.currentFieldPos ≤ s.currentFieldLength) (hR : (txRelUpTo scratch H).rel s.env d) :
    Handled (txRules scratch) (txRelUpTo scratch H) s d (processClausesField scratch s) := by
  refine processField_handled hproc hpos hR (by simp [txRules, hfield])
    (by simp [txRules, hfield]) rfl ?_ (fun _ _ _ => trivial) ?_
  · intro _ bytes _
    rw [txRules_storeAll, hfield]
    have hanswers := ((clausesParser_refines scratch).process_answers hR.1 bytes).of_state
      (by simp [clausesParser])
    simp only [TxData.keep, TxData.feed, copyTxDataClauses, processClauses]
    cases hstate : ((clausesRules scratch).machine.run d.clauses bytes).state? with
    | none =>
      rw [hstate] at hanswers
      obtain ⟨t, ht⟩ := hanswers
      rw [ht]
      exact ⟨_, rfl⟩
    | some clauses =>
      rw [hstate] at hanswers
      obtain ⟨status, t, hstatus, hsim, ht⟩ := hanswers
      rw [ht]
      have hR' : (txRelUpTo scratch H).rel { s.env with clauses := t }
        { d with clauses := clauses } :=
        ⟨hsim, hR.2⟩
      refine ⟨_, txRel_hash scratch hH hproc bytes hR', ?_⟩
      cases status with
      | fault => exact absurd rfl hstatus
      | processing => rfl
      | finished => rfl
  · intro t d' htfield _ hR' _
    rw [← htfield, htfield.trans hfield]
    refine ⟨t.env, hR', ?_⟩
    dsimp only [nextTxField]
    rw [htfield.trans hfield]
    rfl

/-- The gas price coefficient is written as the rules say. -/
theorem processGasPriceCoefField_handled (scratch : Scratch) {H : List UInt8 → List UInt8 → Prop}
    (hH : KeptByHashing H) {s : TxState} {d : TxData}
    (hfield : s.currentField = .gasPriceCoef) (hproc : s.processingField = true)
    (hpos : s.currentFieldPos ≤ s.currentFieldLength) (hR : (txRelUpTo scratch H).rel s.env d) :
    Handled (txRules scratch) (txRelUpTo scratch H) s d (processGasPriceCoefField s) := by
  refine keptField_handled scratch hH hfield hproc hpos hR rfl
    (fun length env => { env with content := { env.content with
      gaspricecoef := { env.content.gaspricecoef with length := length } } })
    (fun _ => rfl) (by decide) ?_ ?_ (fun isList length => by simp [txRules])
  · intro hmax bytes hbytes
    have hle : s.currentFieldLength ≤ MAX_INT8 := by simpa using hmax
    have hroom : s.currentFieldPos + bytes.length ≤ 32 := hbytes.trans (hle.trans (by decide))
    obtain ⟨hclauses, hcontent, hhash⟩ := hR
    refine ⟨_, _, rfl, congrArg (Exec.map _) (memmove_eq _ hroom), hclauses, ?_, hhash⟩
    simp only [hcontent]
  · rintro length env d' ⟨hclauses, hcontent, hhash⟩
    refine ⟨hclauses, ?_, hhash⟩
    simp only [hcontent, txRules]

/-- The gas limit is written as the rules say. -/
theorem processGasField_handled (scratch : Scratch) {H : List UInt8 → List UInt8 → Prop}
    (hH : KeptByHashing H) {s : TxState} {d : TxData}
    (hfield : s.currentField = .gas) (hproc : s.processingField = true)
    (hpos : s.currentFieldPos ≤ s.currentFieldLength) (hR : (txRelUpTo scratch H).rel s.env d) :
    Handled (txRules scratch) (txRelUpTo scratch H) s d (processGasField s) := by
  refine keptField_handled scratch hH hfield hproc hpos hR rfl
    (fun length env => { env with content := { env.content with
      gas := { env.content.gas with length := length } } })
    (fun _ => rfl) (by decide) ?_ ?_ (fun isList length => by simp [txRules])
  · intro hmax bytes hbytes
    have hle : s.currentFieldLength ≤ MAX_INT64 := by simpa using hmax
    have hroom : s.currentFieldPos + bytes.length ≤ 32 := hbytes.trans (hle.trans (by decide))
    obtain ⟨hclauses, hcontent, hhash⟩ := hR
    refine ⟨_, _, rfl, congrArg (Exec.map _) (memmove_eq _ hroom), hclauses, ?_, hhash⟩
    simp only [hcontent]
  · rintro length env d' ⟨hclauses, hcontent, hhash⟩
    refine ⟨hclauses, ?_, hhash⟩
    simp only [hcontent, txRules]

/-- **The transaction parser refines its machine.** -/
theorem txParser_refines (scratch : Scratch) {H : List UInt8 → List UInt8 → Prop}
    (hH : KeptByHashing H) :
    (txParser scratch).Refines (txRules scratch) (txRelUpTo scratch H) where
  isDone := rfl
  read b s d hproc h := by
    obtain ⟨hclauses, hcontent, hhash⟩ := h
    refine ⟨?_, ?_, ?_⟩ <;>
      simp only [txParser, hashTx, hproc, Bool.false_and, Bool.false_eq_true, if_false]
    · exact hclauses
    · exact hcontent
    · exact hH _ _ [b] hhash
  enter s _ h := ⟨s.env, rfl, h⟩
  ready_enter _ := trivial
  ready_start _ _ _ _ := trivial
  ready_store _ _ _ _ _ _ _ _ := trivial
  handle s d hf hproc hpos hR _ := by
    cases hfield : s.currentField with
    | none =>
      simp only [Handled, hfield, txRules, txParser]
      exact ⟨s, rfl⟩
    | done => simp [txRules, hfield] at hf
    | content =>
      simp only [Handled, hfield, txRules, txParser, processContent]
      by_cases hlist : s.currentFieldIsList = true
      · simp only [hlist, decide_true, Bool.not_true, Bool.false_eq_true, if_true, if_false]
        exact ⟨s.env, s.currentFieldLength, hR, rfl⟩
      · simp only [hlist, Bool.not_false, Bool.false_eq_true, if_true, if_false]
        exact ⟨s, rfl⟩
    | chainTag =>
      simp only [txParser, hfield]
      exact hashedField_handled scratch hH hfield hproc hpos hR rfl rfl (by decide)
        (fun _ _ => rfl) (fun _ _ => rfl) (fun isList length => by simp [txRules])
    | blockRef =>
      simp only [txParser, hfield]
      exact hashedField_handled scratch hH hfield hproc hpos hR rfl rfl (by decide)
        (fun _ _ => rfl) (fun _ _ => rfl) (fun isList length => by simp [txRules])
    | expiration =>
      simp only [txParser, hfield]
      exact hashedField_handled scratch hH hfield hproc hpos hR rfl rfl (by decide)
        (fun _ _ => rfl) (fun _ _ => rfl) (fun isList length => by simp [txRules])
    | clauses =>
      simp only [txParser, hfield]
      exact processClausesField_handled scratch hH hfield hproc hpos hR
    | gasPriceCoef =>
      simp only [txParser, hfield]
      exact processGasPriceCoefField_handled scratch hH hfield hproc hpos hR
    | gas =>
      simp only [txParser, hfield]
      exact processGasField_handled scratch hH hfield hproc hpos hR
    | dependsOn =>
      simp only [txParser, hfield]
      exact hashedField_handled scratch hH hfield hproc hpos hR rfl rfl (by decide)
        (fun _ _ => rfl) (fun _ _ => rfl) (fun isList length => by simp [txRules])
    | nonce =>
      simp only [txParser, hfield]
      exact hashedField_handled scratch hH hfield hproc hpos hR rfl rfl (by decide)
        (fun _ _ => rfl) (fun _ _ => rfl) (fun isList length => by simp [txRules])
    | reserved =>
      simp only [txParser, hfield]
      exact hashedField_handled scratch hH hfield hproc hpos hR rfl rfl (by decide)
        (fun _ _ => rfl) (fun _ _ => rfl) (fun isList length => by simp [txRules])
  start_start _ _ _ := rfl
  start_store _ _ _ _ _ _ _ _ _ := rfl
  skips_single f hadmits hskips := by
    cases f <;> simp_all [txRules]

end AppVechain

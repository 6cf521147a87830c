import AppVechain.Ustream.RoundTrip

/-!
# The data flag of a list of clauses

The flag of a transaction is set at the end of every clause whose own flag is
read as set. The flag of the first clause is in a global variable. Those of the
others are in a variable of a block that was left when the header of the clause
was decoded, so what is read there is up to the storage.
-/

namespace AppVechain

open Rlp Streaming

/-- An item of a clause list that leaves the data flag `flag` in its clause. -/
def Flagged (flag : Bool) (i : Item) : Prop :=
  i.isList = true ∧ ∀ content, ∃ c, decodeClause content i.payload = some c ∧ c.dataPresent = flag

/-- The flags as they are read at the ends of the clauses, from clause `k` on. -/
def readFlags (scratch : Scratch) : ℕ → List Bool → List Bool
  | _, [] => []
  | k, flag :: flags =>
    (if k % 256 = 0 then flag else scratch.dataPresent (k + 1) flag) ::
      readFlags scratch (k + 1) flags

/-- One clause: the flag is set when that of the clause is read as set. -/
theorem clausesRules_run_flagged (scratch : Scratch) {flag : Bool} {i : Item} (hi : Flagged flag i)
    {d : ClausesData} (hd : Counted d) (rest : List UInt8) :
    ∃ e, (clausesRules scratch).machine.run ⟨.clause, d, .header []⟩ (i.bytes ++ rest) =
        (clausesRules scratch).machine.run ⟨.clause, e, .header []⟩ rest ∧
      Counted e ∧ e.entered = d.entered + 1 ∧
      e.content.dataPresent = (d.content.dataPresent ||
        if d.entered % 256 = 0 then flag else scratch.dataPresent (d.entered + 1) flag) := by
  obtain ⟨hlist, hdecode⟩ := hi
  obtain ⟨c, hstart, hflag⟩ := hdecode (d.enter scratch).clause.env
  obtain ⟨clause, hfeed, hclause⟩ := feed_of_decodeClause hstart
  obtain ⟨hcounted, hentered, -⟩ := feed_enter hd hfeed
  have hread : ({ d.enter scratch with clause := clause } : ClausesData).clauseDataPresent scratch =
      if d.entered % 256 = 0 then flag else scratch.dataPresent (d.entered + 1) flag := by
    have henv : clause.env.dataPresent = flag := by rw [hclause, hflag]
    by_cases hzero : d.content.clausesLength = 0
    · have hmod := hd.zero_iff.mp hzero
      simp only [ClausesData.clauseDataPresent, ClausesData.enter, hzero, if_true, hmod, henv]
    · have hmod := mt hd.zero_iff.mpr hzero
      simp only [ClausesData.clauseDataPresent, ClausesData.enter, hzero, if_false, hmod, henv]
  refine ⟨(clausesRules scratch).finish .clause i.payload.length
    { d.enter scratch with clause := clause }, ?_, ?_, ?_, ?_⟩
  · rw [Rules.run_item rfl i rfl, clausesRules_readItem, if_pos hlist, hfeed]
    rfl
  · rw [clausesRules_finish]
    exact ⟨hcounted.clausesLength⟩
  · rw [clausesRules_finish]
    exact hentered
  · rw [clausesRules_finish, hread]
    rfl

/-- **Reading clauses** collects the flags as they are read. -/
theorem clausesRules_run_flags (scratch : Scratch) {flags : List Bool} {items : List Item}
    (hitems : List.Forall₂ Flagged flags items) {d : ClausesData} (hd : Counted d) :
    ∃ e, (clausesRules scratch).machine.run ⟨.clause, d, .header []⟩ (itemsBytes items) =
        .running ⟨.clause, e, .header []⟩ ∧
      e.content.dataPresent =
        (d.content.dataPresent || (readFlags scratch d.entered flags).any id) := by
  induction hitems generalizing d with
  | nil => exact ⟨d, Machine.run_nil rfl, (Bool.or_false _).symm⟩
  | @cons flag i flags items hi hitems ih =>
    obtain ⟨d', hrun, hcounted, hentered, hflag⟩ :=
      clausesRules_run_flagged scratch hi hd (itemsBytes items)
    obtain ⟨e, hrest, he⟩ := ih hcounted
    refine ⟨e, by rw [itemsBytes_cons, hrun, hrest], ?_⟩
    rw [he, hflag, hentered, readFlags, List.any_cons, id, Bool.or_assoc]

/-- Storage in which `b` is found, whatever was written. -/
def Scratch.stale (b : Bool) : Scratch := ⟨fun _ => .zero, fun _ _ => b⟩

/-- From the second clause on, stale storage hides all flags. -/
theorem readFlags_stale (b : Bool) {k : ℕ} {flags : List Bool} (hk : 0 < k)
    (hlength : k + flags.length ≤ 256) :
    readFlags (.stale b) k flags = List.replicate flags.length b := by
  induction flags generalizing k with
  | nil => rfl
  | cons flag flags ih =>
    rw [List.length_cons] at hlength
    rw [readFlags, if_neg (by omega), ih (by omega) (by omega)]
    rfl

/-- If the first flag is not set and there are others, stale storage decides. -/
theorem readFlags_stale_any (b : Bool) {others : List Bool} (hne : others ≠ [])
    (hlength : others.length ≤ 255) : (readFlags (.stale b) 0 (false :: others)).any id = b := by
  rw [readFlags, readFlags_stale b (by omega) (by omega)]
  simp [hne]

/-- If the first flag is set or the only one, the storage plays no part. -/
theorem readFlags_settled {T : Type} (scratch : Scratch) {flag : T → Bool} {xs : List T}
    (h : xs.length ≤ 1 ∨ ∃ x ∈ xs.head?, flag x = true) :
    (readFlags scratch 0 (xs.map flag)).any id = (xs.map flag).any id := by
  cases xs with
  | nil => rfl
  | cons x others =>
    rcases h with hone | ⟨first, hfirst, hset⟩
    · obtain rfl : others = [] := by
        apply List.length_eq_zero_iff.mp
        rw [List.length_cons] at hone
        omega
      rfl
    · obtain rfl : x = first := Option.some.inj hfirst
      rw [List.map_cons, hset]
      rfl

/-- A clause that carries its three fields; whatever follows them is skipped. -/
structure CarriesFields (toAddress value data : List UInt8) (i : Item) : Prop where
  isList : i.isList = true
  fields : ∃ toItem valueItem dataItem rest,
    i.payload = itemsBytes [toItem, valueItem, dataItem] ++ rest ∧
    Fits false (some 20) toItem ∧ Fits false (some 32) valueItem ∧ dataItem.isList = false ∧
    toItem.payload = toAddress ∧ valueItem.payload = value ∧ dataItem.payload = data

/-- What such a clause leaves behind. -/
theorem CarriesFields.decode {toAddress value data : List UInt8} {i : Item}
    (h : CarriesFields toAddress value data i) (content : ClauseContent) :
    decodeClause content i.payload = some (content.fill toAddress value data) := by
  obtain ⟨-, toItem, valueItem, dataItem, rest, hpayload, hto, hvalue, hdata, rfl, rfl, rfl⟩ := h
  rw [hpayload]
  exact decodeClause_items hto hvalue hdata rest content

/-- A clause with the given data. -/
def CarriesData (data : List UInt8) (i : Item) : Prop :=
  ∃ toAddress value, CarriesFields toAddress value data i

/-- Its flag says whether it has data. -/
theorem CarriesData.flagged {data : List UInt8} {i : Item} (h : CarriesData data i) :
    Flagged (decide (data ≠ [])) i := by
  obtain ⟨toAddress, value, hfields⟩ := h
  refine ⟨hfields.isList, fun content => ⟨_, hfields.decode content, ?_⟩⟩
  rw [ClauseContent.fill]
  exact decide_eq_decide.mpr (not_congr List.length_eq_zero_iff)

/-- The bytes of a transaction whose clauses carry their fields, with the data of the clauses. -/
structure DataLayout extends TxLayout where
  admitted : items.Admitted
  datas : List (List UInt8)
  clauseItems : List Item
  clauses_payload : items.clauses.payload = itemsBytes clauseItems
  carry : List.Forall₂ CarriesData datas clauseItems

/-- **The data flag at the end of a transaction**, whatever its cuts and the storage. -/
theorem DataLayout.dataPresent (l : DataLayout) (scratch : Scratch) (env : TxEnv)
    {chunks : List (List UInt8)} (hchunks : chunks.flatten = l.bytes) :
    ∃ s, processTxChunks scratch (initTx env) chunks = (.returned .finished s, l.bytes) ∧
      s.env.view.dataPresent =
        (readFlags scratch 0 (l.datas.map fun data => decide (data ≠ []))).any id := by
  have hflagged : List.Forall₂ Flagged (l.datas.map fun data => decide (data ≠ []))
      l.clauseItems := by
    rw [List.forall₂_map_left_iff]
    exact l.carry.imp fun _ _ h => h.flagged
  obtain ⟨e, hrun, hflag⟩ := clausesRules_run_flags scratch hflagged
    (show Counted (.initial env.clauses.env.firstClause) from ⟨rfl⟩)
  have hstate : ((clausesRules scratch).machine.run (clausesStart env.clauses.env.firstClause)
      l.items.clauses.payload).state? = some ⟨.clause, e, .header []⟩ := by
    rw [l.clauses_payload, clausesStart, hrun]
    rfl
  obtain ⟨t, hhalted, hresult⟩ := txRules_run_layout scratch env.clauses.env.firstClause
    env.content l.toTxLayout l.admitted hstate []
  have hsession := processTxChunks_run scratch env chunks
  rw [hchunks, ← List.append_nil l.bytes, hhalted] at hsession
  obtain ⟨s, consumed, hsim, hprocess, hconsumed⟩ := hsession
  rw [List.append_nil, List.append_nil] at hconsumed
  refine ⟨s, by rw [hprocess, hconsumed], ?_⟩
  rw [txRel_view hsim.env, hresult]
  exact hflag

end AppVechain

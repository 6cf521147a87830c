import AppVechain.Ustream.DataFlag

/-!
# What is known of a parsed transaction

When every clause carries its fields, all that the application uses of a parsed
transaction is determined by its bytes, except for what the storage of the
clause variables does to the data flag.
-/

namespace AppVechain

open Rlp Streaming

/-- The contents of the fields of a clause. -/
structure ClauseFields where
  toAddress : List UInt8
  value : List UInt8
  data : List UInt8
  deriving DecidableEq

/-- The item of a clause carries its fields. -/
def ClauseFields.CarriedBy (f : ClauseFields) (i : Item) : Prop :=
  CarriesFields f.toAddress f.value f.data i

/-- The fields of a clause written over another clause. -/
def ClauseFields.over (f : ClauseFields) (content : ClauseContent) : ClauseContent :=
  content.fill f.toAddress f.value f.data

/-- The bytes of a transaction whose clauses carry their fields. -/
structure FieldsLayout extends TxLayout where
  admitted : items.Admitted
  fields : List ClauseFields
  clauseItems : List Item
  clauses_payload : items.clauses.payload = itemsBytes clauseItems
  carry : List.Forall₂ ClauseFields.CarriedBy fields clauseItems

/-- The flags of the clauses. -/
def FieldsLayout.flags (l : FieldsLayout) : List Bool :=
  l.fields.map fun f => decide (f.data ≠ [])

/-- A clause that carries its fields has the flag of its data. -/
theorem ClauseFields.CarriedBy.flagged {f : ClauseFields} {i : Item} (h : f.CarriedBy i) :
    Flagged (decide (f.data ≠ [])) i :=
  CarriesData.flagged ⟨f.toAddress, f.value, h⟩

/-- What the parser holds of a transaction at its end, when it started with a clause and with
other data. -/
def FieldsLayout.view (l : FieldsLayout) (scratch : Scratch) (firstClause : ClauseContent)
    (content : TxContent) : TxView where
  gaspricecoef := content.gaspricecoef.write l.items.gasPriceCoef.payload
  gas := content.gas.write l.items.gas.payload
  firstClause := (l.fields.head?.map fun f => f.over firstClause).getD firstClause
  clausesLength := UInt8.ofNat l.fields.length
  dataPresent := (readFlags scratch 0 l.flags).any id
  blake2b := l.bytes

/-- The clause that is kept for the display, in a session that cleared it. -/
def FieldsLayout.displayed (l : FieldsLayout) : ClauseContent :=
  (l.fields.head?.map fun f => f.over .zero).getD .zero

/-- The clauses of the layout are read. -/
theorem FieldsLayout.run_clauses (l : FieldsLayout) (hlength : l.fields.length ≤ 256)
    (scratch : Scratch) (firstClause : ClauseContent) :
    ∃ e, ((clausesRules scratch).machine.run (clausesStart firstClause)
        l.items.clauses.payload).state? = some ⟨.clause, e, .header []⟩ ∧
      e.firstClause = (l.fields.head?.map fun f => f.over firstClause).getD firstClause ∧
      e.content = ⟨UInt8.ofNat l.fields.length, (readFlags scratch 0 l.flags).any id⟩ := by
  have hflagged : List.Forall₂ Flagged l.flags l.clauseItems := by
    rw [FieldsLayout.flags, List.forall₂_map_left_iff]
    exact l.carry.imp fun _ _ h => h.flagged
  have hcounted : Counted (.initial firstClause) := ⟨rfl⟩
  obtain ⟨e, hrun, hflag⟩ := clausesRules_run_flags scratch hflagged hcounted
  have hstate : ((clausesRules scratch).machine.run (clausesStart firstClause)
      l.items.clauses.payload).state? = some ⟨.clause, e, .header []⟩ := by
    rw [l.clauses_payload, clausesStart, hrun]
    rfl
  have hread := clausesRules_run scratch hcounted hstate
  rw [l.clauses_payload, splitClauses_itemsBytes] at hread
  refine ⟨e, hstate, ?_, ?_⟩
  · have hfirst := hread.firstClause
    have hcarry := l.carry
    cases hfields : l.fields with
    | nil =>
      rw [hfields] at hcarry
      cases hitems : l.clauseItems with
      | nil =>
        rw [hitems] at hfirst
        exact (Option.some.inj hfirst).symm
      | cons i items =>
        rw [hitems] at hcarry
        cases hcarry
    | cons f fields =>
      rw [hfields] at hcarry
      rw [hfields, List.length_cons] at hlength
      cases hitems : l.clauseItems with
      | nil =>
        rw [hitems] at hcarry
        cases hcarry
      | cons i items =>
        rw [hitems] at hcarry hfirst
        obtain ⟨hf, hrest⟩ := List.forall₂_cons.mp hcarry
        rw [List.map_cons, show (ClausesData.initial firstClause).entered = 0 from rfl,
          displayedPayloads_head (by rw [List.length_map, ← hrest.length_eq]; omega),
          overlayClauses, hf.decode] at hfirst
        exact (Option.some.inj hfirst).symm
  · have hentered : e.entered = l.fields.length := by
      rw [hread.entered, List.length_map, ← l.carry.length_eq]
      exact Nat.zero_add _
    have hclausesLength := hread.counted.clausesLength
    rw [hentered] at hclausesLength
    have hdata : e.content.dataPresent = (readFlags scratch 0 l.flags).any id := by
      rw [hflag]
      exact Bool.false_or _
    show (⟨e.content.clausesLength, e.content.dataPresent⟩ : ClausesContent) = _
    rw [hclausesLength, hdata]

/-- A run over the bytes of a transaction halts with what is known of it. -/
theorem FieldsLayout.run_view (l : FieldsLayout) (hlength : l.fields.length ≤ 256)
    (scratch : Scratch) (firstClause : ClauseContent) (content : TxContent) (unread : List UInt8) :
    ∃ t, (txRules scratch).machine.run (txStart firstClause content) (l.bytes ++ unread) =
        .halted t unread ∧ t.env.view = l.view scratch firstClause content := by
  obtain ⟨e, hstate, hfirst, hcontent⟩ := l.run_clauses hlength scratch firstClause
  obtain ⟨t, hhalted, hresult⟩ := txRules_run_layout scratch firstClause content l.toTxLayout
    l.admitted hstate unread
  refine ⟨t, hhalted, ?_⟩
  rw [hresult]
  show (⟨_, _, e.firstClause, e.content.clausesLength, e.content.dataPresent, _⟩ : TxView) = _
  rw [hfirst, hcontent]
  rfl

/-- **A session on the bytes of a transaction** finishes with what is known of it. -/
theorem FieldsLayout.session (l : FieldsLayout) (hlength : l.fields.length ≤ 256)
    (scratch : Scratch) (env : TxEnv) {chunks : List (List UInt8)}
    (hchunks : chunks.flatten = l.bytes) :
    ∃ s, processTxChunks scratch (initTx env) chunks = (.returned .finished s, l.bytes) ∧
      s.env.view = l.view scratch env.clauses.env.firstClause env.content := by
  obtain ⟨t, hhalted, hview⟩ :=
    l.run_view hlength scratch env.clauses.env.firstClause env.content []
  have hsession := processTxChunks_run scratch env chunks
  rw [hchunks, ← List.append_nil l.bytes, hhalted] at hsession
  obtain ⟨s, consumed, hsim, hprocess, hconsumed⟩ := hsession
  rw [List.append_nil, List.append_nil] at hconsumed
  exact ⟨s, by rw [hprocess, hconsumed], (txRel_view hsim.env).trans hview⟩

/-- Every transaction at the front of the bytes has at most 255 clauses, each with its fields. -/
def Readable (bytes : List UInt8) : Prop :=
  ∀ l : TxLayout, l.items.Admitted → l.bytes <+: bytes →
    ∃ fl : FieldsLayout, fl.toTxLayout = l ∧ fl.fields.length ≤ 255

/-- The bytes of a transaction are such bytes. -/
theorem FieldsLayout.readable (l : FieldsLayout) (hlength : l.fields.length ≤ 255) :
    Readable l.bytes := by
  rintro l' - ⟨rest, hrest⟩
  rw [← List.append_nil l.bytes] at hrest
  exact ⟨l, (TxLayout.bytes_append_inj hrest).symm, hlength⟩

/-- The data flag is settled by the first clause. -/
def FieldsLayout.FlagSettled (l : FieldsLayout) : Prop :=
  l.fields.length ≤ 1 ∨ ∃ f ∈ l.fields.head?, f.data ≠ []

/-- The flags of clauses are read back alike from two storages. -/
def Scratch.SameFlags (scratch scratch' : Scratch) : Prop :=
  ∀ k flag, scratch.dataPresent k flag = scratch'.dataPresent k flag

/-- Flags that are read back alike. -/
theorem readFlags_same {scratch scratch' : Scratch} (h : scratch.SameFlags scratch') (k : ℕ)
    (flags : List Bool) : readFlags scratch k flags = readFlags scratch' k flags := by
  induction flags generalizing k with
  | nil => rfl
  | cons flag flags ih => rw [readFlags, readFlags, h, ih]

/-- A settled flag does not depend on the storage. -/
theorem FieldsLayout.FlagSettled.any_eq {l : FieldsLayout} (h : l.FlagSettled)
    (scratch scratch' : Scratch) :
    (readFlags scratch 0 l.flags).any id = (readFlags scratch' 0 l.flags).any id := by
  have hfirst : l.fields.length ≤ 1 ∨ ∃ f ∈ l.fields.head?, decide (f.data ≠ []) = true := by
    simp only [decide_eq_true_eq]
    exact h
  rw [FieldsLayout.flags, readFlags_settled scratch hfirst, readFlags_settled scratch' hfirst]

end AppVechain

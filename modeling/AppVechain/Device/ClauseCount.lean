import AppVechain.Device.Accepted

/-!
# The number of clauses

The clauses of a transaction are counted in eight bits, and the counter is both
the test for several clauses and the test for the first one. It tells whether
there are several unless their number leaves a remainder of zero or one, and the
clauses that are entered with a counter of zero are written over the first one.
-/

namespace AppVechain

open Rlp Streaming

/-- What is known of the clauses of a parsed transaction: the flag for several clauses and what
the settings do with it, and the first clause. -/
structure ClausesShown (l : TxLayout) (parsed : Device) : Prop where
  multiple : parsed.hasMultipleClauses = true ↔ 1 < l.clausePayloads.length
  refused : ∀ (platform : Platform) (settings : Settings), 1 < l.clausePayloads.length →
    settings.multiClauseAllowed = false →
      ∃ d', signChecks platform settings parsed = .inl (.throw [] HW_INCORRECT_DATA d')
  warned : ∀ (platform : Platform) (settings : Settings) (checked : Device),
    signChecks platform settings parsed = .inr checked →
      (checked.multipleClauses = true ↔ 1 < l.clausePayloads.length)
  first : overlayClauses .zero (l.clausePayloads.take 1) = some parsed.clauseContent

/-- The flag for several clauses decides what the settings do. -/
theorem ClausesShown.of_multiple {l : TxLayout} {parsed : Device}
    (hmultiple : parsed.hasMultipleClauses = true ↔ 1 < l.clausePayloads.length)
    (hfirst : overlayClauses .zero (l.clausePayloads.take 1) = some parsed.clauseContent) :
    ClausesShown l parsed where
  multiple := hmultiple
  refused platform settings hmany hsetting := by
    rcases signChecks_cases platform settings parsed with ⟨-, hrefused⟩ | ⟨hpassed, -⟩
    · exact hrefused
    · rw [Device.refused, hmultiple.mpr hmany, hsetting, Bool.not_false, Bool.and_true,
        Bool.or_true] at hpassed
      cases hpassed
  warned platform settings checked hchecks := by
    rw [signChecks_passed hchecks]
    exact hmultiple
  first := hfirst

/-- A number kept in eight bits is larger than one. -/
theorem one_lt_ofNat_iff (n : ℕ) : (1 : UInt8) < UInt8.ofNat n ↔ 1 < n % 256 := by
  rw [UInt8.lt_iff_toNat_lt, UInt8.toNat_ofNat']
  rfl

/-- **The clauses are shown as they are** if and only if the number of clauses tells in eight bits
whether there are several, and the clauses numbered 257, 513 and so on, read over the first
one, leave it as it is. -/
theorem clausesShown_iff {scratch : Scratch} {env : TxEnv}
    (hcleared : env.clauses.env.firstClause = .zero) {chunks : List (List UInt8)} {s : TxState}
    {l : TxLayout}
    (h : processTxChunks scratch (initTx env) chunks = (.returned .finished s, l.bytes))
    {parsed : Device} (hparsed : parsed.tx = s) :
    ClausesShown l parsed ↔
      (l.clausePayloads.length ≤ 1 ∨ 2 ≤ l.clausePayloads.length % 256) ∧
        ∀ first, overlayClauses .zero (l.clausePayloads.take 1) = some first →
          overlayClauses first (overwritingPayloads l.clausePayloads) = some first := by
  obtain ⟨t, unread, -, hflatten, -⟩ := run_of_finished h
  obtain ⟨hlength, hclauses⟩ := processTxChunks_clauses h hflatten
  have hflag : parsed.hasMultipleClauses = true ↔ 1 < l.clausePayloads.length % 256 := by
    rw [← one_lt_ofNat_iff, ← hlength, ← hparsed]
    exact decide_eq_true_iff
  have hcontent : parsed.clauseContent = s.env.view.firstClause := by
    rw [← hparsed]
    rfl
  rw [hcleared, displayedPayloads_eq, overlayClauses_append] at hclauses
  obtain ⟨first, hfirst, hrest⟩ := Option.bind_eq_some_iff.mp hclauses
  rw [← hcontent] at hrest
  have hmod := Nat.mod_le l.clausePayloads.length 256
  constructor
  · intro hshown
    constructor
    · have hmultiple := hshown.multiple
      rw [hflag] at hmultiple
      omega
    · intro first' hfirst'
      have hsame := hshown.first
      rw [hfirst, Option.some.injEq] at hfirst' hsame
      rw [← hfirst', hrest, hsame]
  · rintro ⟨hmany, hkept⟩
    apply ClausesShown.of_multiple
    · rw [hflag]
      omega
    · rw [hfirst, ← hkept first hfirst, hrest]

theorem clausesShown_iff_tokenThenData : ∃ s,
    processTxChunks .valid (initTx .zero)
          [tokenThenData.bytes.take 40, tokenThenData.bytes.drop 40] =
        (.returned .finished s, tokenThenData.bytes) ∧
      ClausesShown tokenThenData.toTxLayout { Device.boot with tx := s } ∧
      ((tokenThenData.clausePayloads.length ≤ 1 ∨ 2 ≤ tokenThenData.clausePayloads.length % 256) ∧
        ∀ first, overlayClauses .zero (tokenThenData.clausePayloads.take 1) = some first →
          overlayClauses first (overwritingPayloads tokenThenData.clausePayloads) =
            some first) := by
  have hchunks : [tokenThenData.bytes.take 40, tokenThenData.bytes.drop 40].flatten =
      tokenThenData.bytes := by
    rw [List.flatten_cons, List.flatten_singleton, List.take_append_drop]
  have hcondition : (tokenThenData.clausePayloads.length ≤ 1 ∨
      2 ≤ tokenThenData.clausePayloads.length % 256) ∧
      ∀ first, overlayClauses .zero (tokenThenData.clausePayloads.take 1) = some first →
        overlayClauses first (overwritingPayloads tokenThenData.clausePayloads) = some first := by
    have hnone : overwritingPayloads tokenThenData.clausePayloads = [] := by decide +kernel
    refine ⟨.inr (by decide +kernel), fun first _ => ?_⟩
    rw [hnone, overlayClauses]
  obtain ⟨s, hsession, -⟩ := tokenThenData.session (by decide) .valid .zero hchunks
  exact ⟨s, hsession, (clausesShown_iff rfl hsession rfl).mpr hcondition, hcondition⟩

/-- Three empty strings are the payload of a list. -/
theorem readHeader_emptyClause :
    readHeader ([0xc3] ++ [0x80, 0x80, 0x80]) = .complete ⟨true, 3, 1⟩ := rfl

/-- A clause that transfers nothing. -/
def emptyClause : Item := ⟨true, [0xc3], [0x80, 0x80, 0x80], readHeader_emptyClause⟩

/-- A transaction of 256 clauses. -/
def manyClauses : FieldsLayout where
  outer := [0xf9, 0x04, 0x0b]
  declared := 1035
  outer_header := by decide +kernel
  items := {
    chainTag := Item.emptyString
    blockRef := Item.emptyString
    expiration := Item.emptyString
    clauses := ⟨true, [0xf9, 0x04, 0x00], itemsBytes (List.replicate 256 emptyClause),
      by decide +kernel⟩
    gasPriceCoef := Item.emptyString
    gas := Item.emptyString
    dependsOn := Item.emptyString
    nonce := Item.emptyString
    reserved := Item.emptyList }
  admitted := by constructor <;> decide +kernel
  fields := List.replicate 256 ⟨[], [], []⟩
  clauseItems := List.replicate 256 emptyClause
  clauses_payload := rfl
  carry := by
    rw [List.forall₂_iff_get]
    refine ⟨by rw [List.length_replicate, List.length_replicate], fun i h h' => ?_⟩
    rw [List.get_eq_getElem, List.get_eq_getElem, List.getElem_replicate, List.getElem_replicate]
    exact ⟨rfl, Item.emptyString, Item.emptyString, Item.emptyString, [], by decide⟩

/-- The clauses of 256 are not counted as several. -/
theorem clauses_not_shown : ¬∀ (scratch : Scratch) (env : TxEnv) (chunks : List (List UInt8))
    (s : TxState) (l : TxLayout) (parsed : Device), env.clauses.env.firstClause = .zero →
    processTxChunks scratch (initTx env) chunks = (.returned .finished s, l.bytes) →
    parsed.tx = s → ClausesShown l parsed := by
  intro h
  have hone : [manyClauses.bytes].flatten = manyClauses.bytes := List.flatten_singleton
  have hlength : manyClauses.fields.length ≤ 256 := by
    rw [manyClauses, List.length_replicate]
  obtain ⟨s, hsession, -⟩ := manyClauses.session hlength .valid .zero hone
  have hcount : manyClauses.clausePayloads.length = 256 := by
    rw [TxLayout.clausePayloads, manyClauses.clauses_payload, splitClauses_itemsBytes,
      List.length_map]
    exact List.length_replicate
  have hbytes : [manyClauses.bytes].flatten = manyClauses.bytes ++ [] := by
    rw [hone, List.append_nil]
  have hflag : ({ Device.boot with tx := s } : Device).hasMultipleClauses = false := by
    show decide (s.env.view.clausesLength > 1) = false
    rw [(processTxChunks_clauses hsession hbytes).1, hcount]
    rfl
  have hshown := h _ _ _ s manyClauses.toTxLayout { Device.boot with tx := s } rfl hsession rfl
  rw [hshown.multiple.mpr (by rw [hcount]; decide)] at hflag
  cases hflag

end AppVechain

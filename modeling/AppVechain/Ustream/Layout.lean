import AppVechain.Rlp.Items
import AppVechain.Ustream.Session

/-!
# The layout of a transaction

What the machine of a transaction does with the items of one: they have to be
of the kind and size of their fields, all their bytes are hashed, the payload of
the clause list goes to the machine of the clause list, and the gas and its
price coefficient are kept. A run that accepts has read such items.
-/

namespace AppVechain

open Rlp Streaming

/-- An item of the given kind whose payload has at most the given length. -/
def Fits (isList : Bool) (maxLength : Option ℕ) (i : Item) : Prop :=
  i.isList = isList ∧ ∀ n ∈ maxLength, i.payload.length ≤ n

instance (isList : Bool) (maxLength : Option ℕ) (i : Item) : Decidable (Fits isList maxLength i) :=
  match maxLength with
  | none => decidable_of_iff (i.isList = isList) ⟨fun h => ⟨h, fun _ hn => by cases hn⟩, And.left⟩
  | some n => decidable_of_iff (i.isList = isList ∧ i.payload.length ≤ n)
      ⟨fun h => ⟨h.1, fun _ hn => by cases hn; exact h.2⟩, fun h => ⟨h.1, h.2 n rfl⟩⟩

/-- The nine items of a transaction. -/
structure TxItems where
  chainTag : Item
  blockRef : Item
  expiration : Item
  clauses : Item
  gasPriceCoef : Item
  gas : Item
  dependsOn : Item
  nonce : Item
  reserved : Item

/-- The items in their order. -/
def TxItems.toList (t : TxItems) : List Item :=
  [t.chainTag, t.blockRef, t.expiration, t.clauses, t.gasPriceCoef, t.gas, t.dependsOn, t.nonce,
    t.reserved]

/-- The items are of the kinds and sizes of their fields. -/
structure TxItems.Admitted (t : TxItems) : Prop where
  chainTag : Fits false (some 4) t.chainTag
  blockRef : Fits false (some 8) t.blockRef
  expiration : Fits false (some 4) t.expiration
  clauses : Fits true none t.clauses
  gasPriceCoef : Fits false (some 1) t.gasPriceCoef
  gas : Fits false (some 8) t.gas
  dependsOn : Fits false (some 32) t.dependsOn
  nonce : Fits false (some 8) t.nonce
  reserved : Fits true none t.reserved

/-- A number as the parser writes it over an earlier one. -/
def TxInt256.write (old : TxInt256) (bytes : List UInt8) : TxInt256 :=
  ⟨writeBytes old.value 0 bytes, bytes.length⟩

/-- The rules admit strings up to a length. -/
theorem admits_string {i : Item} {n : ℕ} :
    (!i.isList && !decide (n < i.payload.length)) = true ↔ Fits false (some n) i := by
  simp [Fits]

/-- The rules admit lists. -/
theorem admits_list {i : Item} : i.isList = true ↔ Fits true none i := by
  simp [Fits]

/-- Header bytes are hashed. -/
theorem txRules_headers (scratch : Scratch) (bytes : List UInt8) (d : TxData) :
    (txRules scratch).headers bytes d = d.hash false bytes := by
  induction bytes generalizing d with
  | nil => exact (d.hash_nil false).symm
  | cons b bs ih =>
    rw [TxData.hash_cons]
    exact ih (d.hash false [b])

/-- Every byte of an item is hashed once: a single byte as a header, not as a payload. -/
theorem TxData.hash_item (i : Item) (d : TxData) :
    (d.hash false i.headerBytes).hash i.single i.payload = d.hash false i.bytes := by
  by_cases hsingle : i.header.length = 0
  · have hheader : i.header = [] := List.eq_nil_of_length_eq_zero hsingle
    have hlength : i.payload.length = 1 := by
      have := readHeader_single i.valid hsingle
      simpa using congrArg Header.length this
    simp only [TxData.hash, Item.single, Item.headerBytes, Item.bytes, hheader, List.length_nil,
      decide_true, List.nil_append, Bool.false_eq_true, if_true, if_false]
    rw [List.take_of_length_le (by omega)]
  · have hmax : max 1 i.header.length = i.header.length := by omega
    simp only [TxData.hash, Item.single, Item.headerBytes, Item.bytes, hsingle, hmax, decide_false,
      Bool.false_eq_true, if_false, List.take_left', List.append_assoc]

/-- Reading an item keeps what its field keeps, and hashes all its bytes. -/
theorem txRules_readItem (scratch : Scratch) (f : RlpTxField) (i : Item) (d : TxData) :
    (txRules scratch).readItem f i d =
      if (txRules scratch).admits f i.isList i.payload.length then
        (d.keep scratch f 0 i.payload).map fun d =>
          (txRules scratch).finish f i.payload.length (d.hash false i.bytes)
      else none := by
  unfold Rules.readItem
  rw [txRules_storeAll, txRules_headers]
  show (if _ then
    Option.map _ (Option.map _ ((d.hash false i.headerBytes).keep _ _ _ _)) else _) = _
  rw [TxData.keep_hash, Option.map_map, Option.map_map]
  congr 2
  funext d'
  exact congrArg _ (TxData.hash_item i d')

/-- Reading an item as a field whose bytes cannot be refused. `d'` is what the field leaves
besides the hash. -/
private theorem readItem_kept (scratch : Scratch) {f : RlpTxField} {i : Item} {d d₀ d' e : TxData}
    {fits : Prop} (hadmits : (txRules scratch).admits f i.isList i.payload.length = true ↔ fits)
    (hkeep : d.keep scratch f 0 i.payload = some d₀)
    (hfinish : (txRules scratch).finish f i.payload.length (d₀.hash false i.bytes) =
      d'.hash false i.bytes) :
    (txRules scratch).readItem f i d = some e ↔ fits ∧ d'.hash false i.bytes = e := by
  rw [txRules_readItem, hkeep, ← hadmits]
  by_cases h : (txRules scratch).admits f i.isList i.payload.length = true
  · simp only [h, if_true, Option.map_some, hfinish, true_and, Option.some.injEq]
  · simp only [h, if_false, Bool.false_eq_true, reduceCtorEq, false_and]

/-- Reading an item as the clause list. -/
private theorem readItem_clauses (scratch : Scratch) {i : Item} {d e : TxData} :
    (txRules scratch).readItem .clauses i d = some e ↔
      Fits true none i ∧ ∃ clauses,
        ((clausesRules scratch).machine.run d.clauses i.payload).state? = some clauses ∧
        ({ d with clauses := clauses } : TxData).hash false i.bytes = e := by
  rw [txRules_readItem, ← admits_list]
  by_cases h : i.isList = true
  · simp only [txRules, h, if_true, TxData.keep, TxData.feed, Option.map_map,
      Option.map_eq_some_iff, true_and]
    rfl
  · simp only [txRules, h, if_false, Bool.false_eq_true, reduceCtorEq, false_and]

/-- Reading an item as the gas price coefficient. -/
private theorem readItem_gasPriceCoef (scratch : Scratch) {i : Item} {d e : TxData} :
    (txRules scratch).readItem .gasPriceCoef i d = some e ↔
      Fits false (some 1) i ∧ ({ d with content := { d.content with
        gaspricecoef := d.content.gaspricecoef.write i.payload } } : TxData).hash false i.bytes =
          e :=
  readItem_kept scratch admits_string rfl rfl

/-- Reading an item as the gas limit. -/
private theorem readItem_gas (scratch : Scratch) {i : Item} {d e : TxData} :
    (txRules scratch).readItem .gas i d = some e ↔
      Fits false (some 8) i ∧ ({ d with content := { d.content with
        gas := d.content.gas.write i.payload } } : TxData).hash false i.bytes = e :=
  readItem_kept scratch admits_string rfl rfl

/-- What the items of a transaction leave behind, given what its clauses leave. -/
def TxItems.result (t : TxItems) (d : TxData) (clauses : FieldState RlpClausesField ClausesData) :
    TxData where
  clauses := clauses
  content :=
    ⟨d.content.gaspricecoef.write t.gasPriceCoef.payload, d.content.gas.write t.gas.payload⟩
  blake2b := d.blake2b ++ itemsBytes t.toList

/-- **Reading the items of a transaction** succeeds when they are admitted and the
machine of the clause list accepts the payload of the fourth. -/
theorem txRules_readItems (scratch : Scratch) (t : TxItems) (d e : TxData) :
    (txRules scratch).readItems .chainTag t.toList d = some e ↔
      t.Admitted ∧ ∃ clauses,
        ((clausesRules scratch).machine.run d.clauses t.clauses.payload).state? = some clauses ∧
        t.result d clauses = e := by
  have string (f : RlpTxField) {i : Item} {n : ℕ} {d e : TxData}
      (hadmits : (txRules scratch).admits f i.isList i.payload.length =
        (!i.isList && !decide (n < i.payload.length)))
      (hkeep : d.keep scratch f 0 i.payload = some d)
      (hfinish : ∀ d, (txRules scratch).finish f i.payload.length d = d) :
      (txRules scratch).readItem f i d = some e ↔
        Fits false (some n) i ∧ d.hash false i.bytes = e :=
    readItem_kept scratch (hadmits ▸ admits_string) hkeep (hfinish _)
  have list {i : Item} {d e : TxData} :
      (txRules scratch).readItem .reserved i d = some e ↔
        Fits true none i ∧ d.hash false i.bytes = e :=
    readItem_kept scratch admits_list rfl rfl
  have hresult (clauses : FieldState RlpClausesField ClausesData) :
      t.result d clauses = ⟨clauses, ⟨d.content.gaspricecoef.write t.gasPriceCoef.payload,
        d.content.gas.write t.gas.payload⟩, d.blake2b ++ t.chainTag.bytes ++ t.blockRef.bytes ++
          t.expiration.bytes ++ t.clauses.bytes ++ t.gasPriceCoef.bytes ++ t.gas.bytes ++
          t.dependsOn.bytes ++ t.nonce.bytes ++ t.reserved.bytes⟩ := by
    simp only [TxItems.result, TxItems.toList, itemsBytes, List.flatMap_cons, List.flatMap_nil,
      List.append_nil, List.append_assoc]
  simp only [TxItems.toList, Rules.readItems, Option.bind_eq_some_iff, hresult]
  constructor
  · rintro ⟨d₁, h₁, d₂, h₂, d₃, h₃, d₄, h₄, d₅, h₅, d₆, h₆, d₇, h₇, d₈, h₈, d₉, h₉, hlast⟩
    obtain ⟨chainTag, rfl⟩ := (string .chainTag rfl rfl fun _ => rfl).mp h₁
    obtain ⟨blockRef, rfl⟩ := (string .blockRef rfl rfl fun _ => rfl).mp h₂
    obtain ⟨expiration, rfl⟩ := (string .expiration rfl rfl fun _ => rfl).mp h₃
    obtain ⟨clausesFits, clauses, hclauses, rfl⟩ := (readItem_clauses scratch).mp h₄
    obtain ⟨gasPriceCoef, rfl⟩ := (readItem_gasPriceCoef scratch).mp h₅
    obtain ⟨gas, rfl⟩ := (readItem_gas scratch).mp h₆
    obtain ⟨dependsOn, rfl⟩ := (string .dependsOn rfl rfl fun _ => rfl).mp h₇
    obtain ⟨nonce, rfl⟩ := (string .nonce rfl rfl fun _ => rfl).mp h₈
    obtain ⟨reserved, rfl⟩ := list.mp h₉
    cases hlast
    exact ⟨⟨chainTag, blockRef, expiration, clausesFits, gasPriceCoef, gas, dependsOn, nonce,
      reserved⟩, clauses, hclauses, rfl⟩
  · rintro ⟨ht, clauses, hclauses, rfl⟩
    exact ⟨_, (string .chainTag rfl rfl fun _ => rfl).mpr ⟨ht.chainTag, rfl⟩,
      _, (string .blockRef rfl rfl fun _ => rfl).mpr ⟨ht.blockRef, rfl⟩,
      _, (string .expiration rfl rfl fun _ => rfl).mpr ⟨ht.expiration, rfl⟩,
      _, (readItem_clauses scratch).mpr ⟨ht.clauses, clauses, hclauses, rfl⟩,
      _, (readItem_gasPriceCoef scratch).mpr ⟨ht.gasPriceCoef, rfl⟩,
      _, (readItem_gas scratch).mpr ⟨ht.gas, rfl⟩,
      _, (string .dependsOn rfl rfl fun _ => rfl).mpr ⟨ht.dependsOn, rfl⟩,
      _, (string .nonce rfl rfl fun _ => rfl).mpr ⟨ht.nonce, rfl⟩,
      _, list.mpr ⟨ht.reserved, rfl⟩, rfl⟩

/-- The bytes of a transaction: a list header and nine items. The parser keeps the
length declared by the header and does not compare it with anything. -/
structure TxLayout where
  outer : List UInt8
  declared : ℕ
  outer_header : readHeader outer = .complete ⟨true, declared, outer.length⟩
  items : TxItems

/-- The bytes in their order. -/
def TxLayout.bytes (l : TxLayout) : List UInt8 := l.outer ++ itemsBytes l.items.toList

/-- A transaction in front of other bytes is found again. -/
theorem TxLayout.bytes_append_inj {l l' : TxLayout} {rest rest' : List UInt8}
    (h : l.bytes ++ rest = l'.bytes ++ rest') : l = l' := by
  have hread := readHeader_append l.outer_header (itemsBytes l.items.toList ++ rest)
  have hread' := readHeader_append l'.outer_header (itemsBytes l'.items.toList ++ rest')
  rw [TxLayout.bytes, TxLayout.bytes, List.append_assoc, List.append_assoc] at h
  rw [h, hread', HeaderRead.complete.injEq, Header.mk.injEq] at hread
  obtain ⟨-, hdeclared, houter⟩ := hread
  obtain ⟨outer, declared, outer_header, items⟩ := l
  obtain ⟨outer', declared', outer_header', items'⟩ := l'
  obtain ⟨hsame, hitems⟩ := List.append_inj h houter.symm
  dsimp only at hdeclared hsame hitems
  subst hdeclared hsame
  obtain ⟨hlist, -⟩ :=
    itemsBytes_append_inj (show items.toList.length = items'.toList.length from rfl) hitems
  obtain ⟨⟩ := items
  obtain ⟨⟩ := items'
  cases hlist
  rfl

/-- What is kept when the header of the outer list is read. -/
def txOpened (firstClause : ClauseContent) (content : TxContent) (outer : List UInt8) : TxData :=
  ⟨clausesStart firstClause, content, outer⟩

/-- The header of the outer list is hashed, and its payload is left to the fields. -/
theorem txRules_run_outer (scratch : Scratch) (firstClause : ClauseContent) (content : TxContent)
    {xs : List UInt8} {h : Header} (hread : readHeader xs = .complete h) :
    (txRules scratch).machine.run (txStart firstClause content) xs =
      if h.isList then
        (txRules scratch).machine.run
          ⟨.chainTag, txOpened firstClause content (xs.take (max 1 h.size)), .header []⟩
          (xs.drop (max 1 h.size))
      else .refused := by
  have hskips : (txRules scratch).skips .content h.length = true := rfl
  have hadmits : (txRules scratch).admits .content h.isList h.length = h.isList := rfl
  rw [txStart, Rules.run_field rfl]
  simp only [Rules.fieldRun, hread, hskips, hadmits, txRules_headers, if_true]
  by_cases hlist : h.isList = true
  · simp only [hlist, if_true]
    rfl
  · simp only [hlist, Bool.false_eq_true, if_false]
    rfl

/-- The fields behind the outer header read their payload, and nothing is read after them. -/
theorem txRules_fields (scratch : Scratch) :
    (∀ g ∈ (txRules scratch).fieldsFrom 9 .chainTag, (txRules scratch).isDone g = false ∧
      ∀ length, (txRules scratch).skips g length = false) ∧
    (txRules scratch).isDone ((txRules scratch).next^[9] .chainTag) = true := by
  constructor
  · intro g hg
    simp only [Rules.fieldsFrom, txRules, RlpTxField.succ, List.mem_cons, List.not_mem_nil,
      or_false] at hg
    rcases hg with rfl | rfl | rfl | rfl | rfl | rfl | rfl | rfl | rfl <;>
      exact ⟨rfl, fun _ => rfl⟩
  · rfl

/-- Nine items have names. -/
private theorem exists_txItems {items : List Item} (hlength : items.length = 9) :
    ∃ t : TxItems, items = t.toList := by
  match items, hlength with
  | [i₁, i₂, i₃, i₄, i₅, i₆, i₇, i₈, i₉], _ => exact ⟨⟨i₁, i₂, i₃, i₄, i₅, i₆, i₇, i₈, i₉⟩, rfl⟩

/-- **Accepted bytes have the layout of a transaction**, and the machine of the
clause list accepts the payload of the fourth item. -/
theorem txRules_run_halted (scratch : Scratch) {firstClause : ClauseContent} {content : TxContent}
    {xs unread : List UInt8} {s : FieldState RlpTxField TxData}
    (hrun : (txRules scratch).machine.run (txStart firstClause content) xs = .halted s unread) :
    ∃ l : TxLayout, xs = l.bytes ++ unread ∧ l.items.Admitted ∧ ∃ clauses,
      ((clausesRules scratch).machine.run (clausesStart firstClause)
        l.items.clauses.payload).state? = some clauses ∧
      s.env = l.items.result (txOpened firstClause content l.outer) clauses := by
  obtain ⟨hfields, hdone⟩ := txRules_fields scratch
  by_cases hread : ∃ h, readHeader xs = .complete h
  · obtain ⟨h, hread⟩ := hread
    rw [txRules_run_outer scratch firstClause content hread] at hrun
    by_cases hlist : h.isList = true
    · rw [if_pos hlist] at hrun
      obtain ⟨items, hlength, hrest, hitems⟩ := Rules.run_record hfields hdone hrun
      obtain ⟨t, rfl⟩ := exists_txItems hlength
      obtain ⟨hadmitted, clauses, hclauses, hresult⟩ := (txRules_readItems scratch t _ _).mp hitems
      obtain ⟨hsize, -, -, -⟩ := readHeader_size hread
      have hpos : h.size ≠ 0 := by
        intro hzero
        rw [readHeader_single hread hzero] at hlist
        cases hlist
      have hmax : max 1 h.size = h.size := by omega
      have houter : readHeader (xs.take h.size) =
          .complete ⟨true, h.length, (xs.take h.size).length⟩ := by
        have := readHeader_take hread
        rw [hmax] at this
        rw [this, List.length_take, Nat.min_eq_left hsize, ← hlist]
      rw [hmax] at hrest hresult
      refine ⟨⟨xs.take h.size, h.length, houter, t⟩, ?_, hadmitted, clauses, hclauses, hresult.symm⟩
      rw [TxLayout.bytes, List.append_assoc, ← hrest, List.take_append_drop]
    · rw [if_neg hlist] at hrun
      cases hrun
  · rw [txStart, Rules.run_no_header rfl (fun h hcase => hread ⟨h, hcase⟩)] at hrun
    split at hrun <;> cases hrun

/-- Bytes with the layout of a transaction are accepted, up to their end. -/
theorem txRules_run_layout (scratch : Scratch) (firstClause : ClauseContent) (content : TxContent)
    (l : TxLayout) (hadmitted : l.items.Admitted)
    {clauses : FieldState RlpClausesField ClausesData}
    (hclauses : ((clausesRules scratch).machine.run (clausesStart firstClause)
      l.items.clauses.payload).state? = some clauses) (unread : List UInt8) :
    ∃ s, (txRules scratch).machine.run (txStart firstClause content) (l.bytes ++ unread) =
        .halted s unread ∧
      s.env = l.items.result (txOpened firstClause content l.outer) clauses := by
  obtain ⟨hfields, hdone⟩ := txRules_fields scratch
  obtain ⟨-, -, -, hne⟩ := readHeader_size l.outer_header
  have hpos := List.length_pos_iff.mpr hne
  have hmax : max 1 l.outer.length = l.outer.length := by omega
  have hread : readHeader (l.bytes ++ unread) = .complete ⟨true, l.declared, l.outer.length⟩ := by
    rw [TxLayout.bytes, List.append_assoc]
    exact readHeader_append l.outer_header _
  have hrest : (l.bytes ++ unread).drop l.outer.length = itemsBytes l.items.toList ++ unread := by
    rw [TxLayout.bytes, List.append_assoc, List.drop_left]
  have htake : (l.bytes ++ unread).take l.outer.length = l.outer := by
    rw [TxLayout.bytes, List.append_assoc, List.take_left]
  have hitems := (txRules_readItems scratch l.items (txOpened firstClause content l.outer) _).mpr
    ⟨hadmitted, clauses, hclauses, rfl⟩
  have hdone' : (txRules scratch).machine.halted
      ⟨(txRules scratch).next^[9] .chainTag,
        l.items.result (txOpened firstClause content l.outer) clauses, .header []⟩ = true := hdone
  rw [txRules_run_outer scratch firstClause content hread]
  simp only [if_true, hmax, hrest, htake]
  rw [Rules.run_itemsBytes hfields, hitems]
  exact ⟨_, Machine.run_of_halted hdone' unread, rfl⟩

end AppVechain

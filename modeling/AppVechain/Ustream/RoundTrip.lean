import AppVechain.Rlp.Encoding
import AppVechain.Ustream.ClauseList

/-!
# Decoding undoes encoding

Transactions as records of byte strings, and their canonical encoding. The
parser accepts the encoding exactly with its last byte, and then holds what the
display and the checks use of the record.
-/

namespace AppVechain

open Rlp Streaming

/-- A clause: the recipient is empty for the creation of a contract. -/
structure ClauseRecord where
  toAddress : List UInt8
  value : List UInt8
  data : List UInt8
  toAddress_length : toAddress.length = 0 ∨ toAddress.length = 20
  value_length : value.length ≤ 32

/-- An unsigned transaction, with the limits of its format. -/
structure TxRecord where
  chainTag : List UInt8
  blockRef : List UInt8
  expiration : List UInt8
  clauses : List ClauseRecord
  gasPriceCoef : List UInt8
  gas : List UInt8
  dependsOn : List UInt8
  nonce : List UInt8
  reserved : List Tree
  chainTag_length : chainTag.length ≤ 1
  blockRef_length : blockRef.length ≤ 8
  expiration_length : expiration.length ≤ 4
  clauses_length : clauses.length ≤ 255
  gasPriceCoef_length : gasPriceCoef.length ≤ 1
  gas_length : gas.length ≤ 8
  dependsOn_length : dependsOn.length = 0 ∨ dependsOn.length = 32
  nonce_length : nonce.length ≤ 8

/-- A clause as a list of strings. -/
def ClauseRecord.tree (c : ClauseRecord) : Tree :=
  .list [.string c.toAddress, .string c.value, .string c.data]

/-- The members of the list that a transaction is. -/
def TxRecord.members (tx : TxRecord) : List Tree :=
  [.string tx.chainTag, .string tx.blockRef, .string tx.expiration,
    .list (tx.clauses.map ClauseRecord.tree), .string tx.gasPriceCoef, .string tx.gas,
    .string tx.dependsOn, .string tx.nonce, .list tx.reserved]

/-- The canonical encoding of a transaction. -/
def TxRecord.encode (tx : TxRecord) : List UInt8 := (Tree.list tx.members).encode

/-- The lengths in the encoding are below `2 ^ 32`: the length of the outer list, and
so every length within it. -/
def TxRecord.Encodable (tx : TxRecord) : Prop := (Tree.encodeAll tx.members).length < 2 ^ 32

/-- Bytes written into an array within its bounds. -/
theorem writeBytes_toList {n : ℕ} (out : Vector UInt8 n) {pos : ℕ} {bytes : List UInt8}
    (h : pos + bytes.length ≤ n) :
    (writeBytes out pos bytes).toList =
      out.toList.take pos ++ bytes ++ out.toList.drop (pos + bytes.length) := by
  induction bytes generalizing out pos with
  | nil => simp [writeBytes]
  | cons b bs ih =>
    simp only [List.length_cons] at h
    have hpos : pos < out.toList.length := by rw [Vector.length_toList]; omega
    have hset : (out.setIfInBounds pos b).toList =
        out.toList.take pos ++ b :: out.toList.drop (pos + 1) := by
      rw [Vector.toList_setIfInBounds, List.set_eq_take_append_cons_drop, if_pos hpos]
    have htake : (out.toList.take pos).length = pos := by
      rw [List.length_take]
      omega
    have hfront : (out.toList.take pos).take (pos + 1) = out.toList.take pos :=
      List.take_of_length_le (by omega)
    have hback : (out.toList.take pos).drop (pos + 1 + bs.length) = [] :=
      List.drop_of_length_le (by omega)
    rw [writeBytes, ih _ (by omega), hset, List.take_append, List.drop_append, htake, hfront, hback,
      show pos + 1 - pos = 1 by omega, show pos + 1 + bs.length - pos = bs.length + 1 by omega]
    simp [Nat.add_assoc, Nat.add_comm 1]

/-- What a complete clause leaves behind, over what was there before. -/
def ClauseContent.fill (content : ClauseContent) (toAddress value data : List UInt8) :
    ClauseContent where
  toAddress := writeBytes content.toAddress 0 toAddress
  toLength := toAddress.length
  value := content.value.write value
  data := if data.length = 68 then writeBytes content.data 0 data else content.data
  dataPresent := data.length ≠ 0

/-- Header bytes of a field of a clause have no effect. -/
theorem clauseRules_headers (bytes : List UInt8) (content : ClauseContent) :
    clauseRules.headers bytes content = content := by
  induction bytes with
  | nil => rfl
  | cons b bs ih => exact ih

/-- Reading a recipient. -/
theorem clauseRules_readItem_toAddress {i : Item} (hi : Fits false (some 20) i)
    (content : ClauseContent) :
    clauseRules.readItem .toAddress i content = some { content with
      toAddress := writeBytes content.toAddress 0 i.payload, toLength := i.payload.length } := by
  have hadmits : clauseRules.admits .toAddress i.isList i.payload.length = true :=
    admits_string.mpr hi
  rw [Rules.readItem, if_pos hadmits, clauseRules_storeAll_toAddress, clauseRules_headers]
  rfl

/-- Reading a value. -/
theorem clauseRules_readItem_value {i : Item} (hi : Fits false (some 32) i)
    (content : ClauseContent) :
    clauseRules.readItem .value i content =
      some { content with value := content.value.write i.payload } := by
  have hadmits : clauseRules.admits .value i.isList i.payload.length = true :=
    admits_string.mpr hi
  rw [Rules.readItem, if_pos hadmits, clauseRules_storeAll_value, clauseRules_headers]
  rfl

/-- Reading data, which ends the clause: data of a token transfer are kept, other data
are not read. -/
theorem clauseRules_run_data {i : Item} (hi : i.isList = false) (content : ClauseContent)
    (rest : List UInt8) :
    (clauseRules.machine.run ⟨.data, content, .header []⟩ (i.bytes ++ rest)).state?.map
        FieldState.env =
      some { content with
        data := if i.payload.length = 68 then writeBytes content.data 0 i.payload else content.data
        dataPresent := i.payload.length ≠ 0 } := by
  have hadmits : clauseRules.admits .data i.isList i.payload.length = true := by
    rw [hi]
    rfl
  have hdone (content : ClauseContent) (rest : List UInt8) :
      (clauseRules.machine.run ⟨.done, content, .header []⟩ rest).state?.map FieldState.env =
        some content := by
    rw [Machine.run_of_halted rfl]
    rfl
  by_cases hlength : i.payload.length = 68
  · have hread : clauseRules.readItem .data i content = some { content with
        data := writeBytes content.data 0 i.payload, dataPresent := i.payload.length ≠ 0 } := by
      rw [Rules.readItem, if_pos hadmits, clauseRules_storeAll_data, clauseRules_headers]
      rfl
    have hskips : clauseRules.skips .data i.payload.length = false := by
      simp [clauseRules, hlength]
    rw [Rules.run_item rfl i hskips content rest, hread, if_pos hlength]
    exact hdone _ rest
  · have hskips : clauseRules.skips .data i.payload.length = true := by
      simp [clauseRules, hlength]
    have hheader := readHeader_append i.valid rest
    rw [Rules.run_field rfl, if_neg hlength]
    simp only [Rules.fieldRun, Item.bytes, hheader, hadmits, hskips, if_true, clauseRules_headers]
    exact hdone _ _

/-- **Reading a complete clause**, whatever follows its fields. -/
theorem decodeClause_items {toItem valueItem dataItem : Item} (hto : Fits false (some 20) toItem)
    (hvalue : Fits false (some 32) valueItem) (hdata : dataItem.isList = false)
    (rest : List UInt8) (content : ClauseContent) :
    decodeClause content (itemsBytes [toItem, valueItem, dataItem] ++ rest) =
      some (content.fill toItem.payload valueItem.payload dataItem.payload) := by
  rw [decodeClause, clauseStart, itemsBytes_cons, List.append_assoc, Rules.run_item rfl toItem rfl,
    clauseRules_readItem_toAddress hto, Option.elim_some, itemsBytes_cons, List.append_assoc]
  rw [show clauseRules.next .toAddress = .value from rfl, Rules.run_item rfl valueItem rfl,
    clauseRules_readItem_value hvalue, Option.elim_some]
  rw [show clauseRules.next .value = .data from rfl, itemsBytes_cons, itemsBytes, List.flatMap_nil,
    List.append_nil]
  exact clauseRules_run_data hdata _ rest

/-- A clause is encoded as an item whose payload decodes to the clause. -/
theorem exists_item_clause (c : ClauseRecord) (h : c.tree.encode.length < 2 ^ 32) :
    ∃ i : Item, i.bytes = c.tree.encode ∧ i.isList = true ∧
      ∀ content, decodeClause content i.payload =
        some (content.fill c.toAddress c.value c.data) := by
  have hencode : c.tree.encode = encodeList (encodeString c.toAddress ++ (encodeString c.value ++
      (encodeString c.data ++ []))) := by
    rw [ClauseRecord.tree]
    simp only [Tree.encode, Tree.encodeAll]
  have hlist := length_le_encodeList (encodeString c.toAddress ++ (encodeString c.value ++
    (encodeString c.data ++ [])))
  have hto := length_le_encodeString c.toAddress
  have hvalue := length_le_encodeString c.value
  have hdata := length_le_encodeString c.data
  rw [hencode] at h
  simp only [List.length_append, List.length_nil] at hlist
  obtain ⟨toItem, hto₁, hto₂, hto₃⟩ := exists_item_encodeString c.toAddress (by omega)
  obtain ⟨valueItem, hvalue₁, hvalue₂, hvalue₃⟩ :=
    exists_item_encodeString c.value (by omega)
  obtain ⟨dataItem, hdata₁, hdata₂, hdata₃⟩ :=
    exists_item_encodeString c.data (by omega)
  obtain ⟨i, hi₁, hi₂, hi₃⟩ := exists_item_encodeList (encodeString c.toAddress ++
    (encodeString c.value ++ (encodeString c.data ++ []))) (by
      simp only [List.length_append, List.length_nil]
      omega)
  have hpayload : i.payload = itemsBytes [toItem, valueItem, dataItem] ++ [] := by
    rw [hi₃, ← hto₁, ← hvalue₁, ← hdata₁]
    simp [itemsBytes]
  have htoFits : Fits false (some 20) toItem := by
    refine ⟨hto₂, fun n hn => ?_⟩
    cases hn
    have := c.toAddress_length
    rw [hto₃]
    omega
  have hvalueFits : Fits false (some 32) valueItem := by
    refine ⟨hvalue₂, fun n hn => ?_⟩
    cases hn
    rw [hvalue₃]
    exact c.value_length
  refine ⟨i, by rw [hi₁, hencode], hi₂, fun content => ?_⟩
  rw [hpayload, decodeClause_items htoFits hvalueFits hdata₂ [], hto₃, hvalue₃, hdata₃]

/-- The item of a clause. -/
def IsClauseItem (c : ClauseRecord) (i : Item) : Prop :=
  i.isList = true ∧ ∀ content, decodeClause content i.payload =
    some (content.fill c.toAddress c.value c.data)

/-- Clauses are encoded as items, one after the other. -/
theorem exists_items_clauses (clauses : List ClauseRecord)
    (h : (Tree.encodeAll (clauses.map ClauseRecord.tree)).length < 2 ^ 32) :
    ∃ items : List Item, itemsBytes items = Tree.encodeAll (clauses.map ClauseRecord.tree) ∧
      List.Forall₂ IsClauseItem clauses items := by
  induction clauses with
  | nil => exact ⟨[], rfl, .nil⟩
  | cons c clauses ih =>
    rw [List.map_cons, Tree.encodeAll, List.length_append] at h
    obtain ⟨i, hbytes, hlist, hdecode⟩ := exists_item_clause c (by omega)
    obtain ⟨items, hitems, hclauses⟩ := ih (by omega)
    exact ⟨i :: items, by rw [itemsBytes_cons, hbytes, hitems, List.map_cons, Tree.encodeAll],
      .cons ⟨hlist, hdecode⟩ hclauses⟩

/-- The storage of a clause stays valid until the clause ends. -/
def Scratch.Lasting (scratch : Scratch) : Prop := ∀ k b, scratch.dataPresent k b = b

/-- Reading clauses collects their data flags. -/
theorem clausesRules_run_items {scratch : Scratch} (hlasting : scratch.Lasting)
    {clauses : List ClauseRecord} {items : List Item}
    (hitems : List.Forall₂ IsClauseItem clauses items)
    (d : ClausesData) :
    ∃ e, (clausesRules scratch).machine.run ⟨.clause, d, .header []⟩ (itemsBytes items) =
        .running ⟨.clause, e, .header []⟩ ∧
      e.content.dataPresent =
        (d.content.dataPresent || clauses.any fun c => decide (c.data.length ≠ 0)) := by
  induction hitems generalizing d with
  | nil => exact ⟨d, Machine.run_nil rfl, by rw [List.any_nil, Bool.or_false]⟩
  | @cons c i clauses items hi hitems ih =>
    obtain ⟨hlist, hdecode⟩ := hi
    obtain ⟨clause, hfeed, hclause⟩ :=
      feed_of_decodeClause (hdecode (d.enter scratch).clause.env)
    have hflag :
        ({ d.enter scratch with clause := clause } : ClausesData).clauseDataPresent scratch =
        decide (c.data.length ≠ 0) := by
      have henv : clause.env.dataPresent = decide (c.data.length ≠ 0) := by rw [hclause]; rfl
      unfold ClausesData.clauseDataPresent
      split
      · exact henv
      · rw [hlasting, henv]
    obtain ⟨e, hrun, he⟩ := ih ((clausesRules scratch).finish .clause i.payload.length
      { d.enter scratch with clause := clause })
    refine ⟨e, ?_, ?_⟩
    · rw [itemsBytes_cons, Rules.run_item rfl i rfl, clausesRules_readItem, if_pos hlist, hfeed]
      exact hrun
    · rw [he, clausesRules_finish, hflag, List.any_cons, ← Bool.or_assoc]
      rfl

/-- An item that a canonical string is, within a limit. -/
private theorem exists_item_string {bytes : List UInt8} {n : ℕ} (h : bytes.length ≤ n)
    (hn : n < 2 ^ 32) :
    ∃ i : Item, i.bytes = encodeString bytes ∧ Fits false (some n) i ∧ i.payload = bytes := by
  obtain ⟨i, hbytes, hlist, hpayload⟩ := exists_item_encodeString bytes (by omega)
  refine ⟨i, hbytes, ⟨hlist, fun m hm => ?_⟩, hpayload⟩
  cases hm
  rw [hpayload]
  exact h

/-- The canonical encoding has the layout of a transaction. -/
theorem exists_layout {tx : TxRecord} (h : tx.Encodable) :
    ∃ (l : TxLayout) (items : List Item), l.bytes = tx.encode ∧ l.items.Admitted ∧
      l.items.gasPriceCoef.payload = tx.gasPriceCoef ∧ l.items.gas.payload = tx.gas ∧
      l.items.clauses.payload = itemsBytes items ∧
      List.Forall₂ IsClauseItem tx.clauses items := by
  have hmembers : Tree.encodeAll tx.members = encodeString tx.chainTag ++
      (encodeString tx.blockRef ++ (encodeString tx.expiration ++
        (encodeList (Tree.encodeAll (tx.clauses.map ClauseRecord.tree)) ++
          (encodeString tx.gasPriceCoef ++ (encodeString tx.gas ++ (encodeString tx.dependsOn ++
            (encodeString tx.nonce ++ (encodeList (Tree.encodeAll tx.reserved) ++ [])))))))) := by
    rw [TxRecord.members]
    simp only [Tree.encode, Tree.encodeAll]
  have hlength := congrArg List.length hmembers
  have hclausesLength := length_le_encodeList (Tree.encodeAll (tx.clauses.map ClauseRecord.tree))
  have hreservedLength := length_le_encodeList (Tree.encodeAll tx.reserved)
  simp only [List.length_append, List.length_nil] at hlength
  unfold TxRecord.Encodable at h
  obtain ⟨chainTag, chainTag₁, chainTag₂, -⟩ :=
    exists_item_string (tx.chainTag_length.trans (by decide : 1 ≤ 4)) (by decide)
  obtain ⟨blockRef, blockRef₁, blockRef₂, -⟩ := exists_item_string tx.blockRef_length (by decide)
  obtain ⟨expiration, expiration₁, expiration₂, -⟩ :=
    exists_item_string tx.expiration_length (by decide)
  obtain ⟨clauses, clauses₁, clauses₂, clauses₃⟩ := exists_item_encodeList
    (Tree.encodeAll (tx.clauses.map ClauseRecord.tree)) (by omega)
  obtain ⟨gasPriceCoef, gasPriceCoef₁, gasPriceCoef₂, gasPriceCoef₃⟩ :=
    exists_item_string tx.gasPriceCoef_length (by decide)
  obtain ⟨gas, gas₁, gas₂, gas₃⟩ := exists_item_string tx.gas_length (by decide)
  obtain ⟨dependsOn, dependsOn₁, dependsOn₂, -⟩ := exists_item_string
    (show tx.dependsOn.length ≤ 32 from tx.dependsOn_length.elim (by omega) (by omega)) (by decide)
  obtain ⟨nonce, nonce₁, nonce₂, -⟩ := exists_item_string tx.nonce_length (by decide)
  obtain ⟨reserved, reserved₁, reserved₂, -⟩ := exists_item_encodeList
    (Tree.encodeAll tx.reserved) (by omega)
  obtain ⟨items, hitems, hclauses⟩ := exists_items_clauses tx.clauses (by omega)
  have houter : readHeader (encodeHeader true (Tree.encodeAll tx.members).length) =
      .complete ⟨true, (Tree.encodeAll tx.members).length,
        (encodeHeader true (Tree.encodeAll tx.members).length).length⟩ := by
    have := readHeader_encodeHeader true h []
    rwa [List.append_nil] at this
  refine ⟨⟨_, _, houter, ⟨chainTag, blockRef, expiration, clauses, gasPriceCoef, gas, dependsOn,
    nonce, reserved⟩⟩, items, ?_, ⟨chainTag₂, blockRef₂, expiration₂, ⟨clauses₂, nofun⟩,
      gasPriceCoef₂, gas₂, dependsOn₂, nonce₂, ⟨reserved₂, nofun⟩⟩, gasPriceCoef₃, gas₃,
      clauses₃.trans hitems.symm, hclauses⟩
  rw [TxRecord.encode, Tree.encode, encodeList]
  simp only [TxLayout.bytes, TxItems.toList, itemsBytes, List.flatMap_cons, List.flatMap_nil,
    chainTag₁, blockRef₁, expiration₁, clauses₁, gasPriceCoef₁, gas₁, dependsOn₁, nonce₁, reserved₁,
    hmembers]

/-- A number holds the bytes of a string. -/
def TxInt256.Holds (n : TxInt256) (bytes : List UInt8) : Prop :=
  n.length = bytes.length ∧ n.value.toList.take n.length = bytes

/-- What is held of a transaction agrees with the record. -/
structure TxView.Holds (v : TxView) (tx : TxRecord) : Prop where
  gaspricecoef : v.gaspricecoef.Holds tx.gasPriceCoef
  gas : v.gas.Holds tx.gas
  clausesLength : v.clausesLength.toNat = tx.clauses.length
  firstClause : ∀ c ∈ tx.clauses.head?,
    v.firstClause.toLength = c.toAddress.length ∧
    v.firstClause.toAddress.toList.take v.firstClause.toLength = c.toAddress ∧
    v.firstClause.value.Holds c.value ∧
    (c.data.length = 68 → v.firstClause.data.toList = c.data)
  dataPresent : v.dataPresent = true ↔ ∃ c ∈ tx.clauses, c.data ≠ []

/-- Bytes written at the start of an array are found there. -/
theorem writeBytes_take {n : ℕ} (out : Vector UInt8 n) {bytes : List UInt8} (h : bytes.length ≤ n) :
    (writeBytes out 0 bytes).toList.take bytes.length = bytes := by
  rw [writeBytes_toList out (by omega), List.take_zero, List.nil_append, List.take_left]

/-- What is written over all of an array. -/
theorem writeBytes_full {n : ℕ} (out : Vector UInt8 n) {bytes : List UInt8}
    (hlength : bytes.length = n) : (writeBytes out 0 bytes).toList = bytes := by
  rw [writeBytes_toList out (by omega), List.take_zero, List.nil_append,
    List.drop_of_length_le (by rw [Vector.length_toList]; omega), List.append_nil]

/-- A number holds what was written to it. -/
theorem TxInt256.holds_write (old : TxInt256) {bytes : List UInt8} (h : bytes.length ≤ 32) :
    (old.write bytes).Holds bytes :=
  ⟨rfl, writeBytes_take old.value h⟩

/-- The clauses entered in the payload of items. -/
theorem splitClauses_itemsBytes (items : List Item) :
    splitClauses (itemsBytes items) = items.map Item.payload := by
  have hsplit := splitItems_itemsBytes items [] rfl
  rw [List.append_nil] at hsplit
  simp only [splitClauses, hsplit, readHeader, List.append_nil]

/-- The displayed clause holds the first clause of the record. -/
theorem ClausesRead.firstClause_fill {firstClause : ClauseContent} {c : ClauseRecord}
    {clauses : List ClauseRecord} {items : List Item} {e : ClausesData}
    (hread : ClausesRead (.initial firstClause) (items.map Item.payload) e)
    (hitems : List.Forall₂ IsClauseItem (c :: clauses) items) (hlength : clauses.length ≤ 255) :
    e.firstClause = firstClause.fill c.toAddress c.value c.data := by
  cases hitems with
  | @cons _ i _ items hi hitems =>
    have hfirst := hread.firstClause
    rw [List.map_cons, show (ClausesData.initial firstClause).entered = 0 from rfl,
      displayedPayloads_head (by rw [List.length_map, ← hitems.length_eq]; exact hlength),
      overlayClauses, hi.2] at hfirst
    exact (Option.some.inj hfirst).symm

/-- A clause that was filled from a record holds its fields. -/
theorem ClauseContent.fill_holds (content : ClauseContent) (c : ClauseRecord) :
    (content.fill c.toAddress c.value c.data).toLength = c.toAddress.length ∧
      (content.fill c.toAddress c.value c.data).toAddress.toList.take c.toAddress.length =
        c.toAddress ∧
      (content.fill c.toAddress c.value c.data).value.Holds c.value ∧
      (c.data.length = 68 →
        (content.fill c.toAddress c.value c.data).data.toList = c.data) := by
  have hto : c.toAddress.length ≤ 20 := c.toAddress_length.elim (by omega) (by omega)
  refine ⟨rfl, writeBytes_take _ hto, TxInt256.holds_write _ c.value_length, fun hdata => ?_⟩
  rw [ClauseContent.fill, if_pos hdata]
  exact writeBytes_full _ hdata

/-- What is held of a record that was read over what was there before. -/
structure TxView.Over (v : TxView) (firstClause : ClauseContent) (content : TxContent)
    (tx : TxRecord) : Prop where
  gaspricecoef : v.gaspricecoef = content.gaspricecoef.write tx.gasPriceCoef
  gas : v.gas = content.gas.write tx.gas
  clausesLength : v.clausesLength = UInt8.ofNat tx.clauses.length
  firstClause : v.firstClause = (tx.clauses.head?.map fun c =>
    firstClause.fill c.toAddress c.value c.data).getD firstClause
  dataPresent : v.dataPresent = tx.clauses.any fun c => c.data.length ≠ 0

/-- A run over the encoding of a record halts at its end, having read the record. -/
theorem txRules_run_encode_over {scratch : Scratch} (hlasting : scratch.Lasting)
    (firstClause : ClauseContent) (content : TxContent) {tx : TxRecord} (h : tx.Encodable) :
    ∃ t, (txRules scratch).machine.run (txStart firstClause content) tx.encode = .halted t [] ∧
      t.env.view.Over firstClause content tx := by
  obtain ⟨l, items, hbytes, hadmitted, hcoef, hgas, hpayload, hitems⟩ := exists_layout h
  obtain ⟨e, hrun, hflag⟩ := clausesRules_run_items hlasting hitems (.initial firstClause)
  have hstate : ((clausesRules scratch).machine.run (clausesStart firstClause)
      l.items.clauses.payload).state? = some ⟨.clause, e, .header []⟩ := by
    rw [hpayload, clausesStart, hrun]
    rfl
  obtain ⟨t, hhalted, hresult⟩ :=
    txRules_run_layout scratch firstClause content l hadmitted hstate []
  rw [List.append_nil, hbytes] at hhalted
  have hread := clausesRules_run scratch (show Counted (.initial firstClause) from ⟨rfl⟩) hstate
  rw [hpayload, splitClauses_itemsBytes] at hread
  have hentered : e.entered = tx.clauses.length := by
    rw [hread.entered, List.length_map, hitems.length_eq]
    exact Nat.zero_add _
  refine ⟨t, hhalted, ?_⟩
  rw [hresult]
  refine ⟨?_, ?_, ?_, ?_, ?_⟩
  · rw [← hcoef]
    rfl
  · rw [← hgas]
    rfl
  · show e.content.clausesLength = _
    rw [hread.counted.clausesLength, hentered]
  · show e.firstClause = _
    have hle := tx.clauses_length
    cases hclauses : tx.clauses with
    | nil =>
      rw [hclauses] at hitems
      cases hitems
      exact (Option.some.inj hread.firstClause).symm
    | cons c clauses =>
      rw [hclauses] at hitems hle
      exact hread.firstClause_fill hitems (by simp only [List.length_cons] at hle; omega)
  · show e.content.dataPresent = _
    rw [hflag]
    rfl

/-- What was read over anything holds the record. -/
theorem TxView.Over.holds {v : TxView} {firstClause : ClauseContent} {content : TxContent}
    {tx : TxRecord} (h : v.Over firstClause content tx) : v.Holds tx := by
  refine ⟨?_, ?_, ?_, ?_, ?_⟩
  · rw [h.gaspricecoef]
    exact TxInt256.holds_write _ (tx.gasPriceCoef_length.trans (by decide))
  · rw [h.gas]
    exact TxInt256.holds_write _ (tx.gas_length.trans (by decide))
  · have hle := tx.clauses_length
    rw [h.clausesLength, UInt8.toNat_ofNat', Nat.mod_eq_of_lt (by omega)]
  · intro c hc
    rw [h.firstClause, Option.mem_def.mp hc]
    exact ClauseContent.fill_holds firstClause c
  · rw [h.dataPresent]
    simp

/-- A run over the encoding of a record halts at its end, holding the record. -/
theorem txRules_run_encode {scratch : Scratch} (hlasting : scratch.Lasting)
    (firstClause : ClauseContent) (content : TxContent) {tx : TxRecord} (h : tx.Encodable) :
    ∃ t, (txRules scratch).machine.run (txStart firstClause content) tx.encode = .halted t [] ∧
      t.env.view.Holds tx := by
  obtain ⟨t, hhalted, hover⟩ := txRules_run_encode_over hlasting firstClause content h
  exact ⟨t, hhalted, hover.holds⟩

/-- **Decoding undoes encoding.** On the first bytes of the encoding of a record the
parser waits for more, and it finishes with the last byte, holding the record. -/
theorem processTxChunks_encode {scratch : Scratch} (hlasting : scratch.Lasting) (env : TxEnv)
    {tx : TxRecord} (h : tx.Encodable) {chunks : List (List UInt8)} {rest : List UInt8}
    (hchunks : chunks.flatten ++ rest = tx.encode) :
    (rest ≠ [] → ∃ s, processTxChunks scratch (initTx env) chunks =
      (.returned .processing s, chunks.flatten)) ∧
    (rest = [] → ∃ s, processTxChunks scratch (initTx env) chunks =
      (.returned .finished s, tx.encode) ∧ s.env.view.Holds tx) := by
  obtain ⟨t, hhalted, hholds⟩ :=
    txRules_run_encode hlasting env.clauses.env.firstClause env.content h
  have hsession := processTxChunks_run scratch env chunks
  constructor
  · intro hrest
    rw [← hchunks, Machine.run_append] at hhalted
    cases hfront : (txRules scratch).machine.run
        (txStart env.clauses.env.firstClause env.content) chunks.flatten with
    | running t' =>
      rw [hfront] at hsession
      obtain ⟨s, -, hprocess⟩ := hsession
      exact ⟨s, hprocess⟩
    | halted t' unread =>
      rw [hfront, Outcome.resume, Outcome.halted.injEq] at hhalted
      exact absurd (List.append_eq_nil_iff.mp hhalted.2).2 hrest
    | refused =>
      rw [hfront] at hhalted
      cases hhalted
  · rintro rfl
    rw [List.append_nil] at hchunks
    rw [hchunks, hhalted] at hsession
    obtain ⟨s, consumed, hsim, hprocess, hconsumed⟩ := hsession
    rw [List.append_nil] at hconsumed
    refine ⟨s, by rw [hprocess, hconsumed], ?_⟩
    rw [txRel_view hsim.env]
    exact hholds

/-- A transaction with one clause and a reserved list that is not empty. -/
def sampleTx : TxRecord where
  chainTag := [0x4a]
  blockRef := [0xaa, 0xbb]
  expiration := [0x20]
  clauses := [⟨List.replicate 20 0x11, [0xfe], [0x01, 0x02], .inr rfl, by decide⟩]
  gasPriceCoef := [0x80]
  gas := [0x52, 0x08]
  dependsOn := []
  nonce := [0xbc]
  reserved := [.string [0x01], .list []]
  chainTag_length := by decide
  blockRef_length := by decide
  expiration_length := by decide
  clauses_length := by decide
  gasPriceCoef_length := by decide
  gas_length := by decide
  dependsOn_length := .inl rfl
  nonce_length := by decide

set_option maxRecDepth 4000 in
theorem processTxChunks_encode_sampleTx :
    ∃ s, processTxChunks .valid (initTx .zero)
        [sampleTx.encode.take 7, [], (sampleTx.encode.drop 7).take 13, sampleTx.encode.drop 20] =
      (.returned .finished s, sampleTx.encode) ∧ s.env.view.Holds sampleTx :=
  (processTxChunks_encode (fun _ _ => rfl) .zero (by unfold TxRecord.Encodable; decide)
    (show List.flatten _ ++ [] = _ from rfl)).2 rfl

end AppVechain

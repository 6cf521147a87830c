import AppVechain.Device.ClauseCount
import AppVechain.Device.Conformance
import AppVechain.Device.Recipients
import AppVechain.Ustream.RoundTrip

/-!
# Transactions from their records

What the user is shown for a transaction is a function of its record, where its data
flag is found as it is. A host that brings the encoding of a record in any chunks is
answered with success until it is complete, and then the record is shown, or refused
by the settings.
-/

namespace AppVechain

open Rlp Streaming Reactive Numeral

/-- The fields of a clause. -/
def ClauseRecord.fields (c : ClauseRecord) : ClauseFields := ⟨c.toAddress, c.value, c.data⟩

/-- The fields of the clause that is displayed: the first one, if there is any. -/
def TxRecord.displayed (tx : TxRecord) : ClauseFields :=
  (tx.clauses.head?.map ClauseRecord.fields).getD ⟨[], [], []⟩

/-- Some clause has data. -/
def TxRecord.hasData (tx : TxRecord) : Bool := tx.clauses.any fun c => c.data.length ≠ 0

/-- The first clause decides about the data flag: there is no second one, or it has data. -/
def TxRecord.Settled (tx : TxRecord) : Prop :=
  tx.clauses.length ≤ 1 ∨ ∃ c ∈ tx.clauses.head?, c.data ≠ []

/-- There are several clauses. -/
def TxRecord.hasMultipleClauses (tx : TxRecord) : Bool := 1 < tx.clauses.length

/-- The settings refuse a transaction. -/
def TxRecord.refused (settings : Settings) (tx : TxRecord) : Bool :=
  tx.hasData && !settings.dataAllowed || tx.hasMultipleClauses && !settings.multiClauseAllowed

/-- The token that a clause transfers. -/
def ClauseFields.token? (f : ClauseFields) : Option TokenDefinition :=
  if f.data.length = 68 ∧ f.data.take 4 = TOKEN_TRANSFER_ID then
    TOKENS.find? fun token => token.address.toList = f.toAddress
  else none

/-- What a clause is displayed as: who receives how much of what. -/
structure Transfer where
  recipient : List UInt8
  amount : ℕ
  ticker : List UInt8

/-- A clause is displayed as the transfer of its token, if it has one, or of its value. -/
def ClauseFields.transfer (f : ClauseFields) : Transfer :=
  match f.token? with
  | some token => ⟨f.recipient, f.amount, token.ticker.takeWhile (· ≠ 0)⟩
  | none => ⟨f.shownRecipient, bigEndian f.value, [86, 69, 84, 32]⟩

/-- The amount as it is displayed. -/
def Transfer.amountText (t : Transfer) : List UInt8 := t.ticker ++ decimalText 18 t.amount ++ [0]

/-- The strings for the display of a transaction. -/
def TxRecord.texts (platform : Platform) (tx : TxRecord) : List (List UInt8) :=
  [addressToDisplayString platform.keccak256
      (Vector.ofFn fun i : Fin 20 => tx.displayed.transfer.recipient.getD i 0),
    tx.displayed.transfer.amountText,
    [86, 84, 72, 79, 32] ++
      decimalText 18 (maxFee (bigEndian tx.gasPriceCoef) (bigEndian tx.gas)) ++ [0]]

/-- **The review of a transaction**, from its record. -/
def TxRecord.review (platform : Platform) (path : List UInt32) (tx : TxRecord) : Review where
  flow := .transaction (tx.hasData && tx.displayed.token?.isNone) tx.hasMultipleClauses
  texts := tx.texts platform
  path := path
  hash := platform.blake2b256 tx.encode

/-- What is observed when a transaction is complete, unless its amount is too long. -/
def TxRecord.outcome? (platform : Platform) (settings : Settings) (path : List UInt32)
    (tx : TxRecord) : Option Outcome :=
  if tx.refused settings then some (.status [] HW_INCORRECT_DATA)
  else if tx.displayed.transfer.amountText.length ≤ 50 then some (.review (tx.review platform path))
  else none

/-- A token is found by its address. -/
theorem find?_token {token : TokenDefinition} (hlisted : token ∈ TOKENS)
    {p : TokenDefinition → Bool}
    (hp : ∀ token' ∈ TOKENS, p token' = true ↔ token'.address = token.address) :
    TOKENS.find? p = some token := by
  obtain ⟨token', htoken'⟩ := Option.isSome_iff_exists.mp
    (List.find?_isSome.mpr ⟨token, hlisted, (hp token hlisted).mpr rfl⟩)
  have hlisted' := List.mem_of_find?_eq_some htoken'
  have haddress := (hp token' hlisted').mp (List.find?_some htoken')
  rw [htoken', TOKENS_address_injective token' hlisted' token hlisted haddress]

/-- The token of a clause is the one that is called. -/
theorem ClauseFields.token?_eq_some_iff {f : ClauseFields} {token : TokenDefinition} :
    f.token? = some token ↔ f.Calls token := by
  unfold ClauseFields.token?
  constructor
  · intro h
    split at h
    case isTrue hcall =>
      have haddress := List.find?_some h
      exact ⟨List.mem_of_find?_eq_some h, (of_decide_eq_true haddress).symm, hcall.1, hcall.2⟩
    case isFalse => cases h
  · rintro ⟨hlisted, hto, hlength, hselector⟩
    rw [if_pos ⟨hlength, hselector⟩]
    apply find?_token hlisted
    intro token' _
    rw [decide_eq_true_eq, hto, Vector.toList_inj]

/-- It is the one that is looked up for the clause that was parsed. -/
theorem ClauseFields.over_token? {f : ClauseFields} (hto : f.toAddress.length ≤ 20) :
    (f.over .zero).token? = f.token? := by
  ext token
  rw [ClauseFields.token?_eq_some_iff]
  constructor
  · exact ClauseFields.calls_of_token? hto
  · intro h
    have htwenty : f.toAddress.length = 20 := by rw [h.toAddress, Vector.length_toList]
    have haddress : (f.over .zero).toAddress = token.address := by
      rw [← Vector.toList_inj, f.over_toAddress hto,
        (f.shownRecipient_eq_iff hto).mpr htwenty, h.toAddress]
    unfold ClauseContent.token?
    rw [if_pos (by rw [h.over_data]; exact h.selector)]
    apply find?_token h.listed
    intro token' _
    rw [decide_eq_true_eq, haddress]

/-- An address as it is in its array. -/
theorem ofFn_getD_toList (address : Vector UInt8 20) :
    (Vector.ofFn fun i : Fin 20 => address.toList.getD i 0) = address := by
  apply Vector.ext
  intro i hi
  simp

/-- **What is displayed of a clause** that was parsed. -/
theorem recognizeToken_transfer {d : Device} {f : ClauseFields} (hto : f.toAddress.length ≤ 20)
    (hvalue : f.value.length ≤ 32) (hclause : d.clauseContent = f.over .zero)
    (hdata : f.data ≠ [] → d.dataPresent = true) :
    (recognizeToken d).device.clauseContent.toAddress.toList = f.transfer.recipient ∧
      (recognizeToken d).device.clauseContent.value.number = f.transfer.amount ∧
      (recognizeToken d).tickerText = f.transfer.ticker ∧
      (recognizeToken d).device.dataPresent = (d.dataPresent && f.token?.isNone) := by
  have hlookup : (if d.dataPresent then d.clauseContent.token? else none) = f.token? := by
    rw [hclause, f.over_token? hto]
    cases htoken : f.token? with
    | none => exact ite_self _
    | some token =>
      have hcalls := ClauseFields.token?_eq_some_iff.mp htoken
      have hne : f.data ≠ [] := fun hnil => by
        have hlength := hcalls.length
        rw [hnil] at hlength
        cases hlength
      rw [if_pos (hdata hne)]
  unfold Shown.tickerText recognizeToken ClauseFields.transfer
  rw [hlookup]
  cases htoken : f.token? with
  | none =>
    have hticker : TICKER_VET.takeWhile (· ≠ 0) = [86, 69, 84, 32] := by decide
    refine ⟨?_, ?_, hticker, (Bool.and_true _).symm⟩
    · show d.clauseContent.toAddress.toList = _
      rw [hclause, f.over_toAddress hto]
    · show d.clauseContent.value.number = _
      rw [hclause]
      exact TxInt256.number_write _ hvalue
  | some token =>
    obtain ⟨hrecipient, hamount⟩ := (ClauseFields.token?_eq_some_iff.mp htoken).moveToken
    refine ⟨?_, ?_, rfl, (Bool.and_false _).symm⟩
    · show d.clauseContent.moveToken.toAddress.toList = _
      rw [hclause, hrecipient]
    · show d.clauseContent.moveToken.value.number = _
      rw [hclause, hamount]

/-- The fields of the displayed clause are within their sizes. -/
theorem TxRecord.displayed_length (tx : TxRecord) :
    tx.displayed.toAddress.length ≤ 20 ∧ tx.displayed.value.length ≤ 32 := by
  unfold TxRecord.displayed
  cases tx.clauses.head? with
  | none => exact ⟨Nat.zero_le _, Nat.zero_le _⟩
  | some c =>
    have hto : c.toAddress.length ≤ 20 := by
      have hlength := c.toAddress_length
      omega
    exact ⟨hto, c.value_length⟩

/-- Data of the displayed clause are data of the transaction. -/
theorem TxRecord.hasData_of_displayed {tx : TxRecord} (h : tx.displayed.data ≠ []) :
    tx.hasData = true := by
  unfold TxRecord.displayed at h
  cases hclauses : tx.clauses with
  | nil =>
    rw [hclauses] at h
    exact absurd rfl h
  | cons c clauses =>
    rw [hclauses] at h
    have hc : c.data ≠ [] := h
    rw [TxRecord.hasData, hclauses, List.any_cons]
    simp [hc]

variable {platform : Platform} {settings : Settings} {path : List UInt32} {tx : TxRecord}

/-- The displayed clause was read over a cleared one. -/
theorem TxView.Over.displayed {v : TxView} {content : TxContent} (h : v.Over .zero content tx) :
    v.firstClause = tx.displayed.over .zero := by
  rw [h.firstClause, TxRecord.displayed]
  cases tx.clauses.head? with
  | none => rfl
  | some c => rfl

/-- What was read is within its sizes. -/
theorem TxView.Over.bounded {v : TxView} {content : TxContent} (h : v.Over .zero content tx) :
    v.Bounded := by
  refine ⟨?_, ?_, ?_⟩
  · rw [h.gaspricecoef]
    exact tx.gasPriceCoef_length
  · rw [h.gas]
    exact tx.gas_length
  · rw [h.displayed]
    exact tx.displayed_length.2

/-- Strings are shown if the amount fits. -/
theorem signDisplay_response {shown : Shown} {strings : TxStrings}
    (hstrings : shown.strings platform = some strings) (haddress : strings.fullAddress.length ≤ 43)
    (hfee : strings.maxFee.length ≤ 60) :
    (signDisplay platform shown).response = if strings.fullAmount.length ≤ 50 then
      .answer (.review {
        flow := .transaction shown.device.dataPresent shown.device.multipleClauses
        texts := [strings.fullAddress, strings.fullAmount, strings.maxFee]
        path := shown.device.tmpCtx.path
        hash := shown.device.tmpCtx.hash }) .idle
    else .silent := by
  have haddress₁ : CharArray.write? 43 strings.fullAddress = some ⟨_, haddress⟩ := dif_pos haddress
  have hfee₁ : CharArray.write? 60 strings.maxFee = some ⟨_, hfee⟩ := dif_pos hfee
  unfold signDisplay
  rw [hstrings]
  by_cases hamount : strings.fullAmount.length ≤ 50
  · have hamount₁ : CharArray.write? 50 strings.fullAmount = some ⟨_, hamount⟩ := dif_pos hamount
    simp only [haddress₁, hamount₁, hfee₁, if_pos hamount]
    rfl
  · have hamount₁ : CharArray.write? 50 strings.fullAmount = none := dif_neg hamount
    simp only [haddress₁, hamount₁, hfee₁, if_neg hamount]
    rfl

/-- What is written for a record that was read. -/
theorem recognizeToken_record (platform : Platform) {d : Device} {content : TxContent}
    (hview : d.tx.env.view.Over .zero content tx) (hdata : d.dataPresent = tx.hasData) :
    ∃ strings, (recognizeToken d).strings platform = some strings ∧
      [strings.fullAddress, strings.fullAmount, strings.maxFee] = tx.texts platform ∧
      strings.fullAddress.length ≤ 43 ∧
      strings.fullAmount.length = tx.displayed.transfer.amountText.length ∧
      strings.maxFee.length ≤ 60 ∧
      (recognizeToken d).device.dataPresent = (tx.hasData && tx.displayed.token?.isNone) := by
  obtain ⟨hto, hvalue⟩ := tx.displayed_length
  obtain ⟨strings, hstrings, haddress, hamount, hfee⟩ :=
    recognizeToken_strings platform hview.bounded
  obtain ⟨hrecipient, hnumber, hticker, hwarns⟩ := recognizeToken_transfer hto hvalue
    hview.displayed fun hne => hdata.trans (tx.hasData_of_displayed hne)
  have hcoef : d.tx.env.content.gaspricecoef.number = bigEndian tx.gasPriceCoef := by
    show d.tx.env.view.gaspricecoef.number = _
    rw [hview.gaspricecoef, TxInt256.number_write _ (tx.gasPriceCoef_length.trans (by decide))]
  have hgas : d.tx.env.content.gas.number = bigEndian tx.gas := by
    show d.tx.env.view.gas.number = _
    rw [hview.gas, TxInt256.number_write _ (tx.gas_length.trans (by decide))]
  have hshown : strings.fullAddress = addressToDisplayString platform.keccak256
      (Vector.ofFn fun i : Fin 20 => tx.displayed.transfer.recipient.getD i 0) := by
    rw [haddress, ← hrecipient, ofFn_getD_toList]
  rw [hticker, hnumber] at hamount
  rw [hcoef, hgas] at hfee
  refine ⟨strings, hstrings, ?_, ?_, ?_, ?_, hwarns.trans (by rw [hdata])⟩
  · rw [hshown, hamount, hfee]
    rfl
  · rw [hshown]
    exact (addressToDisplayString_length _ _).le
  · rw [hamount]
    rfl
  · have hcoefLt : bigEndian tx.gasPriceCoef < 256 := by
      rw [← hcoef]
      exact TxInt256.number_lt hview.bounded.gaspricecoef
    have hgasLt : bigEndian tx.gas < 2 ^ 64 := by
      rw [← hgas]
      exact TxInt256.number_lt hview.bounded.gas
    have hlength := maxFee_text_length hcoefLt hgasLt
    rw [hfee, List.length_append, List.length_append]
    simp only [List.length_cons, List.length_nil]
    omega

/-- What is said of a record. A text that is too long is written over what is behind its array. -/
def TxRecord.response (platform : Platform) (settings : Settings) (path : List UInt32)
    (tx : TxRecord) : Response Outcome Signing :=
  (tx.outcome? platform settings path).elim .silent fun o => .answer o .idle

/-- What is answered ends what was in hand. -/
theorem TxRecord.response_eq_answer {o : Outcome} : tx.response platform settings path =
    .answer o .idle ↔ tx.outcome? platform settings path = some o := by
  unfold TxRecord.response
  cases tx.outcome? platform settings path with
  | none => simp
  | some o' => simp

/-- **A record that was read is shown as it is**, or refused. -/
theorem signFinish_record {d : Device} {content : TxContent}
    (hview : d.tx.env.view.Over .zero content tx) (hhash : d.blake2b = tx.encode)
    (hpath : d.tmpCtx.path = path) :
    (signFinish platform settings d).response = tx.response platform settings path := by
  have hdata : d.clausesContent.dataPresent = tx.hasData := hview.dataPresent
  have hmany : d.hasMultipleClauses = tx.hasMultipleClauses := by
    have hle := tx.clauses_length
    have hlength : d.clausesContent.clausesLength = UInt8.ofNat tx.clauses.length :=
      hview.clausesLength
    rw [Device.hasMultipleClauses, TxRecord.hasMultipleClauses, hlength, decide_eq_decide]
    exact (one_lt_ofNat_iff _).trans (by rw [Nat.mod_eq_of_lt (by omega)])
  have hrefused : d.refused settings = tx.refused settings := by
    rw [Device.refused, TxRecord.refused, hdata, hmany]
  unfold TxRecord.response TxRecord.outcome?
  unfold signFinish
  rcases signChecks_cases platform settings d with ⟨hyes, d', hd'⟩ | ⟨hno, hpassed⟩
  · rw [if_pos (hrefused.symm.trans hyes), hd']
    rfl
  · have hchecked : (d.checked platform).tx.env.view.Over .zero content tx := hview
    obtain ⟨strings, hstrings, htexts, haddress, hamount, hfee, hwarns⟩ :=
      recognizeToken_record platform hchecked hdata
    obtain ⟨clause, data, hdevice⟩ := recognizeToken_device (d.checked platform)
    rw [if_neg (by rw [← hrefused, hno]; decide), hpassed]
    show (signDisplay platform (recognizeToken (d.checked platform))).response = _
    rw [signDisplay_response hstrings haddress hfee, htexts, hwarns, hdevice, hamount]
    by_cases hfits : tx.displayed.transfer.amountText.length ≤ 50
    · rw [if_pos hfits, if_pos hfits]
      show Response.answer (Outcome.review ⟨.transaction _ d.hasMultipleClauses, _, d.tmpCtx.path,
        platform.blake2b256 d.blake2b⟩) Signing.idle = _
      rw [hmany, hpath, hhash]
      rfl
    · rw [if_neg hfits, if_neg hfits]
      rfl

/-- The first clause of the encoding decides if the one of the record does. -/
theorem TxRecord.Settled.flagDecided (h : tx.Settled) (htx : tx.Encodable) :
    FlagDecided tx.encode := by
  obtain ⟨l, items, hbytes, -, -, -, hpayload, hitems⟩ := exists_layout htx
  rw [← hbytes]
  apply TxLayout.flagDecided
  rw [FirstDecides, hpayload, splitClauses_itemsBytes, List.length_map, ← hitems.length_eq]
  refine h.imp_right ?_
  rintro ⟨c, hc, hdata⟩
  obtain ⟨others, hclauses⟩ := List.head?_eq_some_iff.mp hc
  rw [hclauses] at hitems
  obtain ⟨i, items, hi, -, rfl⟩ := List.forall₂_cons_left_iff.mp hitems
  refine ⟨i.payload, rfl, _, hi.2 .zero, ?_⟩
  simpa [ClauseContent.fill] using hdata

/-- **The encoding of a record**, complete, where its data flag is found. -/
theorem transactionResponse_encode (htx : tx.Encodable) (hpath : path.length ≤ 10) {found : Bool}
    (hfound : tx.Settled ∨ found = tx.hasData) :
    transactionResponse platform settings found path tx.encode =
      tx.response platform settings path := by
  obtain ⟨t, hrun, hover⟩ :=
    txRules_run_encode_over (show Scratch.valid.Lasting from fun _ _ => rfl) .zero .zero htx
  obtain ⟨whole, hwhole, hview, -⟩ := finished_of_halted hrun
  have hflag : FlagDecided tx.encode ∨ found = whole.env.view.dataPresent :=
    hfound.imp (fun hsettled => hsettled.flagDecided htx) fun hdata => by
      rw [hview, hover.dataPresent, hdata]
      rfl
  obtain ⟨fresh, hprocess, hfresh⟩ := processTx_stale hwhole hflag
  have hread := ((txRules_run_blake2b .valid (t := txStart .zero .zero) trivial
    tx.encode).2 t [] hrun).2
  rw [List.append_nil] at hread
  rw [transactionResponse, hprocess]
  have hsame : fresh.env.view = t.env.view := hfresh.trans hview
  have hover : fresh.env.view.Over .zero .zero tx := hsame ▸ hover
  apply signFinish_record hover _ (TmpCtx.path_ofPath hpath)
  exact (congrArg TxView.blake2b hsame).trans hread

/-- The review of a transaction is not one of a key. -/
theorem transactionReview_flow {found : Bool} {bytes : List UInt8} {r : Review}
    (h : transactionReview platform settings found path bytes = some r) :
    r.flow ≠ .publicKey := by
  unfold transactionReview at h
  generalize processTx (.stale found) (initTx .zero) bytes = out at h
  cases out with
  | stuck e => cases h
  | returned status parsed =>
    cases status with
    | processing => cases h
    | fault => cases h
    | finished =>
      dsimp only at h
      generalize { Device.boot with tx := parsed, tmpCtx := TmpCtx.ofPath path } = d at h
      rw [signFinish] at h
      rcases signChecks_cases platform settings d with ⟨-, d', hd'⟩ | ⟨-, hpassed⟩
      · rw [hd'] at h
        cases h
      · rw [hpassed] at h
        rw [signDisplay_flow h]
        exact Flow.noConfusion

/-- A transaction is answered with its review. -/
theorem transactionResponse_eq_review {found : Bool} {bytes : List UInt8} {r : Review} :
    transactionReview platform settings found path bytes = some r ↔
      transactionResponse platform settings found path bytes = .answer (.review r) .idle := by
  have hflow : transactionReview platform settings found path bytes = some r →
      r.flow ≠ .publicKey := transactionReview_flow
  unfold transactionReview at hflow ⊢
  unfold transactionResponse
  generalize processTx (.stale found) (initTx .zero) bytes = out at hflow ⊢
  cases out with
  | stuck e => exact iff_of_false (fun h => by cases h) fun h => by cases h
  | returned status parsed =>
    cases status with
    | processing => exact iff_of_false (fun h => by cases h) fun h => by cases h
    | fault => exact iff_of_false (fun h => by cases h) fun h => by cases h
    | finished =>
      dsimp only at hflow ⊢
      generalize signFinish platform settings _ = ending at hflow ⊢
      cases ending with
      | throw data sw d => exact iff_of_false (fun h => by cases h) fun h => by cases h
      | stuck e => exact iff_of_false (fun h => by cases h) fun h => by cases h
      | review flow d =>
        cases flow with
        | publicKey =>
          refine iff_of_false (fun h => ?_) fun h => by cases h
          have hpublic := hflow h
          cases h
          exact hpublic rfl
        | transaction => simp [Ending.review?, Ending.response, Ending.answer?, Answer.outcome]
        | message => simp [Ending.review?, Ending.response, Ending.answer?, Answer.outcome]
        | certificate => simp [Ending.review?, Ending.response, Ending.answer?, Answer.outcome]

/-- **The review of the encoding of a record** is the one of the record, where its data flag is
found, when the settings allow it and its amount can be displayed. -/
theorem transactionReview_encode (htx : tx.Encodable) (hpath : path.length ≤ 10) {found : Bool}
    (hfound : tx.Settled ∨ found = tx.hasData) {r : Review} :
    transactionReview platform settings found path tx.encode = some r ↔
      r = tx.review platform path ∧ tx.refused settings = false ∧
        tx.displayed.transfer.amountText.length ≤ 50 := by
  rw [transactionResponse_eq_review, transactionResponse_encode htx hpath hfound,
    tx.response_eq_answer, TxRecord.outcome?]
  cases tx.refused settings with
  | true => simp
  | false =>
    by_cases hfits : tx.displayed.transfer.amountText.length ≤ 50
    · simp [hfits, eq_comm]
    · simp [hfits]

/-- The beginning of the encoding of a record, whatever is found. -/
theorem transactionResponse_prefix (htx : tx.Encodable) {bytes rest : List UInt8}
    (hbytes : bytes ++ rest = tx.encode) (hrest : rest ≠ []) (found : Bool) :
    transactionResponse platform settings found path bytes =
      .answer (.status [] HW_OK) (.transaction path bytes) := by
  obtain ⟨t, hrun, -⟩ :=
    txRules_run_encode_over (show Scratch.valid.Lasting from fun _ _ => rfl) .zero .zero htx
  obtain ⟨t', hrun', -⟩ := txRules_run_storage hrun (.stale found)
  rw [← hbytes] at hrun'
  obtain ⟨u, hfront⟩ := Machine.run_prefix hrun' hrest
  have hfresh := processTx_fresh (.stale found) bytes
  rw [hfront] at hfresh
  obtain ⟨fresh, hprocess⟩ := hfresh
  rw [transactionResponse, hprocess]

/-- The commands bring a transaction: the first one its path and its first bytes, and the others
its rest in chunks, the last of which is not empty. -/
structure BringTransaction (path : List UInt32) (bytes first : List UInt8)
    (more : List (List UInt8)) (c : Command) (cs : List Command) : Prop where
  pos : 1 ≤ path.length
  ten : path.length ≤ 10
  cut : first ++ more.flatten = bytes
  last : (first :: more).getLast? ≠ some []
  begins : c.Brings INS_SIGN P1_FIRST (pathBytes path ++ first)
  goesOn : List.Forall₂ (fun c chunk => c.Brings INS_SIGN P1_MORE chunk) cs more

/-- The path in front of the data, and what is behind it. -/
theorem Command.Brings.hasPath {c : Command} {ins p1 : UInt8} {rest : List UInt8}
    (h : c.Brings ins p1 (pathBytes path ++ rest)) (hpos : 1 ≤ path.length)
    (hten : path.length ≤ 10) : c.G.HasPath ∧ c.G.path = path ∧
      c.G.bytes c.G.behindPath (c.G.lc.toNat - (1 + 4 * c.G.pathLength)) = rest := by
  have hdata := h.data
  have hbyte : c.G.byte OFFSET_CDATA = UInt8.ofNat path.length :=
    c.G.byte_of_bytes (i := 0) hdata rfl
  have hpath : c.G.pathLength = path.length := by
    rw [ApduBuffer.pathLength, hbyte, UInt8.toNat_ofNat', Nat.mod_eq_of_lt (by omega)]
  have hlc : c.G.lc.toNat = 1 + 4 * path.length + rest.length := by
    rw [h.lc, List.length_append, length_pathBytes]
  have hbehind : c.G.behindPath = OFFSET_CDATA + (pathBytes path).length := by
    rw [ApduBuffer.behindPath, hpath, length_pathBytes, Nat.add_assoc]
  refine ⟨⟨by omega, by omega, by omega⟩, c.G.path_of_bytes hdata hpath, ?_⟩
  rw [hbehind, hpath, hlc, Nat.add_sub_cancel_left]
  exact c.G.bytes_of_bytes hdata

/-- The request of a command that begins a transaction. -/
theorem Command.Brings.beginTransaction {c : Command} {first : List UInt8}
    (h : c.Brings INS_SIGN P1_FIRST (pathBytes path ++ first)) (hpos : 1 ≤ path.length)
    (hten : path.length ≤ 10) : c.G.transactionRequest = .beginTransaction path first ∧
      c.request = .beginTransaction path first := by
  obtain ⟨hG, hpath, hrest⟩ := h.hasPath hpos hten
  have hrequest : c.G.transactionRequest = .beginTransaction path first := by
    rw [ApduBuffer.transactionRequest, if_pos h.p1, if_neg (not_not.mpr hG),
      if_neg (not_not.mpr h.p2), ApduBuffer.payload, if_pos h.p1, hpath, hrest]
  rw [Command.request, if_neg (not_not.mpr h.cla), if_neg (by rw [h.ins]; decide), if_pos h.ins]
  exact ⟨hrequest, hrequest⟩

/-- The request of a command that goes on with a transaction. -/
theorem Command.Brings.moreTransaction {c : Command} {chunk : List UInt8}
    (h : c.Brings INS_SIGN P1_MORE chunk) : c.G.transactionRequest = .moreTransaction chunk ∧
      c.request = .moreTransaction chunk := by
  have hp1 : c.G.p1 ≠ P1_FIRST := by
    rw [h.p1]
    decide
  have hrequest : c.G.transactionRequest = .moreTransaction chunk := by
    rw [ApduBuffer.transactionRequest, if_neg hp1, if_pos ⟨h.p1, h.p2⟩, ApduBuffer.payload,
      if_neg hp1, h.data]
  rw [Command.request, if_neg (not_not.mpr h.cla), if_neg (by rw [h.ins]; decide), if_pos h.ins]
  exact ⟨hrequest, hrequest⟩

/-- A request that begins a transaction. -/
theorem ApduBuffer.begins_of_transactionRequest {G : ApduBuffer} {payload : List UInt8}
    (h : G.transactionRequest = .beginTransaction path payload) :
    G.p1 = P1_FIRST ∧ G.HasPath ∧ G.p2 = 0 ∧ G.payload = payload := by
  unfold transactionRequest at h
  split_ifs at h with hp1 hpath hp2
  · cases h
    exact ⟨hp1, hpath, not_not.mp hp2, rfl⟩

/-- A request that goes on with a transaction. -/
theorem ApduBuffer.more_of_transactionRequest {G : ApduBuffer} {payload : List UInt8}
    (h : G.transactionRequest = .moreTransaction payload) :
    G.p1 = P1_MORE ∧ G.p2 = 0 ∧ G.payload = payload := by
  unfold transactionRequest at h
  split_ifs at h with hp1 hpath hp2 hmore
  · cases h
    exact ⟨hmore.1, hmore.2, rfl⟩

/-- The request completes these bytes of a transaction, with those in hand. -/
def Signing.Completes (signing : Signing) (request : Request) (bytes : List UInt8) : Prop :=
  (∃ path, request = .beginTransaction path bytes) ∨
    ∃ path delivered payload, signing = .transaction path delivered ∧
      request = .moreTransaction payload ∧ delivered ++ payload = bytes

/-- A parser that completes a record finds its data flag, where its storage lasts. -/
theorem Device.Session.found {d : Device} {c : Command} {w : Work} {delivered : List UInt8}
    (hbegin : signBegin c.G d = .inr w) (h : w.device.Session platform Eq delivered)
    (hp2 : c.G.p2 = 0) (hbytes : delivered ++ c.G.payload = tx.encode) (htx : tx.Encodable)
    (hlasting : ∀ k, (platform.scratch k).Lasting) : d.found platform c = tx.hasData := by
  obtain ⟨content, hcall⟩ := h.processTx keptByHashing_eq c.G.payload
  obtain ⟨t, hrun, hover⟩ :=
    txRules_run_encode_over (hlasting w.device.session) .zero content htx
  rw [hbytes, hrun] at hcall
  obtain ⟨parsed, hprocess, hsim, -⟩ := hcall
  rw [← signBegin_payload hbegin] at hprocess
  rw [Device.found_of_finished hbegin (h.signInitialized hp2) hprocess, txRel_view hsim.env,
    hover.dataPresent]
  rfl

/-- **The data flag of a record is found** by the command that completes it, where its storage
lasts. -/
theorem Device.Holds.found {d : Device} {signing : Signing} {c : Command}
    (h : d.Holds platform signing) (hcompletes : signing.Completes c.G.transactionRequest tx.encode)
    (htx : tx.Encodable) (hlasting : ∀ k, (platform.scratch k).Lasting) :
    d.found platform c = tx.hasData := by
  rcases hcompletes with ⟨path, hrequest⟩ | ⟨path, delivered, payload, rfl, hrequest, hbytes⟩
  · obtain ⟨hp1, hpath, hp2, hpayload⟩ := c.G.begins_of_transactionRequest hrequest
    obtain ⟨w, hbegin⟩ := signBegin_of_hasPath hp1 hpath d
    exact (signBegin_session rfl hp1 hbegin).found hbegin hp2 hpayload htx hlasting
  · obtain ⟨hp1, hp2, rfl⟩ := c.G.more_of_transactionRequest hrequest
    exact h.1.found (signBegin_more hp1 d) hp2 hbytes htx hlasting

/-- The data flag that may be found where a record is completed: its own, unless the first clause
decides. -/
def TxRecord.Finds (tx : TxRecord) (signing : Signing) (c : Command) (found : Bool) : Prop :=
  tx.Settled ∨ (signing.Completes c.G.transactionRequest tx.encode → found = tx.hasData)

/-- A device finds it, if the first clause decides or storage lasts. -/
theorem Device.Holds.finds {d : Device} {signing : Signing} (h : d.Holds platform signing)
    (htx : tx.Encodable) (hflag : tx.Settled ∨ ∀ k, (platform.scratch k).Lasting) (c : Command) :
    tx.Finds signing c (d.found platform c) :=
  hflag.imp_right fun hlasting hcompletes => h.found hcompletes htx hlasting

/-- **What the signer answers to the chunks of a record**, whatever it had in hand. -/
theorem BringTransaction.answers (htx : tx.Encodable) {first : List UInt8}
    {more : List (List UInt8)} {c : Command} {cs : List Command}
    (h : BringTransaction path tx.encode first more c cs)
    (hsettings : ∀ last ∈ (c :: cs).getLast?, last.settings = settings) {o : Outcome}
    (ho : tx.outcome? platform settings path = some o) (signing : Signing) :
    platform.signer.Answers tx.Finds signing
      ((c :: cs).zip (List.replicate cs.length (.status [] HW_OK) ++ [o])) := by
  obtain ⟨hpos, hten, hcut, hlast, hbegins, hmore⟩ := h
  obtain ⟨hrequest, hbegun⟩ := hbegins.beginTransaction hpos hten
  cases hmore with
  | nil =>
    intro found hfinds
    rw [List.flatten_nil, List.append_nil] at hcut
    rw [hcut] at hrequest hbegun
    refine ⟨.idle, ?_, trivial⟩
    show signing.respond platform found c.settings c.request = _
    rw [hbegun, hsettings c rfl]
    have hfound := hfinds.imp_right fun hcompletes => hcompletes (.inl ⟨path, hrequest⟩)
    show transactionResponse platform settings found path tx.encode = _
    rw [transactionResponse_encode htx hten hfound, tx.response_eq_answer, ho]
  | @cons c' chunk cs chunks hc hcs =>
    intro found _
    have hrest : (chunk :: chunks).flatten ≠ [] :=
      List.length_pos_iff.mp (flatten_length_pos (by simp) hlast)
    refine ⟨.transaction path first, ?_, ?_⟩
    · show signing.respond platform found c.settings c.request = _
      rw [hbegun]
      exact transactionResponse_prefix htx hcut hrest found
    · have hes : List.Forall₂ (fun c chunk => c.Brings INS_SIGN P1_MORE chunk) (c' :: cs)
          (chunk :: chunks) := .cons hc hcs
      refine Specification.answers_chunks ?_ ?_ hes hlast hsettings hcut
      · intro found delivered chunk rest e _ he hrest hbytes
        obtain ⟨-, hgoesOn⟩ := he.moreTransaction
        show Signing.respond platform found e.settings (.transaction path delivered) _ = _
        rw [hgoesOn]
        exact transactionResponse_prefix htx hbytes hrest found
      · intro found delivered chunk e hfinds he _ hfinal hbytes
        obtain ⟨hrequest, hgoesOn⟩ := he.moreTransaction
        refine ⟨.idle, ?_⟩
        have hfound := hfinds.imp_right fun hcompletes =>
          hcompletes (.inr ⟨path, delivered, chunk, rfl, hrequest, hbytes⟩)
        show Signing.respond platform found e.settings (.transaction path delivered) _ = _
        rw [hgoesOn, hfinal]
        show transactionResponse platform settings found path (delivered ++ chunk) = _
        rw [hbytes, transactionResponse_encode htx hten hfound, tx.response_eq_answer, ho]

/-- **A transaction is shown as what it is.** The encoding of a record, in whatever chunks it is
brought to whatever device, is answered with success until it is complete; then the device shows
the recipient, the amount, the fee and the warnings of the record, to sign its hash with the
path that came with it, or the settings refuse it. The amount fits its buffer, and the first
clause decides about the data flag unless the storage of all clauses lasts. -/
theorem record_answered (platform : Platform) {tx : TxRecord} (htx : tx.Encodable)
    (hflag : tx.Settled ∨ ∀ k, (platform.scratch k).Lasting) {path : List UInt32}
    {first : List UInt8} {more : List (List UInt8)} {c : Command} {cs : List Command}
    (h : BringTransaction path tx.encode first more c cs) {settings : Settings}
    (hsettings : ∀ last ∈ (c :: cs).getLast?, last.settings = settings) {o : Outcome}
    (ho : tx.outcome? platform settings path = some o) (d : Device) :
    ∃ steps d', platform.device.replay (c :: cs) ([], d) = some (steps, d') ∧
      steps.map observed = o :: List.replicate cs.length (.status [] HW_OK) := by
  have hanswers := h.answers htx hsettings ho .idle
  have hlength : (c :: cs).length = (List.replicate cs.length (Outcome.status [] HW_OK) ++
      [o]).length := by
    simp
  have hidle : platform.refinement.related d .idle := trivial
  obtain ⟨steps, d', hreplay, hhistory⟩ := platform.refinement.replay
    (fun d signing c hholds => hholds.finds htx hflag c) hidle hanswers []
  rw [List.map_fst_zip hlength.le, List.append_nil] at hreplay
  refine ⟨steps, d', hreplay, ?_⟩
  have hobserved := congrArg (List.map Prod.snd) hhistory
  rw [List.map_reverse, List.map_snd_zip hlength.ge, List.reverse_append, List.reverse_replicate,
    Refinement.history, List.map_map] at hobserved
  exact hobserved

/-- The record of a transaction in two commands. -/
def sampleCommands : Command × Command :=
  (signing P1_FIRST (onePath ++ sampleTx.encode.take 7) ⟨true, false⟩,
    signing P1_MORE (sampleTx.encode.drop 7) ⟨true, false⟩)

set_option maxRecDepth 4000 in
/-- They bring it. -/
theorem sampleCommands_bring : BringTransaction [0x80000000] sampleTx.encode
    (sampleTx.encode.take 7) [sampleTx.encode.drop 7] sampleCommands.1 [sampleCommands.2] := by
  refine ⟨by decide, by decide, by decide, by decide, ?_, .cons ?_ .nil⟩
  · constructor <;> decide +kernel
  · constructor <;> decide +kernel

/-- It is shown. -/
theorem sampleTx_outcome : sampleTx.outcome? (.recorded []) ⟨true, false⟩ [0x80000000] =
    some (.review (sampleTx.review (.recorded []) [0x80000000])) := by
  have hfits : sampleTx.displayed.transfer.amountText.length ≤ 50 := by decide +kernel
  rw [TxRecord.outcome?, if_neg (by decide), if_pos hfits]

set_option maxRecDepth 4000 in
theorem record_answered_sampleTx : ∃ steps d',
    (Platform.recorded []).device.replay [sampleCommands.1, sampleCommands.2] ([], .boot) =
        some (steps, d') ∧
      steps.map observed = [.review (sampleTx.review (.recorded []) [0x80000000]),
        .status [] HW_OK] :=
  record_answered (.recorded []) (by unfold TxRecord.Encodable; decide) (.inl (.inl (by decide)))
    sampleCommands_bring (fun _ h => by cases h; rfl) sampleTx_outcome .boot

end AppVechain

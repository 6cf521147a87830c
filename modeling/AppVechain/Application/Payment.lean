import AppVechain.Application.Provenance
import AppVechain.Device.Content

/-!
# Payments

A transaction with one clause may pay an amount of VET, or of a token by calling its
`transfer`, for a fee that has an upper bound. The texts of its review say this payment
and nothing else: two payments are displayed alike if and only if they are the same, for
the same fee.
-/

namespace AppVechain

open Rlp Reactive Numeral

/-- A payment to a recipient. Without a token it is one of VET. -/
structure Payment where
  token? : Option TokenDefinition
  recipient : Vector UInt8 20
  amount : ℕ

/-- The data of a call of `transfer`: its selector, and a recipient and an amount as words. -/
def transferData (recipient : Vector UInt8 20) (amount : Vector UInt8 32) : List UInt8 :=
  TOKEN_TRANSFER_ID ++ (List.replicate 12 0 ++ recipient.toList) ++ amount.toList

/-- A clause makes a payment: of VET, with its value and without data, or of a token that is
listed, with a call of its `transfer` and without a value. -/
inductive ClauseRecord.Pays (c : ClauseRecord) : Payment → Prop where
  | vet {recipient : Vector UInt8 20} (hto : c.toAddress = recipient.toList) (hdata : c.data = []) :
      Pays c ⟨none, recipient, bigEndian c.value⟩
  | token {token : TokenDefinition} {recipient : Vector UInt8 20} {amount : Vector UInt8 32}
      (hlisted : token ∈ TOKENS) (hto : c.toAddress = token.address.toList)
      (hvalue : bigEndian c.value = 0) (hdata : c.data = transferData recipient amount) :
      Pays c ⟨some token, recipient, bigEndian amount.toList⟩

/-- A transaction makes a payment: with its only clause. -/
def TxRecord.Pays (tx : TxRecord) (p : Payment) : Prop := ∃ c, tx.clauses = [c] ∧ c.Pays p

/-- The most that a transaction costs. -/
def TxRecord.fee (tx : TxRecord) : ℕ := maxFee (bigEndian tx.gasPriceCoef) (bigEndian tx.gas)

/-- What can be paid with. -/
def CURRENCIES : List (Option TokenDefinition) := none :: TOKENS.map some

/-- The characters in front of an amount. -/
def currencyText (token? : Option TokenDefinition) : List UInt8 :=
  token?.elim [86, 69, 84, 32] fun token => token.ticker.takeWhile (· ≠ 0)

/-- They end with their only space. -/
theorem currencyText_space : ∀ token? ∈ CURRENCIES,
    (currencyText token?).getLast? = some 32 ∧ 32 ∉ (currencyText token?).dropLast ∧
      0 ∉ currencyText token? := by
  decide +kernel

/-- No two currencies have the same. -/
theorem currencyText_nodup : (CURRENCIES.map currencyText).Nodup := by
  decide +kernel

/-- The token of a clause is listed. -/
theorem ClauseFields.token?_mem (f : ClauseFields) : f.token? ∈ CURRENCIES := by
  cases htoken : f.token? with
  | none => exact List.mem_cons_self
  | some token =>
    obtain ⟨hlisted, -⟩ := ClauseFields.token?_eq_some_iff.mp htoken
    exact List.mem_cons_of_mem _ (List.mem_map_of_mem hlisted)

/-- Its name is displayed. -/
theorem ClauseFields.transfer_ticker (f : ClauseFields) :
    f.transfer.ticker = currencyText f.token? := by
  unfold ClauseFields.transfer
  cases f.token? with
  | none => rfl
  | some token => rfl

/-- What is behind the name of a currency begins behind the first space. -/
theorem currencyText_append_inj {t t' : Option TokenDefinition} (ht : t ∈ CURRENCIES)
    (ht' : t' ∈ CURRENCIES) {rest rest' : List UInt8}
    (h : currencyText t ++ rest = currencyText t' ++ rest') : t = t' ∧ rest = rest' := by
  have hname {t : Option TokenDefinition} (ht : t ∈ CURRENCIES) (rest : List UInt8) :
      (currencyText t ++ rest).takeWhile (· ≠ 32) = (currencyText t).dropLast ∧
        currencyText t = (currencyText t).dropLast ++ [32] := by
    obtain ⟨hlast, hbody, -⟩ := currencyText_space t ht
    have hsplit : currencyText t = (currencyText t).dropLast ++ [32] :=
      (List.dropLast_append_getLast? 32 hlast).symm
    refine ⟨?_, hsplit⟩
    conv_lhs => rw [hsplit, List.append_assoc]
    have hkept : ∀ c ∈ (currencyText t).dropLast, decide (c ≠ 32) = true :=
      fun c hc => decide_eq_true (ne_of_mem_of_not_mem hc hbody)
    rw [List.takeWhile_append_of_pos hkept, List.singleton_append,
      List.takeWhile_cons_of_neg (by decide), List.append_nil]
  obtain ⟨hbody, hsplit⟩ := hname ht rest
  obtain ⟨hbody', hsplit'⟩ := hname ht' rest'
  have htext : currencyText t = currencyText t' := by
    rw [hsplit, hsplit', ← hbody, ← hbody', h]
  refine ⟨List.inj_on_of_nodup_map currencyText_nodup ht ht' htext, ?_⟩
  rw [htext] at h
  exact List.append_cancel_left h

/-- A decimal has no NUL. -/
theorem decimalText_ne_zero {d n : ℕ} {c : UInt8} (h : c ∈ decimalText d n) : c ≠ 0 := by
  have hdigits {digits : List ℕ} (hlt : ∀ x ∈ digits, x < 10) (hc : c ∈ digits.map digitByte) :
      c ≠ 0 := by
    obtain ⟨x, hx, rfl⟩ := List.mem_map.mp hc
    exact (digitByte_spec (hlt x hx)).1
  rcases List.mem_append.mp h with hint | hfraction
  · exact hdigits (integerDigits_lt d n) hint
  · split_ifs at hfraction
    · cases hfraction
    · rcases List.mem_cons.mp hfraction with rfl | hfraction
      · decide
      · exact hdigits (fractionDigits_lt d n) hfraction

/-- A text is displayed up to its NUL. -/
theorem takeWhile_text {text : List UInt8} (h : ∀ c ∈ text, c ≠ 0) :
    (text ++ [0]).takeWhile (· ≠ 0) = text := by
  rw [List.takeWhile_append_of_pos fun c hc => decide_eq_true (h c hc),
    List.takeWhile_cons_of_neg (by decide), List.append_nil]

/-- An address is displayed without a NUL, which is behind it. -/
theorem exists_addressText (keccak256 : List UInt8 → Vector UInt8 32) (address : Vector UInt8 20) :
    ∃ text, addressToDisplayString keccak256 address = text ++ [0] ∧ ∀ c ∈ text, c ≠ 0 := by
  refine ⟨48 :: 120 :: _, rfl, fun c hc => ?_⟩
  rcases List.mem_cons.mp hc with rfl | hc
  · decide
  · rcases List.mem_cons.mp hc with rfl | hc
    · decide
    · exact checksum_ne_zero hc

/-- An address as a list fills its array. -/
theorem toList_address {bytes : List UInt8} (h : bytes.length = 20) :
    (Vector.ofFn fun i : Fin 20 => bytes.getD i 0).toList = bytes := by
  apply List.ext_getElem
  · rw [Vector.length_toList, h]
  · intro i hi hi'
    simp [hi']

/-- The recipient fills an address. -/
theorem TxRecord.recipient_length (tx : TxRecord) :
    tx.displayed.transfer.recipient.length = 20 := by
  obtain ⟨hto, -⟩ := tx.displayed_length
  unfold ClauseFields.transfer
  cases htoken : tx.displayed.token? with
  | none =>
    show tx.displayed.shownRecipient.length = 20
    rw [ClauseFields.shownRecipient, List.length_append, List.length_replicate]
    omega
  | some token =>
    have hcalls := ClauseFields.token?_eq_some_iff.mp htoken
    show tx.displayed.recipient.length = 20
    rw [ClauseFields.recipient, List.length_take, List.length_drop, hcalls.length]
    rfl

/-- What is displayed of a record. -/
theorem TxRecord.review_text (platform : Platform) (path : List UInt32) (tx : TxRecord) :
    (tx.review platform path).text 0 ++ [0] = addressToDisplayString platform.keccak256
        (Vector.ofFn fun i : Fin 20 => tx.displayed.transfer.recipient.getD i 0) ∧
      (tx.review platform path).text 1 =
        currencyText tx.displayed.token? ++ decimalText 18 tx.displayed.transfer.amount ∧
      (tx.review platform path).text 2 = [86, 84, 72, 79, 32] ++ decimalText 18 tx.fee := by
  refine ⟨?_, ?_, ?_⟩
  · show (addressToDisplayString platform.keccak256 _).takeWhile (· ≠ 0) ++ [0] =
      addressToDisplayString platform.keccak256 _
    obtain ⟨digits, hdigits, hne⟩ := exists_addressText platform.keccak256
      (Vector.ofFn fun i : Fin 20 => tx.displayed.transfer.recipient.getD i 0)
    rw [hdigits, takeWhile_text hne]
  · show (tx.displayed.transfer.amountText).takeWhile (· ≠ 0) = _
    obtain ⟨-, -, hname⟩ := currencyText_space _ tx.displayed.token?_mem
    rw [Transfer.amountText, tx.displayed.transfer_ticker]
    refine takeWhile_text fun c hc => ?_
    rcases List.mem_append.mp hc with hc | hc
    · exact ne_of_mem_of_not_mem hc hname
    · exact decimalText_ne_zero hc
  · refine takeWhile_text fun c hc => ?_
    rcases List.mem_append.mp hc with hc | hc
    · exact ne_of_mem_of_not_mem hc (by decide)
    · exact decimalText_ne_zero hc

/-- Two records have the same texts if and only if the same transfer is displayed of their first
clauses, and the same fee. -/
theorem pairs_eq_iff (platform : Platform) (path path' : List UInt32) (tx tx' : TxRecord) :
    (tx.review platform path).pairs = (tx'.review platform path').pairs ↔
      (tx.displayed.token? = tx'.displayed.token? ∧
        tx.displayed.transfer.recipient = tx'.displayed.transfer.recipient ∧
        tx.displayed.transfer.amount = tx'.displayed.transfer.amount) ∧ tx.fee = tx'.fee := by
  obtain ⟨hto, hamount, hfee⟩ := tx.review_text platform path
  obtain ⟨hto', hamount', hfee'⟩ := tx'.review_text platform path'
  have hpairs : (tx.review platform path).pairs = (tx'.review platform path').pairs ↔
      (tx.review platform path).text 1 = (tx'.review platform path').text 1 ∧
      (tx.review platform path).text 2 = (tx'.review platform path').text 2 ∧
      (tx.review platform path).text 0 = (tx'.review platform path').text 0 := by
    show [("Amount", _), ("Fees", _), ("To", _)] = [("Amount", _), ("Fees", _), ("To", _)] ↔ _
    simp
  rw [hpairs, hamount, hamount', hfee, hfee']
  constructor
  · rintro ⟨hamounts, hfees, hrecipients⟩
    obtain ⟨htoken, hdecimal⟩ := currencyText_append_inj tx.displayed.token?_mem
      tx'.displayed.token?_mem hamounts
    have hrecipient : tx.displayed.transfer.recipient = tx'.displayed.transfer.recipient := by
      rw [← toList_address tx.recipient_length, ← toList_address tx'.recipient_length]
      apply congrArg Vector.toList
      apply addressToDisplayString_injective
      rw [← hto, ← hto', hrecipients]
    exact ⟨⟨htoken, hrecipient, decimalText_injective hdecimal⟩,
      decimalText_injective (List.append_cancel_left hfees)⟩
  · rintro ⟨⟨htoken, hrecipient, hnumber⟩, hcost⟩
    refine ⟨by rw [htoken, hnumber], by rw [hcost], ?_⟩
    rw [hrecipient, ← hto'] at hto
    exact List.append_cancel_right hto

/-- The parts of the data of a call. -/
theorem transferData_parts (recipient : Vector UInt8 20) (amount : Vector UInt8 32) :
    (transferData recipient amount).length = 68 ∧
      (transferData recipient amount).take 4 = TOKEN_TRANSFER_ID ∧
      ((transferData recipient amount).drop (4 + 12)).take 20 = recipient.toList ∧
      (transferData recipient amount).drop (4 + 32) = amount.toList := by
  have hlength : TOKEN_TRANSFER_ID.length = 4 := rfl
  unfold transferData
  refine ⟨by simp [hlength], ?_, ?_, ?_⟩
  · rw [List.append_assoc]
    exact List.take_left' hlength
  · have hfront : TOKEN_TRANSFER_ID ++ (List.replicate 12 0 ++ recipient.toList) ++ amount.toList =
        (TOKEN_TRANSFER_ID ++ List.replicate 12 0) ++ (recipient.toList ++ amount.toList) := by
      simp
    rw [hfront, List.drop_left' (by simp [hlength]), List.take_left' recipient.length_toList]
  · exact List.drop_left' (by simp [hlength])

/-- **What is displayed of a payment** is the payment. -/
theorem TxRecord.Pays.displayed {tx : TxRecord} {p : Payment} (h : tx.Pays p) :
    tx.displayed.token? = p.token? ∧ tx.displayed.transfer.recipient = p.recipient.toList ∧
      tx.displayed.transfer.amount = p.amount := by
  obtain ⟨c, hclauses, hpays⟩ := h
  have hdisplayed : tx.displayed = c.fields := by rw [TxRecord.displayed, hclauses]; rfl
  rw [hdisplayed]
  unfold ClauseFields.transfer
  cases hpays with
  | @vet recipient hto hdata =>
    have htoken : c.fields.token? = none := by
      rw [ClauseFields.token?, ClauseRecord.fields, hdata]
      exact if_neg fun h => by cases h.1
    have htwenty : c.fields.toAddress.length = 20 := by
      rw [ClauseRecord.fields, hto, recipient.length_toList]
    rw [htoken]
    exact ⟨rfl, ((ClauseFields.shownRecipient_eq_iff htwenty.le).mpr htwenty).trans hto, rfl⟩
  | @token token recipient amount hlisted hto _ hdata =>
    obtain ⟨hlength, hselector, hrecipient, hamount⟩ := transferData_parts recipient amount
    rw [← hdata] at hlength hselector hrecipient hamount
    have htoken : c.fields.token? = some token :=
      ClauseFields.token?_eq_some_iff.mpr ⟨hlisted, hto, hlength, hselector⟩
    rw [htoken]
    exact ⟨rfl, hrecipient, congrArg bigEndian hamount⟩

/-- A payment has no warning. -/
theorem TxRecord.Pays.flow {tx : TxRecord} {p : Payment} (h : tx.Pays p) (platform : Platform)
    (path : List UInt32) : (tx.review platform path).flow = .transaction false false := by
  obtain ⟨htoken, -, -⟩ := h.displayed
  obtain ⟨c, hclauses, hpays⟩ := h
  have hmany : tx.hasMultipleClauses = false := by
    rw [TxRecord.hasMultipleClauses, hclauses]
    rfl
  have hdata : (tx.hasData && tx.displayed.token?.isNone) = false := by
    cases hpays with
    | vet _ hdata =>
      rw [TxRecord.hasData, hclauses, List.any_cons, hdata]
      rfl
    | token =>
      rw [htoken]
      exact Bool.and_false _
  rw [TxRecord.review, hmany, hdata]

/-- A payment has one clause, which decides about the data flag. -/
theorem TxRecord.Pays.settled {tx : TxRecord} {p : Payment} (h : tx.Pays p) : tx.Settled := by
  obtain ⟨c, hclauses, -⟩ := h
  exact .inl (by rw [hclauses]; rfl)

/-- **What is displayed is the payment**: two payments that the settings allow and whose amounts can
be displayed, brought in whatever chunks to whatever devices, are reviewed without a warning; the
reviews are displayed alike if and only if the same amount of the same currency is paid to the
same recipient, for the same maximal fee. -/
theorem displayed_alike_iff (platform : Platform) {tx tx' : TxRecord} {p p' : Payment}
    (hpays : tx.Pays p) (hpays' : tx'.Pays p') {settings settings' : Settings}
    (htx : (Content.transaction tx).Signable settings)
    (htx' : (Content.transaction tx').Signable settings') {path path' : List UInt32}
    {cs cs' : List Command} (h : (Content.transaction tx).BroughtBy path cs)
    (h' : (Content.transaction tx').BroughtBy path' cs')
    (hsettings : ∀ last ∈ cs.getLast?, last.settings = settings)
    (hsettings' : ∀ last ∈ cs'.getLast?, last.settings = settings') (d d' : Device) :
    ∃ steps e steps' e' r r', platform.device.replay cs ([], d) = some (steps, e) ∧
      platform.device.replay cs' ([], d') = some (steps', e') ∧
      steps.head?.map observed = some (.review r) ∧
      steps'.head?.map observed = some (.review r') ∧
      r.flow = .transaction false false ∧ r'.flow = .transaction false false ∧
      (r.pairs = r'.pairs ↔ p = p' ∧ tx.fee = tx'.fee) := by
  obtain ⟨steps, e, hreplay, hreview, -⟩ :=
    content_reviewed platform h htx hsettings (.inl hpays.settled) d
  obtain ⟨steps', e', hreplay', hreview', -⟩ :=
    content_reviewed platform h' htx' hsettings' (.inl hpays'.settled) d'
  refine ⟨steps, e, steps', e', _, _, hreplay, hreplay', hreview, hreview',
    hpays.flow platform path, hpays'.flow platform path', ?_⟩
  obtain ⟨htoken, hrecipient, hamount⟩ := hpays.displayed
  obtain ⟨htoken', hrecipient', hamount'⟩ := hpays'.displayed
  refine (pairs_eq_iff platform path path' tx tx').trans (and_congr_left' ?_)
  rw [htoken, htoken', hrecipient, hrecipient', hamount, hamount', Vector.toList_inj]
  constructor
  · rintro ⟨htokens, hrecipients, hamounts⟩
    cases p
    cases p'
    rw [Payment.mk.injEq]
    exact ⟨htokens, hrecipients, hamounts⟩
  · rintro rfl
    exact ⟨rfl, rfl, rfl⟩

/-- The sample pays ten units of the first token. -/
def tokenTx : TxRecord :=
  { sampleTx with
    clauses := [⟨tokenFields.toAddress, [], tokenFields.data, .inr rfl, by decide⟩]
    clauses_length := by decide }

/-- A record in one command. -/
def wholeCommand (tx : TxRecord) : Command :=
  signing P1_FIRST (onePath ++ tx.encode) ⟨true, false⟩

set_option maxRecDepth 4000 in
/-- The samples can be signed, and are brought so. -/
theorem samplePayments :
    (Content.transaction plainTx).Signable ⟨true, false⟩ ∧
      (Content.transaction tokenTx).Signable ⟨true, false⟩ ∧
      (Content.transaction plainTx).BroughtBy [0x80000000] [wholeCommand plainTx] ∧
      (Content.transaction tokenTx).BroughtBy [0x80000000] [wholeCommand tokenTx] := by
  have hplain : plainTx.Encodable := by
    unfold TxRecord.Encodable
    decide
  have htoken : tokenTx.Encodable := by
    unfold TxRecord.Encodable
    decide
  have hplain' : BringTransaction [0x80000000] plainTx.encode plainTx.encode []
      (wholeCommand plainTx) [] := by
    refine ⟨by decide, by decide, List.append_nil _, by decide +kernel, ?_, .nil⟩
    constructor <;> decide +kernel
  have htoken' : BringTransaction [0x80000000] tokenTx.encode tokenTx.encode []
      (wholeCommand tokenTx) [] := by
    refine ⟨by decide, by decide, List.append_nil _, by decide +kernel, ?_, .nil⟩
    constructor <;> decide +kernel
  exact ⟨⟨hplain, by decide, by decide +kernel⟩, ⟨htoken, by decide +kernel, by decide +kernel⟩,
    .transaction hplain', .transaction htoken'⟩

theorem displayed_alike_iff_tokenTx : ∃ steps e steps' e' r r',
    (Platform.recorded []).device.replay [wholeCommand plainTx] ([], .boot) = some (steps, e) ∧
      (Platform.recorded []).device.replay [wholeCommand tokenTx] ([], .boot) =
        some (steps', e') ∧
      steps.head?.map observed = some (.review r) ∧
      steps'.head?.map observed = some (.review r') ∧ r.pairs ≠ r'.pairs := by
  have hplain : plainTx.Pays ⟨none, Vector.replicate 20 0x11, 0xfe⟩ :=
    ⟨_, rfl, .vet (by decide) rfl⟩
  have htoken : tokenTx.Pays ⟨TOKENS.head?, Vector.replicate 20 1, 10⟩ :=
    ⟨_, rfl, @ClauseRecord.Pays.token _ _ _ (.ofFn fun i => if i = 31 then 10 else 0)
      (by decide +kernel) (by decide +kernel) (by decide) (by decide +kernel)⟩
  obtain ⟨hsignable, hsignable', hbrought, hbrought'⟩ := samplePayments
  obtain ⟨steps, e, steps', e', r, r', hreplay, hreplay', hreview, hreview', -, -, hiff⟩ :=
    displayed_alike_iff (.recorded []) hplain htoken hsignable hsignable' hbrought hbrought'
      (fun _ h => by cases h; rfl) (fun _ h => by cases h; rfl) .boot .boot
  refine ⟨steps, e, steps', e', r, r', hreplay, hreplay', hreview, hreview', fun hpairs => ?_⟩
  exact absurd (congrArg Payment.amount (hiff.mp hpairs).1) (by decide)

end AppVechain

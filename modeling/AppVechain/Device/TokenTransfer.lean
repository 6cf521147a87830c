import AppVechain.Device.SignedBytes

/-!
# The display of token transfers

The recipient and the amount of a token transfer are taken from the data of its
clause, and are shown in place of those of the clause itself. What is shown
determines the token and these two words. The value of the clause and the twelve
bytes in front of the recipient are signed without being looked at.
-/

namespace AppVechain

open Rlp Streaming Reactive Numeral

variable {platform : Platform} {H : List UInt8 → List UInt8 → Prop}

/-- The address of a token does not end in a zero. -/
theorem TOKENS_address : ∀ token ∈ TOKENS, token.address.toList.getLast? ≠ some 0 := by
  decide +kernel

/-- The name in front of the space at the end of a ticker. -/
def TokenDefinition.name (token : TokenDefinition) : List UInt8 :=
  token.ticker.takeWhile (· ≠ 32)

/-- A ticker is a name and a space. -/
theorem TOKENS_name : ∀ token ∈ TOKENS, token.ticker.takeWhile (· ≠ 0) = token.name ++ [32] := by
  decide +kernel

/-- Tokens have different names. -/
theorem TOKENS_name_injective :
    ∀ token ∈ TOKENS, ∀ token' ∈ TOKENS, token.name = token'.name → token = token' := by
  decide +kernel

/-- They have different addresses. -/
theorem TOKENS_address_injective :
    ∀ token ∈ TOKENS, ∀ token' ∈ TOKENS, token.address = token'.address → token = token' := by
  decide +kernel

/-- What is written at the start of a cleared array and does not end in a zero fills it. -/
theorem writeBytes_replicate_full {n : ℕ} {bytes : List UInt8} (hlength : bytes.length ≤ n)
    (hlast : (writeBytes (Vector.replicate n 0) 0 bytes).toList.getLast? ≠ some 0) :
    (writeBytes (Vector.replicate n 0) 0 bytes).toList = bytes := by
  rw [writeBytes_toList _ (by omega), List.take_zero, List.nil_append, Nat.zero_add,
    Vector.toList_replicate, List.drop_replicate] at hlast ⊢
  cases hrest : n - bytes.length with
  | zero => rw [List.replicate_zero, List.append_nil]
  | succ k =>
    rw [hrest, List.replicate_succ', ← List.append_assoc, List.getLast?_concat] at hlast
    exact absurd rfl hlast

/-- The fields of a clause call a token. -/
structure ClauseFields.Calls (f : ClauseFields) (token : TokenDefinition) : Prop where
  listed : token ∈ TOKENS
  toAddress : f.toAddress = token.address.toList
  length : f.data.length = 68
  selector : f.data.take 4 = TOKEN_TRANSFER_ID

/-- The recipient of a transfer, and its amount. -/
def ClauseFields.recipient (f : ClauseFields) : List UInt8 := (f.data.drop (4 + 12)).take 20
def ClauseFields.amount (f : ClauseFields) : ℕ := bigEndian (f.data.drop (4 + 32))

/-- The token that is looked up for the fields of a clause. -/
theorem ClauseFields.calls_of_token? {f : ClauseFields} (hto : f.toAddress.length ≤ 20)
    {token : TokenDefinition} (h : (f.over .zero).token? = some token) : f.Calls token := by
  have hlisted := ClauseContent.token?_mem h
  unfold ClauseContent.token? at h
  split at h
  case isFalse => cases h
  case isTrue hselector =>
    have haddress : token.address = (f.over .zero).toAddress := by
      simpa using List.find?_some h
    have htoAddress : token.address.toList = f.toAddress := by
      have hlast := TOKENS_address token hlisted
      rw [haddress] at hlast ⊢
      exact writeBytes_replicate_full hto hlast
    have hdata : (f.over .zero).data =
        if f.data.length = 68 then writeBytes ClauseContent.zero.data 0 f.data
        else ClauseContent.zero.data := rfl
    have hlength : f.data.length = 68 := by
      by_contra hne
      rw [hdata, if_neg hne] at hselector
      exact absurd hselector (by decide)
    rw [hdata, if_pos hlength, writeBytes_full _ hlength] at hselector
    exact ⟨hlisted, htoAddress.symm, hlength, hselector⟩

/-- The data of a call are kept. -/
theorem ClauseFields.Calls.over_data {f : ClauseFields} {token : TokenDefinition}
    (h : f.Calls token) : (f.over .zero).data.toList = f.data := by
  show (if f.data.length = 68 then writeBytes ClauseContent.zero.data 0 f.data
    else ClauseContent.zero.data).toList = f.data
  rw [if_pos h.length, writeBytes_full _ h.length]

/-- What is moved to the place of the recipient and of the value. -/
theorem ClauseFields.Calls.moveToken {f : ClauseFields} {token : TokenDefinition}
    (h : f.Calls token) :
    (f.over .zero).moveToken.toAddress.toList = f.recipient ∧
      (f.over .zero).moveToken.value.number = f.amount := by
  have hdata := h.over_data
  have hlength := h.length
  constructor
  · have hrecipient : f.recipient.length = 20 := by
      rw [ClauseFields.recipient, List.length_take, List.length_drop]
      omega
    show (writeBytes _ 0 (((f.over .zero).data.toList.drop (4 + 12)).take 20)).toList = _
    rw [hdata]
    exact writeBytes_full _ hrecipient
  · have hword : (f.data.drop (4 + 32)).length = 32 := by
      rw [List.length_drop]
      omega
    have hvalue : (f.over .zero).moveToken.value =
        (f.over .zero).value.write (f.data.drop (4 + 32)) := by
      rw [ClauseContent.moveToken, TxInt256.write, hdata, hword, List.take_of_length_le hword.le]
    rw [hvalue, TxInt256.number_write _ hword.le]
    rfl

/-- The bytes are a transaction with one clause, which has these fields. -/
def ClauseFields.OnlyOf (f : ClauseFields) (bytes : List UInt8) : Prop :=
  ∃ l : FieldsLayout, bytes = l.bytes ∧ l.fields = [f]

/-- The recipient of a clause has at most 20 bytes. -/
theorem FieldsLayout.toAddress_length (l : FieldsLayout) {f : ClauseFields} (hf : l.fields = [f]) :
    f.toAddress.length ≤ 20 := by
  have hcarry := l.carry
  rw [hf] at hcarry
  obtain ⟨clause, rest, hclause, -, -⟩ := List.forall₂_cons_left_iff.mp hcarry
  obtain ⟨-, toItem, valueItem, dataItem, -, -, hto, -, -, hpayload, -, -⟩ := hclause
  rw [← hpayload]
  exact hto.2 20 rfl

/-- What was parsed of a transaction with one clause. -/
theorem Accepted.single {bytes : List UInt8} {shown : Shown} {parsed : Device}
    (h : Accepted platform H bytes shown parsed) {l : FieldsLayout} {f : ClauseFields}
    (hbytes : bytes = l.bytes) (hf : l.fields = [f]) :
    parsed.clauseContent = f.over .zero ∧
      parsed.clausesContent.dataPresent = decide (f.data ≠ []) := by
  obtain ⟨fresh, hfresh, hsame⟩ := h.again
  obtain ⟨s, hsession, hview⟩ := l.session (by rw [hf, List.length_singleton]; omega)
    (platform.scratch parsed.session) .zero (List.flatten_singleton (l := l.bytes))
  rw [processTxChunks, ← hbytes, hfresh, Prod.mk.injEq] at hsession
  obtain ⟨hs, -⟩ := hsession
  cases hs
  have hclause : parsed.clauseContent = fresh.env.view.firstClause := hsame.firstClause
  have hflag : parsed.clausesContent.dataPresent = fresh.env.view.dataPresent := hsame.dataPresent
  rw [hclause, hflag, hview]
  constructor
  · rw [FieldsLayout.view, hf]
    rfl
  · show (readFlags _ 0 l.flags).any id = _
    rw [FieldsLayout.flags, hf]
    simp [readFlags]

/-- In a run, a transaction with one clause is accepted as the transfer of a token: it has data,
and comes to its review without the warning for them. The texts are those of the review, which
is shown if they fit into their arrays. -/
def ShownAsToken (platform : Platform) (f : ClauseFields) (strings : TxStrings) : Prop :=
  ∃ (steps : List (Step Command Answer Device)) (d : Device) (c : Command) (shown : Shown),
    Run platform.device steps d ∧ c.isSign ∧
      signAccept platform c.settings c.G d = .inr shown ∧
      f.OnlyOf ((if c.G.p1 = P1_FIRST then [] else consumedSince steps) ++
        shown.device.tx.consumed c.G.payload) ∧
      f.data ≠ [] ∧ shown.device.dataPresent = false ∧ shown.strings platform = some strings

/-- What a device shows as the transfer of a token are such texts. -/
theorem shownAsToken_of_step {steps : List (Step Command Answer Device)} {d d' : Device}
    (h : Run platform.device steps d) {c : Command} {a : Answer}
    (hstep : platform.device.step c d = some (a, d')) (hshows : a.showsTransaction = true)
    {f : ClauseFields} (hbytes : f.OnlyOf (consumedSince (⟨d, c, a, d'⟩ :: steps)))
    (hdata : f.data ≠ []) (hoff : d'.dataPresent = false) :
    ∃ strings, ShownAsToken platform f strings ∧ d'.fullAddress.bytes = strings.fullAddress ∧
      d'.fullAmount.bytes = strings.fullAmount := by
  have hsign := isSign_of_shows hstep hshows
  obtain ⟨shown, haccept, hdisplays⟩ := (signStep hsign hstep).shown hshows
  obtain ⟨strings, hstrings, haddress, hamount⟩ := hdisplays.texts
  obtain ⟨fee, fullAddress, fullAmount, maxFee, rfl⟩ := hdisplays.display
  rw [consumedSince_cons hsign, consumedBy, if_pos hsign] at hbytes
  exact ⟨strings, ⟨steps, d, c, shown, h, hsign, haccept, hbytes, hdata, hoff, hstrings⟩, haddress,
    hamount⟩

/-- What the texts for the transfer of a token tell: the token, and the words of the data for the
recipient and the amount. -/
structure ShowsTransfer (platform : Platform) (f : ClauseFields) (token : TokenDefinition)
    (strings : TxStrings) : Prop where
  calls : f.Calls token
  recipient : ∃ address : Vector UInt8 20, address.toList = f.recipient ∧
    strings.fullAddress = addressToDisplayString platform.keccak256 address
  amount : strings.fullAmount =
    token.ticker.takeWhile (· ≠ 0) ++ decimalText token.decimals.toNat f.amount ++ [0]

/-- A transaction that is shown as the transfer of a token is one. -/
theorem ShownAsToken.shows {f : ClauseFields} {strings : TxStrings}
    (h : ShownAsToken platform f strings) : ∃ token, ShowsTransfer platform f token strings := by
  obtain ⟨steps, d, c, shown, hrun, hsign, haccept, hbytes, hdata, hoff, hstrings⟩ := h
  obtain ⟨parsed, -, haccepted⟩ := accepted keptByHashing_true trivial haccept fun _ =>
    session_of_run keptByHashing_true trivial hrun fun _ _ _ _ _ => trivial
  rw [haccepted.consumed] at hbytes
  obtain ⟨l, hbytes, hf⟩ := hbytes
  obtain ⟨hclause, hflag⟩ := haccepted.single hbytes hf
  have hpresent : (parsed.checked platform).dataPresent = true := by
    show parsed.clausesContent.dataPresent = true
    rw [hflag, decide_eq_true_eq]
    exact hdata
  have hchecked : (parsed.checked platform).clauseContent = f.over .zero := hclause
  -- without the warning a token was recognised
  obtain ⟨token, htoken⟩ : ∃ token, (f.over .zero).token? = some token := by
    rw [haccepted.shown, recognizeToken_dataPresent, hpresent, hchecked, Bool.true_and,
      Bool.not_eq_false'] at hoff
    exact Option.isSome_iff_exists.mp hoff
  have hcalls := ClauseFields.calls_of_token? (l.toAddress_length hf) htoken
  have hshown : shown = ⟨{ (parsed.checked platform).setClauses
      (parsed.checked platform).clausesContent (f.over .zero).moveToken with dataPresent := false },
      token.ticker, token.decimals⟩ := by
    rw [haccepted.shown, recognizeToken, if_pos hpresent, hchecked, htoken]
  have hcontent : shown.device.clauseContent = (f.over .zero).moveToken := by
    rw [hshown]
    rfl
  obtain ⟨strings', hstrings', haddress, hamount, -⟩ := haccepted.strings
  rw [hstrings] at hstrings'
  cases hstrings'
  obtain ⟨hrecipient, hnumber⟩ := hcalls.moveToken
  refine ⟨token, hcalls, ⟨shown.device.clauseContent.toAddress, ?_, haddress⟩, ?_⟩
  · rw [hcontent, hrecipient]
  · obtain ⟨-, hdecimals, -⟩ := TOKENS_tickers token hcalls.listed
    rw [hamount, hcontent, hnumber, hdecimals, Shown.tickerText, hshown]
    rfl

/-- The name of a token is in front of the first space of what is shown for an amount. -/
theorem TOKENS_name_shown {token : TokenDefinition} (h : token ∈ TOKENS) (text : List UInt8) :
    (token.ticker.takeWhile (· ≠ 0) ++ text).takeWhile (· ≠ 32) = token.name := by
  rw [TOKENS_name token h, List.append_assoc, List.takeWhile_append_of_pos]
  · simp
  · intro c hc
    exact List.mem_takeWhile_imp (p := fun c => decide (c ≠ 32)) hc

/-- Equal texts are those of the same token, recipient and amount. -/
theorem ShowsTransfer.same_iff {f f' : ClauseFields} {token token' : TokenDefinition}
    {strings strings' : TxStrings} (h : ShowsTransfer platform f token strings)
    (h' : ShowsTransfer platform f' token' strings') :
    strings.fullAddress = strings'.fullAddress ∧ strings.fullAmount = strings'.fullAmount ↔
      token = token' ∧ f.recipient = f'.recipient ∧ f.amount = f'.amount := by
  obtain ⟨address, hrecipient, haddress⟩ := h.recipient
  obtain ⟨address', hrecipient', haddress'⟩ := h'.recipient
  rw [haddress, haddress', h.amount, h'.amount, ← hrecipient, ← hrecipient']
  constructor
  · rintro ⟨hshown, hamount⟩
    have htoken : token = token' := by
      apply TOKENS_name_injective token h.calls.listed token' h'.calls.listed
      rw [List.append_assoc, List.append_assoc] at hamount
      have hname := congrArg (List.takeWhile (· ≠ 32)) hamount
      rwa [TOKENS_name_shown h.calls.listed, TOKENS_name_shown h'.calls.listed] at hname
    subst htoken
    rw [List.append_cancel_right_eq, List.append_cancel_left_eq] at hamount
    exact ⟨rfl, by rw [addressToDisplayString_injective hshown], decimalText_injective hamount⟩
  · rintro ⟨rfl, hsame, hamount⟩
    rw [Vector.toList_inj.mp hsame, hamount]
    exact ⟨rfl, rfl⟩

/-- The calls of tokens are the same if they agree but for the twelve bytes in front of the
recipient. -/
theorem ClauseFields.Calls.same_iff {f f' : ClauseFields} {token token' : TokenDefinition}
    (h : f.Calls token) (h' : f'.Calls token') :
    token = token' ∧ f.recipient = f'.recipient ∧ f.amount = f'.amount ↔
      f.toAddress = f'.toAddress ∧ f.data.take 4 = f'.data.take 4 ∧
        f.data.drop (4 + 12) = f'.data.drop (4 + 12) := by
  have hsplit (f : ClauseFields) :
      f.data.drop (4 + 12) = f.recipient ++ f.data.drop (4 + 32) := by
    rw [ClauseFields.recipient, ← List.drop_drop (i := 20) (j := 4 + 12), List.take_append_drop]
  constructor
  · rintro ⟨rfl, hrecipient, hamount⟩
    have hlength : (f.data.drop (4 + 32)).length = (f'.data.drop (4 + 32)).length := by
      rw [List.length_drop, List.length_drop, h.length, h'.length]
    refine ⟨h.toAddress.trans h'.toAddress.symm, h.selector.trans h'.selector.symm, ?_⟩
    rw [hsplit f, hsplit f', hrecipient, bigEndian_injective hlength hamount]
  · rintro ⟨haddress, -, hdata⟩
    refine ⟨?_, congrArg (List.take 20) hdata, ?_⟩
    · apply TOKENS_address_injective token h.listed token' h'.listed
      rw [← Vector.toList_inj, ← h.toAddress, ← h'.toAddress, haddress]
    · have hword := congrArg (List.drop 20) hdata
      rw [List.drop_drop, List.drop_drop] at hword
      exact congrArg bigEndian hword

/-- The fields of a transfer of the first token with a value of its own, and with other bytes
than zeros in front of the recipient. -/
def paddedFields : ClauseFields where
  toAddress := tokenFields.toAddress
  value := [1]
  data := TOKEN_TRANSFER_ID ++ List.replicate 12 0xff ++ List.replicate 20 1 ++
    List.replicate 31 0 ++ [10]

/-- A transaction with one clause of these fields. -/
def paddedTransfer : FieldsLayout where
  outer := [0xf8, 104]
  declared := 104
  outer_header := by decide +kernel
  items := {
    chainTag := Item.emptyString
    blockRef := Item.emptyString
    expiration := Item.emptyString
    clauses := ⟨true, [0xf8, 94],
      [0xf8, 92, 0x94] ++ paddedFields.toAddress ++ [0x01, 0xb8, 68] ++ paddedFields.data,
      by decide +kernel⟩
    gasPriceCoef := Item.emptyString
    gas := Item.emptyString
    dependsOn := Item.emptyString
    nonce := Item.emptyString
    reserved := Item.emptyList }
  admitted := by constructor <;> decide +kernel
  fields := [paddedFields]
  clauseItems := [⟨true, [0xf8, 92],
    [0x94] ++ paddedFields.toAddress ++ [0x01, 0xb8, 68] ++ paddedFields.data, by decide +kernel⟩]
  clauses_payload := by decide +kernel
  carry := by
    refine .cons ⟨rfl, ⟨false, [0x94], paddedFields.toAddress, by decide +kernel⟩,
      ⟨false, [], [0x01], rfl⟩, ⟨false, [0xb8, 68], paddedFields.data, by decide +kernel⟩, [], ?_⟩
      .nil
    decide +kernel

/-- The texts of a transaction that is accepted from a session before. -/
theorem exists_strings {steps : List (Step Command Answer Device)} {d : Device}
    (h : Run platform.device steps d) {c : Command} {shown : Shown}
    (haccept : signAccept platform c.settings c.G d = .inr shown) :
    ∃ strings, shown.strings platform = some strings := by
  obtain ⟨parsed, -, haccepted⟩ := accepted keptByHashing_true trivial haccept fun _ =>
    session_of_run keptByHashing_true trivial h fun _ _ _ _ _ => trivial
  obtain ⟨strings, hstrings, -⟩ := haccepted.strings
  exact ⟨strings, hstrings⟩

/-- It is shown as a transfer of ten units. -/
theorem paddedTransfer_shown : ∃ strings, ShownAsToken (.recorded []) paddedFields strings := by
  let c := signing P1_FIRST (onePath ++ paddedTransfer.bytes) ⟨true, false⟩
  have hseen : (signAccept (.recorded []) c.settings c.G .boot).getRight?.map
      (fun shown => (shown.device.dataPresent, shown.device.tx.consumed c.G.payload)) =
      some (false, paddedTransfer.bytes) := by
    decide +kernel
  have hsign : c.isSign := by decide +kernel
  have hfirst : c.G.p1 = P1_FIRST := by decide +kernel
  obtain ⟨shown, haccept, hshown⟩ := exists_shown hseen
  obtain ⟨hoff, hconsumed⟩ := Prod.mk.inj hshown
  obtain ⟨strings, hstrings⟩ := exists_strings .boot haccept
  refine ⟨strings, [], _, c, shown, .boot, hsign, haccept, ⟨paddedTransfer, ?_, rfl⟩, by decide,
    hoff, hstrings⟩
  rw [if_pos hfirst, List.nil_append]
  exact hconsumed

end AppVechain

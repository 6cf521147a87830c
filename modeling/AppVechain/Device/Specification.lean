import AppVechain.Device.Chunks
import AppVechain.Device.PublicKey
import AppVechain.Device.Review
import AppVechain.Reactive.Refinement

/-!
# What the device is for

A signer is asked to sign a transaction, a message or a certificate, in one command
or in several. It has one such request in hand at a time, with all bytes that came
so far, and what it answers depends on these bytes alone, but for the data flag of a
transaction of several clauses whose first one does not decide about it: which flag is
found is left open. Nothing is said of commands that go on with something that is not
in hand, of a stream whose beginning is not whole, and of a key that the SDK does
not derive.
-/

namespace AppVechain

open Rlp Streaming Reactive

/-- What is signed as a stream of a declared length. -/
inductive Kind where
  | message
  | certificate
  deriving DecidableEq

/-- How its commands are handled. -/
def Kind.stream : Kind → Stream
  | .message => messageStream
  | .certificate => certificateStream

/-- A certificate begins with a brace. -/
def Kind.opens (kind : Kind) (bytes : List UInt8) : Bool :=
  match kind with
  | .message => true
  | .certificate => bytes.head? == some 123

/-- It ends with one. -/
def Kind.closes (kind : Kind) (bytes : List UInt8) : Bool :=
  match kind with
  | .message => true
  | .certificate => bytes.getLast? == some 125

/-- What a command asks of the signer. -/
inductive Request where
  | configuration
  | key (confirm : Bool) (path : List UInt32) (chainCode : Bool)
  | beginTransaction (path : List UInt32) (payload : List UInt8)
  | moreTransaction (payload : List UInt8)
  | beginStream (kind : Kind) (path : List UInt32) (length : UInt32) (first : List UInt8)
  | moreStream (kind : Kind) (chunk : List UInt8)
  | refused (sw : UInt16)
  | aborted (sw : UInt16)
  | undefined

/-- The request of a command for a key. -/
def ApduBuffer.keyRequest (G : ApduBuffer) : Request :=
  if (G.p1 = P1_CONFIRM ∨ G.p1 = P1_NON_CONFIRM) ∧
      (G.p2 = P2_CHAINCODE ∨ G.p2 = P2_NO_CHAINCODE) then
    if G.HasPath then .key (G.p1 = P1_CONFIRM) G.path (G.p2 = P2_CHAINCODE)
    else .refused HW_INCORRECT_DATA
  else .refused HW_INCORRECT_P1_P2

/-- The request of a command for a transaction. -/
def ApduBuffer.transactionRequest (G : ApduBuffer) : Request :=
  if G.p1 = P1_FIRST then
    if ¬G.HasPath then .aborted HW_INCORRECT_DATA
    else if G.p2 ≠ 0 then .aborted HW_INCORRECT_P1_P2
    else .beginTransaction G.path G.payload
  else if G.p1 = P1_MORE ∧ G.p2 = 0 then .moreTransaction G.payload
  else .refused HW_INCORRECT_P1_P2

/-- Behind its path a beginning holds the length of the stream, and the byte with which a
certificate begins. -/
def ApduBuffer.BeginsStream (kind : Kind) (G : ApduBuffer) : Prop :=
  1 + 4 * G.pathLength + 4 ≤ G.lc.toNat ∧ (kind = .certificate → G.firstPart ≠ [])

instance (kind : Kind) (G : ApduBuffer) : Decidable (G.BeginsStream kind) := by
  unfold ApduBuffer.BeginsStream
  infer_instance

/-- The request of a command for a message or a certificate. What is not whole is read from what
an earlier command left in the buffer. -/
def ApduBuffer.streamRequest (kind : Kind) (G : ApduBuffer) : Request :=
  if G.p1 = P1_FIRST then
    if ¬G.HasPath then .aborted HW_INCORRECT_DATA
    else if ¬G.BeginsStream kind then .undefined
    else if ¬kind.opens G.firstPart then .aborted HW_INCORRECT_DATA
    else if G.p2 ≠ 0 then .aborted HW_INCORRECT_P1_P2
    else .beginStream kind G.path G.declaredLength G.firstPart
  else if G.p1 = P1_MORE ∧ G.p2 = 0 then .moreStream kind (G.bytes OFFSET_CDATA G.lc.toNat)
  else .refused HW_INCORRECT_P1_P2

/-- **The request of a command.** -/
def Command.request (c : Command) : Request :=
  if c.G.cla ≠ CLA then .refused HW_CLA_NOT_SUPPORTED
  else if c.G.ins = INS_GET_PUBLIC_KEY then c.G.keyRequest
  else if c.G.ins = INS_SIGN then c.G.transactionRequest
  else if c.G.ins = INS_GET_APP_CONFIGURATION then .configuration
  else if c.G.ins = INS_SIGN_PERSONAL_MESSAGE then c.G.streamRequest .message
  else if c.G.ins = INS_SIGN_CERTIFICATE then c.G.streamRequest .certificate
  else .refused HW_INS_NOT_SUPPORTED

/-- What is observed of an answer: a status, an address on the screen, or a review. -/
inductive Outcome where
  | status (data : List UInt8) (sw : UInt16)
  | address (text : List UInt8)
  | review (review : Review)
  deriving DecidableEq

/-- What is observed of an answer that leaves the device so. -/
def Answer.outcome (d : Device) : Answer → Outcome
  | .status data sw => .status data sw
  | .review .publicKey => .address d.fullAddress.bytes
  | .review flow => .review (d.review flow)

/-- A review that is observed tells what would be signed. -/
theorem Answer.outcome_review {a : Answer} {d : Device} {r : Review} (h : a.outcome d = .review r) :
    r.path = d.tmpCtx.path ∧ r.hash = d.tmpCtx.hash := by
  cases a with
  | status => cases h
  | review flow => cases flow <;> cases h <;> exact ⟨rfl, rfl⟩

/-- What is observed of a step. -/
def observed (step : Step Command Answer Device) : Outcome := step.answer.outcome step.after

/-- What the signer has in hand: nothing, or the bytes that came so far for a transaction or a
stream. -/
inductive Signing where
  | idle
  | transaction (path : List UInt32) (bytes : List UInt8)
  | stream (kind : Kind) (path : List UInt32) (length : UInt32) (delivered : List UInt8)

/-- An error ends a transaction, but not a stream. -/
def Signing.afterError : Signing → Signing
  | .idle => .idle
  | .transaction _ _ => .idle
  | .stream kind path length delivered => .stream kind path length delivered

/-- What is said of a handler that ends what is in hand. -/
def Ending.response (ending : Ending) : Response Outcome Signing :=
  match ending.answer? with
  | some (a, d) => .answer (a.outcome d) .idle
  | none => .silent

/-- **A transaction with these bytes so far**: what a parser makes of all of them at once, if what
it reads back from a variable that is gone is `found`. -/
def transactionResponse (platform : Platform) (settings : Settings) (found : Bool)
    (path : List UInt32) (bytes : List UInt8) : Response Outcome Signing :=
  match processTx (.stale found) (initTx .zero) bytes with
  | .returned .processing _ => .answer (.status [] HW_OK) (.transaction path bytes)
  | .returned .fault _ => .answer (.status [] HW_INCORRECT_DATA) .idle
  | .returned .finished tx =>
    (signFinish platform settings
      { Device.boot with tx := tx, tmpCtx := TmpCtx.ofPath path }).response
  | .stuck _ => .silent

/-- The review of a message or a certificate: its hash is shown. -/
def streamReview (platform : Platform) (kind : Kind) (path : List UInt32) (length : UInt32)
    (bytes : List UInt8) : Review where
  flow := kind.stream.flow
  texts := [(hashSummary (platform.blake2b256
    (kind.stream.flow.signedPrefix length ++ bytes))).bytes]
  path := path
  hash := platform.blake2b256 (kind.stream.flow.signedPrefix length ++ bytes)

/-- **A stream with these bytes so far**, which are not too many. -/
def streamResponse (platform : Platform) (kind : Kind) (path : List UInt32) (length : UInt32)
    (bytes : List UInt8) : Response Outcome Signing :=
  if bytes.length < length.toNat then
    .answer (.status [] HW_OK) (.stream kind path length bytes)
  else if kind.closes bytes then
    .answer (.review (streamReview platform kind path length bytes)) .idle
  else .answer (.status [] HW_INCORRECT_DATA) .idle

/-- A key is sent at once, or its address is shown. -/
def keyOutcome (confirm : Bool) (key : SentKey) : Outcome :=
  if confirm then .address (publicKeyAddress key.address).bytes else .status key.bytes HW_OK

/-- The configuration that is replied. -/
def configurationBytes (settings : Settings) : List UInt8 :=
  [(if settings.dataAllowed then CONFIG_DATA_ENABLED else 0x00) |||
    (if settings.multiClauseAllowed then CONFIG_MULTICLAUSE_ENABLED <<< 1 else 0x00),
    MAJOR_VERSION, MINOR_VERSION, PATCH_VERSION]

/-- **What is said of a request.** -/
def Signing.respond (platform : Platform) (found : Bool) (settings : Settings)
    (signing : Signing) : Request → Response Outcome Signing
  | .configuration => .answer (.status (configurationBytes settings) HW_OK) signing
  | .key confirm path chainCode =>
    match platform.derive path chainCode with
    | some key => .answer (keyOutcome confirm key) .idle
    | none => .unspecified
  | .beginTransaction path payload => transactionResponse platform settings found path payload
  | .moreTransaction payload =>
    match signing with
    | .transaction path bytes =>
      transactionResponse platform settings found path (bytes ++ payload)
    | .idle | .stream _ _ _ _ => .unspecified
  | .beginStream kind path length first =>
    if length.toNat < first.length then .answer (.status [] HW_NOT_ENOUGH_MEMORY_SPACE) .idle
    else streamResponse platform kind path length first
  | .moreStream kind chunk =>
    match signing with
    | .stream kind' path length delivered =>
      if kind = kind' then
        if length.toNat < (delivered ++ chunk).length then
          .answer (.status [] HW_NOT_ENOUGH_MEMORY_SPACE) signing
        else streamResponse platform kind path length (delivered ++ chunk)
      else .unspecified
    | .idle | .transaction _ _ => .unspecified
  | .refused sw => .answer (.status [] sw) signing.afterError
  | .aborted sw => .answer (.status [] sw) .idle
  | .undefined => .unspecified

/-- **The signer**, as a specification. The data flag that is found may be any. -/
def Platform.signer (platform : Platform) : Specification Bool Command Outcome Signing where
  start := .idle
  respond found signing c := signing.respond platform found c.settings c.request

/-- Reviews that are alike are observed alike. -/
theorem SameReview.outcome {flow : Flow} {d d' : Device} (h : SameReview flow d d') :
    (Answer.review flow).outcome d = (Answer.review flow).outcome d' := by
  have hreview : d.review flow = d'.review flow := by
    rw [Device.review, h.display, h.path, h.hash]
    rfl
  cases flow with
  | publicKey => exact congrArg Outcome.address (List.cons.inj h.display).1
  | transaction => exact congrArg Outcome.review hreview
  | message => exact congrArg Outcome.review hreview
  | certificate => exact congrArg Outcome.review hreview

/-- The same is said of handlers that end alike. -/
theorem Ending.Alike.response {I : Device → Device → Prop} {e e' : Ending}
    (h : Ending.Alike I e e') : e.response = e'.response := by
  cases h with
  | error => rfl
  | success => rfl
  | review hreview => exact congrArg (Response.answer · Signing.idle) hreview.outcome
  | stuck => rfl

/-- What is kept of a transaction is the same where it is equal. -/
theorem sameView_of_finished {scratch : Scratch} {bytes : List UInt8} {tx tx' : TxState}
    (h : processTx scratch (initTx .zero) bytes = .returned .finished tx)
    (hview : tx'.env.view = tx.env.view) : SameView tx.env.view tx'.env.view := by
  obtain ⟨t, unread, hrun, ht, -⟩ := halted_of_finished h
  obtain ⟨hcoef, hgas, -⟩ := txRules_run_bounded hrun
  rw [← ht] at hcoef hgas
  rw [hview]
  exact ⟨⟨⟨hcoef, hcoef⟩, rfl, ⟨hgas, hgas⟩, rfl, rfl, rfl, rfl⟩, rfl⟩

/-- **Where the first clause decides** about the data flag, the answer to a transaction does not
depend on what is found. -/
theorem transactionResponse_decided {platform : Platform} {settings : Settings}
    {path : List UInt32} {bytes : List UInt8} (h : FlagDecided bytes) (found found' : Bool) :
    transactionResponse platform settings found path bytes =
      transactionResponse platform settings found' path bytes := by
  obtain ⟨status, tx, tx', hprocess, hprocess', hview⟩ :=
    processTx_status (.stale found) (.stale found') bytes
  rw [transactionResponse, transactionResponse, hprocess, hprocess']
  cases status with
  | processing => rfl
  | fault => rfl
  | finished =>
    have halike : Ending.Alike (fun _ _ => True)
        (signFinish platform settings
          { Device.boot with tx := tx, tmpCtx := TmpCtx.ofPath path })
        (signFinish platform settings
          { Device.boot with tx := tx', tmpCtx := TmpCtx.ofPath path }) :=
      signFinish_alike _ platform settings (sameView_of_finished hprocess (hview rfl h)) rfl
    exact halike.response

end AppVechain

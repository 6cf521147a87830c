import AppVechain.Application.Reviews
import AppVechain.Device.Specification
import AppVechain.Device.StaleInput
import AppVechain.Reactive.Refinement

/-!
# What the application is for

A host sends requests and a user decides about them. What both of them see depends on
the switches, on the bytes that the signer has in hand, and on what is being decided:
the buffer, the parser and the contexts play no part. What is left open are commands
that are cut off, and those of which nothing is said of the signer; until such a
command is replied to, anything may be seen. Which data flag is found is left open as
well. That nothing is handed over while something is being decided is what the
transport is assumed to do.
-/

namespace AppVechain

open Rlp Reactive

/-- What the host and the user see of a step: what is sent, and what is on the display then. -/
structure Seen where
  sent : Sent
  screen : Screen
  pairs : List (String × List UInt8)

/-- What is seen of a step of the application. -/
def seen (step : Step Event Sent App) : Seen where
  sent := step.answer
  screen := step.after.screen
  pairs := step.after.screen.pairs step.after.device

/-- What is being decided: nothing, whether an address is right, whether to go on in spite of a
warning, whether to sign, whether a certificate is rejected indeed, or something of which
nothing is known. -/
inductive Phase where
  | ready
  | address (key : SentKey)
  | warned (review : Review) (text : String)
  | asked (review : Review)
  | rejecting (review : Review)
  | unknown

/-- The screen on which it is decided. -/
def Phase.screen : Phase → Screen
  | .ready | .unknown => .menu
  | .address _ => .address
  | .warned _ text => .warning text
  | .asked r => r.flow.lastScreen
  | .rejecting _ => .rejectCertificate

/-- The pairs on that screen. -/
def Phase.pairs : Phase → List (String × List UInt8)
  | .ready | .warned _ _ | .rejecting _ | .unknown => []
  | .address key => [("Verify VeChain address", (publicKeyAddress key.address).text)]
  | .asked r => r.pairs

/-- How the user begins to decide about a review. -/
def Review.phase (r : Review) : Phase := r.flow.warning?.elim (.asked r) (.warned r)

/-- Between two events: the switches, what the signer has in hand, and what is being decided. -/
structure Dialogue where
  storage : InternalStorage
  signing : Signing
  phase : Phase

/-- What the specification leaves open: the data flag that is found in a transaction, and what is
seen where nothing is said. -/
structure Open where
  found : Event → Bool
  seen : Event → Option Seen

/-- This is sent, and that is where it leads. -/
def Dialogue.tells (t : Dialogue) (sent : Sent) : Response Seen Dialogue :=
  .answer ⟨sent, t.phase.screen, t.phase.pairs⟩ t

/-- A reply is sent. -/
def Dialogue.reply (t : Dialogue) (reply : List UInt8) : Response Seen Dialogue :=
  { t with phase := .ready }.tells (some reply)

/-- The request is rejected. -/
def Dialogue.cancelled (t : Dialogue) : Response Seen Dialogue :=
  t.reply (statusBytes HW_SW_TRANSACTION_CANCELLED)

/-- The connection was lost. -/
def Dialogue.reset (t : Dialogue) : Response Seen Dialogue :=
  { t with phase := .ready }.tells none

/-- Anything may be seen, and the signer has nothing in hand. -/
def Dialogue.unsaid (t : Dialogue) (o : Open) (e : Event) : Response Seen Dialogue :=
  match o.seen e with
  | none => .silent
  | some s =>
    .answer s { t with
      signing := .idle
      phase := if s.screen = .menu then .ready else .unknown }

instance (G : ApduBuffer) (rx : ℕ) : Decidable (G.Complete rx) := by
  unfold ApduBuffer.Complete
  infer_instance

/-- The bytes that were received, in a buffer of zeros. -/
def Received.buffer (rx : Received) : ApduBuffer := .ofBytes rx.bytes

/-- The command with these bytes. -/
def Received.command (rx : Received) (settings : Settings) : Command := ⟨settings, rx.buffer⟩

/-- The key that a request asks for. -/
def Request.key? (platform : Platform) : Request → Option SentKey
  | .key _ path chainCode => platform.derive path chainCode
  | .configuration | .beginTransaction _ _ | .moreTransaction _ | .beginStream _ _ _ _
  | .moreStream _ _ | .refused _ | .aborted _ | .undefined => none

/-- What the signer answers is replied, or displayed for the user to decide. -/
def Dialogue.outcome (t : Dialogue) (key : Option SentKey) : Outcome → Response Seen Dialogue
  | .status data sw => t.reply (data ++ statusBytes sw)
  | .address _ => { t with phase := key.elim .unknown .address }.tells none
  | .review r => { t with phase := r.phase }.tells none

/-- **What is said of a command that is delivered.** -/
def Dialogue.receive (platform : Platform) (o : Open) (rx : Received) (t : Dialogue) :
    Response Seen Dialogue :=
  if rx.bytes = [] then
    { t with signing := t.signing.afterError }.reply (statusBytes HW_SECURITY_STATUS_NOT_SATISFIED)
  else if ¬rx.buffer.Complete rx.bytes.length then t.unsaid o (.receive rx)
  else
    let request := (rx.command t.storage.settings).request
    match t.signing.respond platform (o.found (.receive rx)) t.storage.settings request with
    | .unspecified => t.unsaid o (.receive rx)
    | .silent => .silent
    | .answer outcome signing =>
      { t with signing := signing }.outcome (request.key? platform) outcome

/-- **What is said of a review that is confirmed**: its hash is signed with its path. Without a
signature nothing is sent, and the review stays. -/
def Dialogue.confirm (sign : Signer) (r : Review) (t : Dialogue) : Response Seen Dialogue :=
  match sign r.path r.hash with
  | .ok signature => t.reply (signature.bytes ++ statusBytes HW_OK)
  | .error e =>
    if e = EXCEPTION_IO_RESET then t.reset
    else { t with signing := t.signing.afterError }.tells none

/-- What is said of a decision. -/
def Dialogue.choose (sign : Signer) (o : Open) (confirm : Bool) (t : Dialogue) :
    Response Seen Dialogue :=
  match t.phase with
  | .ready => t.tells none
  | .address key =>
    if confirm then t.reply (key.bytes ++ statusBytes HW_OK) else t.cancelled
  | .warned r _ => if confirm then { t with phase := .asked r }.tells none else t.cancelled
  | .asked r =>
    if confirm then t.confirm sign r
    else if r.flow = .certificate then { t with phase := .rejecting r }.tells none
    else t.cancelled
  | .rejecting r => if confirm then t.cancelled else { t with phase := .asked r }.tells none
  | .unknown => t.unsaid o (.choice confirm)

/-- **What is said of an event.** -/
def Dialogue.respond (platform : Platform) (sign : Signer) (o : Open) (t : Dialogue) (e : Event) :
    Response Seen Dialogue :=
  match e with
  | .receive rx =>
    match t.phase with
    | .ready => t.receive platform o rx
    | .unknown => t.unsaid o (.receive rx)
    | .address _ | .warned _ _ | .asked _ | .rejecting _ => t.tells none
  | .choice confirm => t.choose sign o confirm
  | .touchSwitch token =>
    match t.phase with
    | .ready => { t with storage := controlsCallback token t.storage }.tells none
    | .unknown => t.unsaid o (.touchSwitch token)
    | .address _ | .warned _ _ | .asked _ | .rejecting _ => t.tells none
  | .ioReset => t.reset

/-- **The application**, as a specification. -/
def Platform.dialogue (platform : Platform) (sign : Signer) (storage : InternalStorage) :
    Specification Open Event Seen Dialogue where
  start := ⟨storage.prepared, .idle, .ready⟩
  respond := Dialogue.respond platform sign

end AppVechain

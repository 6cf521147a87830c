import AppVechain.Device.PublicKey

/-!
# The application around the device

The settings in `src/main.h`, the screens of `src/ui/ui_nbgl.c`, and what the
callbacks of `src/main.c` send when the user has decided. The derivation of the
private key and the signature are parameters.
-/

namespace AppVechain

def HW_SECURITY_STATUS_NOT_SATISFIED : UInt16 := 0x6982

/-- The exception of the SDK for a lost connection. -/
def EXCEPTION_IO_RESET : UInt16 := 0x0010

/-- `internalStorage_t` in the flash memory: `N_storage`. -/
structure InternalStorage where
  dataAllowed : UInt8
  multiClauseAllowed : UInt8
  initialized : UInt8
  deriving DecidableEq

/-- What the handlers read of the storage. -/
def InternalStorage.settings (storage : InternalStorage) : Settings where
  dataAllowed := storage.dataAllowed ≠ 0
  multiClauseAllowed := storage.multiClauseAllowed ≠ 0

/-- The storage is initialised in `main`, when it was not yet. -/
def InternalStorage.prepared (storage : InternalStorage) : InternalStorage :=
  if storage.initialized ≠ 0x01 then ⟨0x00, 0x00, 0x01⟩ else storage

/-- The switches on the page of the settings. -/
inductive Switch where
  | contractData
  | multiClause
  deriving DecidableEq

/-- `!` of C -/
def lnot (b : UInt8) : UInt8 := if b = 0 then 1 else 0

/-- `controls_callback` -/
def controlsCallback (token : Switch) (storage : InternalStorage) : InternalStorage :=
  match token with
  | .contractData => { storage with dataAllowed := lnot storage.dataAllowed }
  | .multiClause => { storage with multiClauseAllowed := lnot storage.multiClauseAllowed }

/-- What is on the display. A review that was decided is followed by the menu. -/
inductive Screen where
  | menu
  | address
  | warning (text : String)
  | transaction
  | message
  | certificate
  | rejectCertificate
  deriving DecidableEq

/-- `warning_msg` -/
def warningMsg (dataPresent multipleClauses : Bool) : String :=
  if dataPresent && !multipleClauses then "Data is present in\nthis transaction"
  else if !dataPresent && multipleClauses then
    "Multiple clauses are\npresent in this\ntransaction"
  else "Multiple clauses and\ndata are present in\nthis transaction"

/-- `ui_display_action_sign_tx_flow` -/
def uiDisplayActionSignTxFlow (dataPresent multipleClauses : Bool) : Screen :=
  if !dataPresent && !multipleClauses then .transaction
  else .warning (warningMsg dataPresent multipleClauses)

/-- The screen on which a review begins. -/
def Flow.screen : Flow → Screen
  | .publicKey => .address
  | .transaction dataPresent multipleClauses =>
    uiDisplayActionSignTxFlow dataPresent multipleClauses
  | .message => .message
  | .certificate => .certificate

/-- The result of `cx_ecdsa_sign_rs_no_throw`, and whether `CX_ECCINFO_PARITY_ODD` is set in its
information. -/
structure EcdsaSignature where
  r : Vector UInt8 32
  s : Vector UInt8 32
  parityOdd : Bool
  deriving DecidableEq

/-- The private key of a path signs a hash, or there is an error, which is thrown. -/
abbrev Signer := List UInt32 → Vector UInt8 32 → Except UInt16 EcdsaSignature

/-- `crypto_sign_message`. The derivation reads `pathLength` words of the path; there is no result
when they are not all in it. -/
def cryptoSignMessage (sign : Signer) (tmpCtx : TmpCtx) : Option (Except UInt16 EcdsaSignature) :=
  if tmpCtx.pathLength.toNat ≤ MAX_BIP32_PATH then some (sign tmpCtx.path tmpCtx.hash) else none

/-- What `io_seproxyhal_touch_tx_ok` puts in front of the status: `v` is the parity. -/
def EcdsaSignature.bytes (signature : EcdsaSignature) : List UInt8 :=
  let v : UInt8 := if signature.parityOdd then 0x01 else 0x00
  signature.r.toList ++ signature.s.toList ++ [v &&& 0x01]

/-- `apdu_buffer_append_state`: the bytes of a status word. -/
def statusBytes (sw : UInt16) : List UInt8 := [(sw >>> 8).toUInt8, sw.toUInt8]

/-- The application. `awaiting` is true from the arrival of a command until its reply was
sent. -/
structure App where
  device : Device
  storage : InternalStorage
  apdu : ApduBuffer
  screen : Screen
  awaiting : Bool

/-- What is sent to the host in a step, if anything. -/
abbrev Sent := Option (List UInt8)

/-- The application when a reply was put into the buffer and sent; the menu is displayed. -/
def App.replied (a : App) (reply : List UInt8) : App :=
  { a with
    apdu := writeBytes a.apdu 0 reply
    screen := .menu
    awaiting := false }

/-- Send a reply, which has to fit into the buffer. -/
def App.send (a : App) (reply : List UInt8) : Option (Sent × App) :=
  if reply.length ≤ 260 then some (some reply, a.replied reply) else none

/-- `io_seproxyhal_touch_cancel` -/
def App.touchCancel (a : App) : Option (Sent × App) :=
  a.send (statusBytes HW_SW_TRANSACTION_CANCELLED)

/-- `io_seproxyhal_touch_address_ok` -/
def App.touchAddressOk (a : App) : Option (Sent × App) :=
  a.send (setResultGetPublicKey a.device.publicKeyContext ++ statusBytes HW_OK)

/-- `main` begins anew after a lost connection. The variables stay as they are. -/
def App.reset (a : App) : App :=
  { a with storage := a.storage.prepared, screen := .menu, awaiting := false }

/-- An exception in a callback leaves the loop in `sample_main`. The reply is written but not
sent, since the command is answered asynchronously. -/
def App.thrown (a : App) (e : UInt16) : App :=
  if e = EXCEPTION_IO_RESET then a.reset
  else
    let a := { a with apdu := writeBytes a.apdu 0 (statusBytes e) }
    if e &&& ERROR_TYPE_MASK = ERROR_TYPE_HW then { a with device := a.device.wipe } else a

/-- `io_seproxyhal_touch_tx_ok` -/
def App.touchTxOk (sign : Signer) (a : App) : Option (Sent × App) :=
  match cryptoSignMessage sign a.device.tmpCtx with
  | none => none
  | some (.ok signature) => a.send (signature.bytes ++ statusBytes HW_OK)
  | some (.error e) => some (none, a.thrown e)

/-- The callbacks of the screens. -/
def App.choose (sign : Signer) (confirm : Bool) (a : App) : Option (Sent × App) :=
  match a.screen with
  | .menu => some (none, a)
  | .address => if confirm then a.touchAddressOk else a.touchCancel
  | .warning _ => if confirm then some (none, { a with screen := .transaction }) else a.touchCancel
  | .transaction | .message => if confirm then a.touchTxOk sign else a.touchCancel
  | .certificate =>
    if confirm then a.touchTxOk sign else some (none, { a with screen := .rejectCertificate })
  | .rejectCertificate =>
    if confirm then a.touchCancel else some (none, { a with screen := .certificate })

/-- A text as it is displayed, up to its NUL. -/
def CharArray.text {size : ℕ} (array : CharArray size) : List UInt8 :=
  array.bytes.takeWhile (· ≠ 0)

/-- The pairs of names and values that a screen displays. -/
def Screen.pairs (screen : Screen) (d : Device) : List (String × List UInt8) :=
  match screen with
  | .menu => []
  | .address => [("Verify VeChain address", d.fullAddress.text)]
  | .warning _ => []
  | .transaction =>
    [("Amount", d.fullAmount.text), ("Fees", d.maxFee.text), ("To", d.fullAddress.text)]
  | .message => [("Message hash", d.fullAddress.text)]
  | .certificate => [("Certificate hash", d.fullAddress.text)]
  | .rejectCertificate => []

end AppVechain

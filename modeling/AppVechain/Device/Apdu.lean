import AppVechain.Device.Message
import AppVechain.Device.Sign
import AppVechain.Reactive.Run

/-!
# Commands

The remaining handlers of `src/main.c`, and `handleApdu` with its exceptions. A
device answers one command after the other; the user decides about a review
before the next command, which changes none of the variables here.
-/

namespace AppVechain

open Reactive

/-- `getVetAddressStringFromKey` -/
def getVetAddressStringFromKey (keccak256 : List UInt8 → Vector UInt8 32)
    (publicKey : Vector UInt8 65) : List UInt8 :=
  let hashAddress := keccak256 (publicKey.toList.drop 1)
  getVetAddressStringFromBinary keccak256 (Vector.ofFn fun i : Fin 20 => hashAddress[12 + i.val])

/-- `crypto_derive_private_key`: the error code, the private key and the chain code. The chain code
is none where the pointer to it is `NULL`. -/
def cryptoDerivePrivateKey (platform : Platform) (privateKey : EcfpPrivateKey)
    (chainCode : Option (Vector UInt8 32)) (path : List UInt32) :
    UInt32 × EcfpPrivateKey × Option (Vector UInt8 32) :=
  match platform.osDeriveBip32 path with
  | .failed error left =>
    (error, privateKey, chainCode.map fun chainCode => (left (Vector.replicate 64 0, chainCode)).2)
  | .done (rawPrivateKey, derived) =>
    match platform.ecfpInitPrivateKey (rawPrivateKey.toList.take 32) with
    | .failed error left => (error, left privateKey, chainCode.map fun _ => derived)
    | .done privateKey => (0, privateKey, chainCode.map fun _ => derived)

/-- `crypto_init_public_key`: the error code, the public key, and its raw bytes. -/
def cryptoInitPublicKey (platform : Platform) (privateKey : EcfpPrivateKey)
    (publicKey : Vector UInt8 65) (rawPublicKey : Vector UInt8 64) :
    UInt32 × Vector UInt8 65 × Vector UInt8 64 :=
  match platform.ecfpGeneratePair privateKey with
  | .failed error left => (error, left publicKey, rawPublicKey)
  | .done publicKey => (0, publicKey, publicKey.drop 1)

/-- `set_result_get_publicKey`: the bytes put into the reply. -/
def setResultGetPublicKey (context : PublicKeyContext) : List UInt8 :=
  65 :: context.publicKey.toList ++ 40 :: context.address.take 40 ++
    if context.getChaincode then context.chainCode.toList else []

/-- `snprintf(fullAddress, sizeof(fullAddress), "0x%.*s", 40, address)` -/
def publicKeyAddress (address : List UInt8) : CharArray 43 where
  bytes := 48 :: 120 :: (address.takeWhile (· ≠ 0)).take 40 ++ [0]
  fits := by simp; omega

/-- `tmpCtx.publicKeyContext` when a key was derived into it. The error codes are dropped: after an
error a member holds what was in it, or what the SDK left there. -/
def PublicKeyContext.derive (platform : Platform) (path : List UInt32) (getChaincode : Bool)
    (context : PublicKeyContext) : PublicKeyContext :=
  let (_, privateKey, chainCode) := cryptoDerivePrivateKey platform
    ⟨0, 0, Vector.replicate 32 0⟩ (if getChaincode then some context.chainCode else none) path
  let (_, publicKey, _) := cryptoInitPublicKey platform privateKey context.publicKey
    (Vector.replicate 64 0)
  { publicKey := publicKey
    address := getVetAddressStringFromKey platform.keccak256 publicKey
    chainCode := chainCode.getD context.chainCode
    getChaincode := getChaincode }

/-- `handleGetPublicKey`. The path is read into a local variable, and the keys are
written to `tmpCtx`. -/
def handleGetPublicKey (platform : Platform) (G : ApduBuffer) (d : Device) : Ending :=
  if G.p1 ≠ P1_CONFIRM ∧ G.p1 ≠ P1_NON_CONFIRM then .throw [] HW_INCORRECT_P1_P2 d
  else if G.p2 ≠ P2_CHAINCODE ∧ G.p2 ≠ P2_NO_CHAINCODE then .throw [] HW_INCORRECT_P1_P2 d
  else
    match parseBip32Path G ⟨OFFSET_CDATA, G.lc.toUInt16, 0, Vector.replicate 10 0⟩ with
    | .throw _ => .throw [] HW_INCORRECT_DATA d
    | .stuck e => .stuck e
    | .ok a =>
      let path := a.bip32Path.toList.take a.pathLength.toNat
      let context := (platform.underlay d.tmpCtx d.publicKeyContext).derive platform path
        (G.p2 = P2_CHAINCODE)
      let d := { d with
        tmpCtx := platform.overlay context d.tmpCtx
        publicKeyContext := context }
      if G.p1 = P1_NON_CONFIRM then .throw (setResultGetPublicKey context) HW_OK d
      else .review .publicKey { d with fullAddress := publicKeyAddress context.address }

/-- The flags of the configuration, and the version. -/
def CONFIG_DATA_ENABLED : UInt8 := 0x01
def CONFIG_MULTICLAUSE_ENABLED : UInt8 := 0x01
def MAJOR_VERSION : UInt8 := 1
def MINOR_VERSION : UInt8 := 2
def PATCH_VERSION : UInt8 := 1

/-- `handleGetAppConfiguration` -/
def handleGetAppConfiguration (settings : Settings) (d : Device) : Ending :=
  let dataFlag := if settings.dataAllowed then CONFIG_DATA_ENABLED else 0x00
  let clausesFlag := if settings.multiClauseAllowed then CONFIG_MULTICLAUSE_ENABLED <<< 1 else 0x00
  .throw [dataFlag ||| clausesFlag, MAJOR_VERSION, MINOR_VERSION, PATCH_VERSION] HW_OK d

/-- The `TRY` block of `handleApdu`. -/
def dispatch (platform : Platform) (settings : Settings) (G : ApduBuffer) (d : Device) : Ending :=
  if G.cla ≠ CLA then .throw [] HW_CLA_NOT_SUPPORTED d
  else if G.ins = INS_GET_PUBLIC_KEY then handleGetPublicKey platform G d
  else if G.ins = INS_SIGN then handleSign platform settings G d
  else if G.ins = INS_GET_APP_CONFIGURATION then handleGetAppConfiguration settings d
  else if G.ins = INS_SIGN_PERSONAL_MESSAGE then handleSignPersonalMessage platform G d
  else if G.ins = INS_SIGN_CERTIFICATE then handleSignCertificate platform G d
  else .throw [] HW_INS_NOT_SUPPORTED d

/-- What a command is answered with: the bytes of the reply and a status word, or a
review whose outcome the user decides. -/
inductive Answer where
  | status (data : List UInt8) (sw : UInt16)
  | review (flow : Flow)
  deriving DecidableEq

/-- `handleApdu`: an error wipes the contexts of the parser. -/
def handleApdu (platform : Platform) (settings : Settings) (G : ApduBuffer) (d : Device) :
    Option (Answer × Device) :=
  match dispatch platform settings G d with
  | .stuck _ => none
  | .review flow d => some (.review flow, d)
  | .throw data e d =>
    if e &&& ERROR_TYPE_MASK = ERROR_TYPE_HW then some (.status data e, d.wipe)
    else if e &&& ERROR_TYPE_MASK = HW_OK then some (.status data e, d)
    else some (.status data (0x6800 ||| (e &&& 0x7FF)), d)

/-- A command, and the settings when it arrives. -/
structure Command where
  settings : Settings
  G : ApduBuffer

/-- The device as a system that answers commands. -/
def Platform.device (platform : Platform) : System Command Answer Device where
  boot := .boot
  step command d := handleApdu platform command.settings command.G d

end AppVechain

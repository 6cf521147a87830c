import AppVechain.Display.Address
import AppVechain.Display.Amount
import AppVechain.Ustream.Session
import Mathlib.Tactic.IntervalCases

/-!
# The state of the device

The global variables of `src/main.c` that outlive a command, and the buffer in
which a command arrives. The commands share one union for paths and hashes, one
for the parser and the computed fee, and one BLAKE2b context.
-/

namespace AppVechain

/-- The status words. -/
def HW_SW_TRANSACTION_CANCELLED : UInt16 := 0x6985
def HW_INCORRECT_DATA : UInt16 := 0x6A80
def HW_INCORRECT_P1_P2 : UInt16 := 0x6B00
def HW_OK : UInt16 := 0x9000
def HW_NOT_ENOUGH_MEMORY_SPACE : UInt16 := 0x6A84
def HW_CLA_NOT_SUPPORTED : UInt16 := 0x6E00
def HW_INS_NOT_SUPPORTED : UInt16 := 0x6D00
def ERROR_TYPE_MASK : UInt16 := 0xF000
def ERROR_TYPE_HW : UInt16 := 0x6000

/-- The class, the instructions and their parameters. -/
def CLA : UInt8 := 0xE0
def INS_GET_PUBLIC_KEY : UInt8 := 0x02
def INS_SIGN : UInt8 := 0x04
def INS_GET_APP_CONFIGURATION : UInt8 := 0x06
def INS_SIGN_PERSONAL_MESSAGE : UInt8 := 0x08
def INS_SIGN_CERTIFICATE : UInt8 := 0x09
def P1_CONFIRM : UInt8 := 0x01
def P1_NON_CONFIRM : UInt8 := 0x00
def P2_NO_CHAINCODE : UInt8 := 0x00
def P2_CHAINCODE : UInt8 := 0x01
def P1_FIRST : UInt8 := 0x00
def P1_MORE : UInt8 := 0x80
def MAX_BIP32_PATH : ℕ := 10

/-- `G_io_apdu_buffer` when a command is handled. The header and the `Lc` bytes after
it were received; the bytes behind them are older. -/
abbrev ApduBuffer := Vector UInt8 260

/-- The place of the header bytes and of the data. -/
def OFFSET_CLA : ℕ := 0
def OFFSET_INS : ℕ := 1
def OFFSET_P1 : ℕ := 2
def OFFSET_P2 : ℕ := 3
def OFFSET_LC : ℕ := 4
def OFFSET_CDATA : ℕ := 5

/-- The byte at a place in the buffer. -/
def ApduBuffer.byte (G : ApduBuffer) (i : ℕ) : UInt8 := G.toList.getD i 0

/-- Bytes from a place in the buffer on. -/
def ApduBuffer.bytes (G : ApduBuffer) (offset length : ℕ) : List UInt8 :=
  (G.toList.drop offset).take length

/-- Bytes within the buffer. -/
theorem ApduBuffer.bytes_length (G : ApduBuffer) {offset length : ℕ}
    (h : offset + length ≤ 260) : (G.bytes offset length).length = length := by
  rw [bytes, List.length_take, List.length_drop, Vector.length_toList]
  omega

/-- The first of some bytes. -/
theorem ApduBuffer.bytes_head? (G : ApduBuffer) {offset length : ℕ} (hlength : 0 < length)
    (h : offset < 260) : (G.bytes offset length).head? = some (G.byte offset) := by
  have hin : offset < G.toList.length := by rwa [Vector.length_toList]
  rw [bytes, List.head?_take, if_neg (by omega), List.head?_drop, byte, List.getD_eq_getElem?_getD,
    List.getElem?_eq_getElem hin, Option.getD_some]

/-- The last of some bytes. -/
theorem ApduBuffer.bytes_getLast? (G : ApduBuffer) {offset length : ℕ} (hlength : 0 < length)
    (h : offset + length ≤ 260) :
    (G.bytes offset length).getLast? = some (G.byte (offset + length - 1)) := by
  have hin : offset + length - 1 < G.toList.length := by
    rw [Vector.length_toList]
    omega
  rw [List.getLast?_eq_getElem?, G.bytes_length h, bytes, List.getElem?_take_of_lt (by omega),
    List.getElem?_drop, byte, List.getD_eq_getElem?_getD,
    show offset + (length - 1) = offset + length - 1 by omega, List.getElem?_eq_getElem hin,
    Option.getD_some]

/-- A byte of some bytes of the buffer. -/
theorem ApduBuffer.byte_of_bytes {G : ApduBuffer} {offset length i : ℕ} {data : List UInt8}
    {b : UInt8} (h : G.bytes offset length = data) (hb : data[i]? = some b) :
    G.byte (offset + i) = b := by
  have hi : i < length := by
    obtain ⟨hi, -⟩ := List.getElem?_eq_some_iff.mp hb
    rw [← h, bytes, List.length_take] at hi
    omega
  rw [← h, bytes, List.getElem?_take_of_lt hi, List.getElem?_drop] at hb
  rw [byte, List.getD_eq_getElem?_getD, hb, Option.getD_some]

/-- The bytes behind some bytes of the buffer. -/
theorem ApduBuffer.bytes_of_bytes {G : ApduBuffer} {offset length : ℕ} {front rest : List UInt8}
    (h : G.bytes offset length = front ++ rest) :
    G.bytes (offset + front.length) rest.length = rest := by
  have hrest : ((G.toList.drop offset).take length).drop front.length = rest := by
    rw [← bytes, h, List.drop_left]
  rw [List.drop_take, List.drop_drop] at hrest
  have hlength := congrArg List.length hrest
  rw [List.length_take] at hlength
  calc G.bytes (offset + front.length) rest.length
      = ((G.toList.drop (offset + front.length)).take (length - front.length)).take
          rest.length := by
        rw [List.take_take, Nat.min_eq_left (by omega), bytes]
    _ = rest := by rw [hrest, List.take_length]

/-- Four bytes, the most significant first. -/
def ApduBuffer.word (G : ApduBuffer) (i : ℕ) : UInt32 :=
  ((G.byte i).toUInt32 <<< 24) ||| ((G.byte (i + 1)).toUInt32 <<< 16) |||
    ((G.byte (i + 2)).toUInt32 <<< 8) ||| (G.byte (i + 3)).toUInt32

/-- A word is the number that its bytes write. -/
theorem ApduBuffer.word_toNat (G : ApduBuffer) (i : ℕ) : (G.word i).toNat =
    Numeral.bigEndian [G.byte i, G.byte (i + 1), G.byte (i + 2), G.byte (i + 3)] := by
  have h₀ := (G.byte i).toNat_lt
  have h₁ := (G.byte (i + 1)).toNat_lt
  have h₂ := (G.byte (i + 2)).toNat_lt
  have h₃ := (G.byte (i + 3)).toNat_lt
  simp only [word, UInt32.toNat_or, UInt32.toNat_shiftLeft, UInt8.toNat_toUInt32,
    UInt32.reduceToNat, Nat.reduceMod, Nat.shiftLeft_eq]
  -- no bit of a byte is shifted out, and the bytes do not overlap
  rw [Nat.mod_eq_of_lt (by omega), Nat.mod_eq_of_lt (by omega), Nat.mod_eq_of_lt (by omega),
    Nat.or_assoc, Nat.or_assoc, ← Nat.shiftLeft_eq _ 8, ← Nat.shiftLeft_eq _ 16,
    ← Nat.shiftLeft_eq _ 24, ← Nat.shiftLeft_add_eq_or_of_lt h₃,
    ← Nat.shiftLeft_add_eq_or_of_lt (i := 16) (by rw [Nat.shiftLeft_eq]; omega),
    ← Nat.shiftLeft_add_eq_or_of_lt (i := 24) (by simp only [Nat.shiftLeft_eq]; omega)]
  simp only [Nat.shiftLeft_eq, Numeral.bigEndian, List.foldl_cons, List.foldl_nil]
  omega

/-- The bytes of a word, the most significant first. -/
def wordBytes (w : UInt32) : List UInt8 :=
  [(w >>> 24).toUInt8, (w >>> 16).toUInt8, (w >>> 8).toUInt8, w.toUInt8]

/-- The word that some bytes of the buffer spell. -/
theorem ApduBuffer.word_of_bytes {G : ApduBuffer} {offset length : ℕ} {front rest : List UInt8}
    {w : UInt32} (h : G.bytes offset length = front ++ wordBytes w ++ rest) :
    G.word (offset + front.length) = w := by
  rw [List.append_assoc] at h
  have hbytes := G.bytes_of_bytes h
  have hbyte (i : ℕ) {b : UInt8} (hb : (wordBytes w ++ rest)[i]? = some b) :
      G.byte (offset + front.length + i) = b := G.byte_of_bytes hbytes hb
  have hfirst : G.byte (offset + front.length) = (w >>> 24).toUInt8 := hbyte 0 rfl
  rw [word, hfirst, hbyte 1 rfl, hbyte 2 rfl, hbyte 3 rfl, ← UInt32.toBitVec_inj]
  apply BitVec.eq_of_getLsbD_eq
  intro i hi
  simp only [UInt32.toBitVec_or, UInt32.toBitVec_shiftLeft, UInt32.toBitVec_shiftRight,
    UInt8.toBitVec_toUInt32, UInt32.toBitVec_toUInt8, BitVec.getLsbD_or]
  interval_cases i <;> simp

def ApduBuffer.cla (G : ApduBuffer) : UInt8 := G.byte OFFSET_CLA
def ApduBuffer.ins (G : ApduBuffer) : UInt8 := G.byte OFFSET_INS
def ApduBuffer.p1 (G : ApduBuffer) : UInt8 := G.byte OFFSET_P1
def ApduBuffer.p2 (G : ApduBuffer) : UInt8 := G.byte OFFSET_P2
def ApduBuffer.lc (G : ApduBuffer) : UInt8 := G.byte OFFSET_LC

/-- The number of data bytes, as it is compared with the remaining length. -/
theorem ApduBuffer.lc_toUInt32 (G : ApduBuffer) : G.lc.toUInt16.toUInt32 = G.lc.toUInt32 := by
  rw [← UInt32.toNat_inj]
  simp

/-- A command brings no data or some. -/
theorem ApduBuffer.lc_eq_zero {G : ApduBuffer} (h : ¬0 < G.lc) : G.lc.toUInt16 = 0 := by
  rw [UInt8.lt_iff_toNat_lt, Nat.not_lt] at h
  rw [← UInt16.toNat_inj, UInt8.toNat_toUInt16]
  exact Nat.le_zero.mp h

/-- A buffer into which bytes were received, with zeros behind them. -/
def ApduBuffer.ofBytes (bytes : List UInt8) : ApduBuffer :=
  ⟨⟨bytes.take 260 ++ List.replicate (260 - bytes.length) 0⟩, by simp; omega⟩

/-- The members of `tmpCtx` that signing uses: `transactionContext_t` is the front of
`messageSigningContext_t`. -/
structure TmpCtx where
  pathLength : UInt8
  bip32Path : Vector UInt32 10
  hash : Vector UInt8 32
  remainingLength : UInt32
  deriving DecidableEq

/-- `publicKeyContext_t`, the public key without its curve and its length. -/
structure PublicKeyContext where
  publicKey : Vector UInt8 65
  address : List UInt8
  chainCode : Vector UInt8 32
  getChaincode : Bool
  deriving DecidableEq

/-- `cx_ecfp_private_key_t` -/
structure EcfpPrivateKey where
  curve : UInt8
  dLen : UInt32
  d : Vector UInt8 32
  deriving DecidableEq

/-- How a function of the SDK returns: with what it was asked for, or with an error and with
something else in its place, which may depend on what was there before. -/
inductive SdkResult (α : Type) where
  | done (out : α)
  | failed (error : UInt32) (left : α → α)

/-- What was received, as much as there is room for. -/
structure Received where
  bytes : List UInt8
  fits : bytes.length ≤ 260

/-- `io_exchange` of the SDK: whether it hands over what was received. While a reply is awaited it
hands over nothing. -/
structure IoExchange where
  delivers : Bool → Received → Bool
  awaiting : ∀ rx, delivers true rx = false
  idle : ∀ rx, delivers false rx = true

/-- What the application takes from outside: the hash functions, the functions of the SDK with
which a key is derived from a path, what is left of the members of the union when others were
written to it, the storage of the clause variables for each initialisation of the parser, and
the transport. -/
structure Platform where
  blake2b256 : List UInt8 → Vector UInt8 32
  keccak256 : List UInt8 → Vector UInt8 32
  osDeriveBip32 : List UInt32 → SdkResult (Vector UInt8 64 × Vector UInt8 32)
  ecfpInitPrivateKey : List UInt8 → SdkResult EcfpPrivateKey
  ecfpGeneratePair : EcfpPrivateKey → SdkResult (Vector UInt8 65)
  overlay : PublicKeyContext → TmpCtx → TmpCtx
  underlay : TmpCtx → PublicKeyContext → PublicKeyContext
  scratch : ℕ → Scratch
  ioExchange : IoExchange

/-- `internalStorage_t`: what the user has allowed. -/
structure Settings where
  dataAllowed : Bool
  multiClauseAllowed : Bool
  deriving DecidableEq

/-- What is written of a character array of `size` bytes, from its start on. -/
structure CharArray (size : ℕ) where
  bytes : List UInt8
  fits : bytes.length ≤ size
  deriving DecidableEq

/-- Write to a character array, within its bounds. -/
def CharArray.write? (size : ℕ) (bytes : List UInt8) : Option (CharArray size) :=
  if h : bytes.length ≤ size then some ⟨bytes, h⟩ else none

/-- The global variables. `publicKeyContext` is as it was last written, before other members of
the union were. `tx` are the contexts in `displayContext` with the variables they point to, as
long as `feeComputationContext` was not written over them. `session` counts the calls of
`initTx`. -/
structure Device where
  tmpCtx : TmpCtx
  publicKeyContext : PublicKeyContext
  tx : TxState
  feeComputationContext : Option FeeComputationContext
  session : ℕ
  fullAddress : CharArray 43
  fullAmount : CharArray 50
  maxFee : CharArray 60
  dataPresent : Bool
  multipleClauses : Bool

/-- The variables when the application starts. -/
def Device.boot : Device where
  tmpCtx := ⟨0, Vector.replicate 10 0, Vector.replicate 32 0, 0⟩
  publicKeyContext := ⟨Vector.replicate 65 0, List.replicate 41 0, Vector.replicate 32 0, false⟩
  tx := { toFieldContext := FieldContext.zero, currentField := .none, env := TxEnv.zero }
  feeComputationContext := none
  session := 0
  fullAddress := ⟨[], Nat.zero_le _⟩
  fullAmount := ⟨[], Nat.zero_le _⟩
  maxFee := ⟨[], Nat.zero_le _⟩
  dataPresent := false
  multipleClauses := false

/-- The bytes fed to `blake2b` since it was initialised. -/
def Device.blake2b (d : Device) : List UInt8 := d.tx.env.blake2b

/-- `clauseContent` -/
def Device.clauseContent (d : Device) : ClauseContent := d.tx.env.clauses.env.firstClause

/-- `clausesContent` -/
def Device.clausesContent (d : Device) : ClausesContent := d.tx.env.clauses.env.content

/-- Initialise `blake2b` or feed it: the bytes it was fed are now `bytes`. -/
def Device.setBlake2b (d : Device) (bytes : List UInt8) : Device :=
  { d with tx := { d.tx with env := { d.tx.env with blake2b := bytes } } }

/-- Write to `clausesContent` and `clauseContent`. -/
def Device.setClauses (d : Device) (content : ClausesContent) (clause : ClauseContent) : Device :=
  { d with tx := { d.tx with env := { d.tx.env with clauses := { d.tx.env.clauses with
    env := { d.tx.env.clauses.env with content := content, firstClause := clause } } } } }

/-- The contexts after `memset` to zero. Their pointers are set again before they are
followed. -/
def TxState.wipe (tx : TxState) : TxState where
  toFieldContext := FieldContext.zero
  currentField := .none
  env := { tx.env with clauses := {
    toFieldContext := FieldContext.zero
    currentField := .none
    env := { tx.env.clauses.env with clauseContext :=
      { toFieldContext := FieldContext.zero, currentField := .none, env := .firstClause } } } }

/-- `memset(&displayContext, 0, sizeof(displayContext))` -/
def Device.wipe (d : Device) : Device :=
  { d with tx := d.tx.wipe, feeComputationContext := none }

/-- What is shown to the user, and waits for an answer. -/
inductive Flow where
  | publicKey
  | transaction (dataPresent multipleClauses : Bool)
  | message
  | certificate
  deriving DecidableEq, Repr

/-- How a handler ends: with a `THROW` of a status word after `data` was put into the
reply, with a flow shown and `IO_ASYNCH_REPLY` set, or with no result. -/
inductive Ending where
  | throw (data : List UInt8) (sw : UInt16) (d : Device)
  | review (flow : Flow) (d : Device)
  | stuck (e : Stuck)

/-- The variables of a handler while it reads its data. -/
structure Work where
  device : Device
  workBuffer : ℕ
  dataLength : UInt16

end AppVechain

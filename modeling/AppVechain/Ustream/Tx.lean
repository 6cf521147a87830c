import AppVechain.Ustream.Clauses

/-!
# The transaction parser

`common/vetUstream.c`: the nine fields of an unsigned transaction, all inside
one list. Every byte the parser goes past is fed to the BLAKE2b context, which
is represented by the bytes it was fed since its initialisation.
-/

namespace AppVechain

/-- `rlpTxField_e` -/
inductive RlpTxField where
  | none
  | content
  | chainTag
  | blockRef
  | expiration
  | clauses
  | gasPriceCoef
  | gas
  | dependsOn
  | nonce
  | reserved
  | done
  deriving DecidableEq, Repr

/-- `context->currentField++` -/
def RlpTxField.succ : RlpTxField → RlpTxField
  | none => content
  | content => chainTag
  | chainTag => blockRef
  | blockRef => expiration
  | expiration => clauses
  | clauses => gasPriceCoef
  | gasPriceCoef => gas
  | gas => dependsOn
  | dependsOn => nonce
  | nonce => reserved
  | reserved => done
  | done => done

/-- `txContent_t`. Its member `clauses` is never read. -/
structure TxContent where
  gaspricecoef : TxInt256
  gas : TxInt256
  deriving DecidableEq

/-- The transaction data after a `memset` to zero. -/
def TxContent.zero : TxContent := ⟨TxInt256.zero, TxInt256.zero⟩

/-- What the transaction parser reaches through its pointers. -/
structure TxEnv where
  clauses : ClausesState
  content : TxContent
  blake2b : List UInt8

/-- `txContext_t` with what it points to. -/
abbrev TxState := ParserState RlpTxField TxEnv

/-- The variables of the parsers before anything was written to them. -/
def TxEnv.zero : TxEnv where
  clauses :=
    { toFieldContext := FieldContext.zero
      currentField := .none
      env :=
        { clauseContext := ⟨FieldContext.zero, .none, .firstClause⟩
          content := ⟨0, false⟩
          firstClause := .zero
          tmpContent := .zero
          entered := 0 } }
  content := .zero
  blake2b := []

/-- `initTx`. The clause contents and `txContent` keep what they hold. -/
def initTx (env : TxEnv) : TxState :=
  { toFieldContext := FieldContext.zero
    currentField := .content
    env := { env with blake2b := [], clauses := initClauses env.clauses.env } }

/-- The bytes fed to BLAKE2b by `readTxByte` and `copyTxData`: the one byte of a
self-encoded field was hashed when it was read as a header. -/
def hashTx (bytes : List UInt8) (s : TxState) (env : TxEnv) : TxEnv :=
  if s.processingField && s.fieldSingleByte then env
  else { env with blake2b := env.blake2b ++ bytes }

/-- `copyTxData`; `out` is the `memmove` when its argument is not `NULL`. -/
def copyTxData (out : List UInt8 → TxState → Exec TxEnv) (bytes : List UInt8) (s : TxState) :
    Exec TxEnv :=
  (out bytes s).map (hashTx bytes s)

/-- `copyTxData` with `out` equal to `NULL`. -/
def copyTxDataNull : List UInt8 → TxState → Exec TxEnv := copyTxData fun _ s => .ok s.env

/-- `copyTxDataClauses`. The clause bytes are hashed after they are parsed. -/
def copyTxDataClauses (scratch : Scratch) (bytes : List UInt8) (s : TxState) : Exec TxEnv :=
  match processClauses scratch s.env.clauses bytes with
  | .returned .fault clauses => .throw { s.env with clauses := clauses }
  | .returned _ clauses => .ok (hashTx bytes s { s.env with clauses := clauses })
  | .stuck e => .stuck e

/-- `context->currentField++` -/
def nextTxField (s : TxState) : TxState := { s with currentField := s.currentField.succ }

/-- `processContent`. The length of the outer list is stored, and not used again. -/
def processContent (s : TxState) : Exec TxState :=
  if !s.currentFieldIsList then .throw s
  else .ok { s with
    dataLength := s.currentFieldLength
    currentField := s.currentField.succ
    processingField := false }

def processChainTagField : TxState → Exec TxState :=
  processField ⟨false, some MAX_INT32, copyTxDataNull, nextTxField⟩

def processBlockRefField : TxState → Exec TxState :=
  processField ⟨false, some MAX_INT64, copyTxDataNull, nextTxField⟩

def processExpirationField : TxState → Exec TxState :=
  processField ⟨false, some MAX_INT32, copyTxDataNull, nextTxField⟩

def processClausesField (scratch : Scratch) : TxState → Exec TxState :=
  processField ⟨true, none, copyTxDataClauses scratch, nextTxField⟩

def processGasPriceCoefField : TxState → Exec TxState :=
  processField {
    isList := false
    maxLength := some MAX_INT8
    use := copyTxData fun bytes s =>
      (memmove s.env.content.gaspricecoef.value s.currentFieldPos bytes).map fun value =>
        { s.env with content := { s.env.content with
          gaspricecoef := { s.env.content.gaspricecoef with value := value } } }
    finish := fun s => nextTxField { s with
      env := { s.env with content := { s.env.content with
        gaspricecoef := { s.env.content.gaspricecoef with length := s.currentFieldLength } } } } }

def processGasField : TxState → Exec TxState :=
  processField {
    isList := false
    maxLength := some MAX_INT64
    use := copyTxData fun bytes s =>
      (memmove s.env.content.gas.value s.currentFieldPos bytes).map fun value =>
        { s.env with content := { s.env.content with
          gas := { s.env.content.gas with value := value } } }
    finish := fun s => nextTxField { s with
      env := { s.env with content := { s.env.content with
        gas := { s.env.content.gas with length := s.currentFieldLength } } } } }

def processDependsOnField : TxState → Exec TxState :=
  processField ⟨false, some MAX_INT256, copyTxDataNull, nextTxField⟩

def processNonceField : TxState → Exec TxState :=
  processField ⟨false, some MAX_INT64, copyTxDataNull, nextTxField⟩

def processReservedField : TxState → Exec TxState :=
  processField ⟨true, none, copyTxDataNull, nextTxField⟩

/-- `processTxInternal`: its part of the common loop. -/
def txParser (scratch : Scratch) : Parser RlpTxField TxEnv where
  isDone field := field = .done
  exhausted := .processing
  read b s := hashTx [b] s s.env
  enter s := s
  handle s :=
    match s.currentField with
    | .content => processContent s
    | .chainTag => processChainTagField s
    | .blockRef => processBlockRefField s
    | .expiration => processExpirationField s
    | .clauses => processClausesField scratch s
    | .gasPriceCoef => processGasPriceCoefField s
    | .gas => processGasField s
    | .dependsOn => processDependsOnField s
    | .nonce => processNonceField s
    | .reserved => processReservedField s
    | _ => .throw s

def processTx (scratch : Scratch) (s : TxState) (buffer : List UInt8) : Result TxState :=
  (txParser scratch).process s buffer

end AppVechain

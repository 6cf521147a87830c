import AppVechain.Ustream.Parser

/-!
# The clause parser

`common/vetClauseUstream.c`: the fields `to`, `value` and `data` of one clause.
Only `data` of the length of a token transfer is kept; the payload of other
data is not read at all.
-/

namespace AppVechain

/-- `rlpClauseField_e` -/
inductive RlpClauseField where
  | none
  | toAddress
  | value
  | data
  | done
  deriving DecidableEq, Repr

/-- `context->currentField++` -/
def RlpClauseField.succ : RlpClauseField → RlpClauseField
  | none => toAddress
  | toAddress => value
  | value => data
  | data => done
  | done => done

/-- `txInt256_t` -/
structure TxInt256 where
  value : Vector UInt8 32
  length : ℕ
  deriving DecidableEq

/-- `clauseContent_t` -/
structure ClauseContent where
  toAddress : Vector UInt8 20
  toLength : ℕ
  value : TxInt256
  data : Vector UInt8 68
  dataPresent : Bool
  deriving DecidableEq

/-- An integer after a `memset` to zero. -/
def TxInt256.zero : TxInt256 := ⟨Vector.replicate 32 0, 0⟩

/-- A clause after a `memset` to zero. -/
def ClauseContent.zero : ClauseContent :=
  ⟨Vector.replicate 20 0, 0, TxInt256.zero, Vector.replicate 68 0, false⟩

/-- `clauseContext_t` with the clause its member `content` points to. -/
abbrev ClauseState := ParserState RlpClauseField ClauseContent

/-- The limits on field lengths. -/
def MAX_ADDRESS : ℕ := 20
def MAX_INT256 : ℕ := 32
def MAX_INT64 : ℕ := 8
def MAX_INT32 : ℕ := 4
def MAX_INT8 : ℕ := 1

/-- `initClause` -/
def initClause {E : Type} (content : E) : ParserState RlpClauseField E :=
  { toFieldContext := FieldContext.zero, currentField := .toAddress, env := content }

def processToField : ClauseState → Exec ClauseState :=
  processField {
    isList := false
    maxLength := some MAX_ADDRESS
    use := fun bytes s =>
      (memmove s.env.toAddress s.currentFieldPos bytes).map
        fun toAddress => { s.env with toAddress := toAddress }
    finish := fun s => { s with
      env := { s.env with toLength := s.currentFieldLength }
      currentField := s.currentField.succ } }

def processValueField : ClauseState → Exec ClauseState :=
  processField {
    isList := false
    maxLength := some MAX_INT256
    use := fun bytes s =>
      (memmove s.env.value.value s.currentFieldPos bytes).map fun value =>
        { s.env with value := { s.env.value with value := value } }
    finish := fun s => { s with
      env := { s.env with value := { s.env.value with length := s.currentFieldLength } }
      currentField := s.currentField.succ } }

/-- `processDataField`. Data of any other length than 68 ends at its header: the
clause is then done, and whatever follows in it is skipped by the caller. -/
def processDataField (s : ClauseState) : Exec ClauseState :=
  if s.currentFieldIsList then .throw s
  else
    let s := { s with env := { s.env with dataPresent := s.currentFieldLength ≠ 0 } }
    if s.currentFieldLength = 68 then
      (if s.currentFieldPos < s.currentFieldLength then
        copyData (fun bytes s =>
          (memmove s.env.data s.currentFieldPos bytes).map fun data => { s.env with data := data })
          s.copySize s
        else .ok s).bind fun s =>
      .ok (if s.currentFieldPos = s.currentFieldLength then
        { s with currentField := s.currentField.succ, processingField := false } else s)
    else .ok { s with currentField := s.currentField.succ, processingField := false }

/-- `processClauseInternal`: its part of the common loop. -/
def clauseParser : Parser RlpClauseField ClauseContent where
  isDone field := field = .done
  exhausted := .processing
  read _ s := s.env
  enter s := s
  handle s :=
    match s.currentField with
    | .toAddress => processToField s
    | .value => processValueField s
    | .data => processDataField s
    | _ => .throw s

def processClause (s : ClauseState) (buffer : List UInt8) : Result ClauseState :=
  clauseParser.process s buffer

end AppVechain

import AppVechain.Ustream.Header

/-!
# The resumable RLP parsers

The application parses a transaction, the list of its clauses and each clause
with three copies of one loop (`processTxInternal`, `processClausesInternal`,
`processClauseInternal`). The copies differ in their fields, in what reading a
byte does besides, and in what a complete header starts; these are the
parameters of `Parser` here, and the loop is written once.

A `THROW` keeps the state written before it. Accesses outside an array or a
chunk and loops that do not end have no result; they are `Stuck`.
-/

namespace AppVechain

/-- `parserStatus_e` -/
inductive ParserStatus where
  | processing
  | finished
  | fault
  deriving DecidableEq, Repr

/-- Why a piece of code has no result. -/
inductive Stuck where
  /-- An access outside the bounds of an array or of a chunk. -/
  | outOfBounds
  /-- A loop that is still running after more turns than any run needs. -/
  | diverges
  /-- A member of a union read after another member was written over it. -/
  | overlaid
  deriving DecidableEq, Repr

/-- The end of a statement: falling through, `THROW(EXCEPTION)`, or no result.
The state at a `THROW` is the one left behind by the statements before it. -/
inductive Exec (S : Type) where
  | ok (s : S)
  | throw (s : S)
  | stuck (e : Stuck)

/-- Statement sequencing. -/
def Exec.bind {S : Type} : Exec S → (S → Exec S) → Exec S
  | .ok s, f => f s
  | .throw s, _ => .throw s
  | .stuck e, _ => .stuck e

/-- Change the state that an end carries. -/
def Exec.map {S T : Type} (f : S → T) : Exec S → Exec T
  | .ok s => .ok (f s)
  | .throw s => .throw (f s)
  | .stuck e => .stuck e

/-- The end of a parser call: the returned status and the state, or no result. -/
inductive Result (S : Type) where
  | returned (status : ParserStatus) (s : S)
  | stuck (e : Stuck)

/-- `workBuffer` and `commandLength`: a pointer into a chunk, with the bytes
behind it (nearest first) and the `commandLength` bytes ahead of it. -/
structure WorkBuffer where
  behind : List UInt8
  ahead : List UInt8
  deriving DecidableEq, Repr

/-- The members that `txContext_t`, `clausesContext_t` and `clauseContext_t` share. -/
structure FieldContext where
  currentFieldLength : ℕ
  currentFieldPos : ℕ
  currentFieldIsList : Bool
  processingField : Bool
  fieldSingleByte : Bool
  dataLength : ℕ
  rlpBuffer : RlpBuffer
  rlpBufferPos : ℕ
  workBuffer : WorkBuffer
  deriving DecidableEq

/-- The members after a `memset` to zero. -/
def FieldContext.zero : FieldContext where
  currentFieldLength := 0
  currentFieldPos := 0
  currentFieldIsList := false
  processingField := false
  fieldSingleByte := false
  dataLength := 0
  rlpBuffer := Vector.replicate 5 0
  rlpBufferPos := 0
  workBuffer := ⟨[], []⟩

/-- A context together with the data `env` it has pointers to. -/
structure ParserState (F E : Type) extends FieldContext where
  currentField : F
  env : E

variable {F E : Type}

/-- The bytes of the chunk that are left. -/
def ParserState.commandLength (s : ParserState F E) : ℕ := s.workBuffer.ahead.length

/-- Keep the context and exchange the data it points to. -/
def ParserState.withEnv {E' : Type} (s : ParserState F E) (env : E') : ParserState F E' :=
  { toFieldContext := s.toFieldContext, currentField := s.currentField, env := env }

/-- `workBuffer += n; commandLength -= n; if (processingField) currentFieldPos += n`. -/
def ParserState.advance (s : ParserState F E) (n : ℕ) : ParserState F E :=
  { s with
    workBuffer := ⟨(s.workBuffer.ahead.take n).reverse ++ s.workBuffer.behind,
      s.workBuffer.ahead.drop n⟩
    currentFieldPos := if s.processingField then s.currentFieldPos + n else s.currentFieldPos }

/-- `copySize`: what the chunk holds of the field, as the field handlers compute it. -/
def ParserState.copySize (s : ParserState F E) : ℕ :=
  if s.commandLength < s.currentFieldLength - s.currentFieldPos then s.commandLength
  else s.currentFieldLength - s.currentFieldPos

/-- Store bytes from a position on. -/
def writeBytes {n : ℕ} (out : Vector UInt8 n) : ℕ → List UInt8 → Vector UInt8 n
  | _, [] => out
  | pos, b :: bs => writeBytes (out.setIfInBounds pos b) (pos + 1) bs

/-- `memmove(out + pos, bytes, length)` into an array of `n` bytes. -/
def memmove {n : ℕ} (out : Vector UInt8 n) (pos : ℕ) (bytes : List UInt8) : Exec (Vector UInt8 n) :=
  if pos + bytes.length ≤ n then .ok (writeBytes out pos bytes) else .stuck .outOfBounds

/-- The shape of `copyTxData`, `copyClausesData` and `copyClauseData`; `use` is
what is done with the bytes before the pointer moves on. -/
def copyData (use : List UInt8 → ParserState F E → Exec E) (length : ℕ) (s : ParserState F E) :
    Exec (ParserState F E) :=
  if s.commandLength < length then .throw s
  else ((use (s.workBuffer.ahead.take length) s).map fun env => { s with env := env }).bind
    fun s => .ok (s.advance length)

/-- What the field handlers `process…Field` differ in. -/
structure FieldSpec (F E : Type) where
  /-- The kind of item expected. -/
  isList : Bool
  /-- The largest length accepted, if any. -/
  maxLength : Option ℕ
  /-- What is done with payload bytes. -/
  use : List UInt8 → ParserState F E → Exec E
  /-- What is done at the end of the field, `processingField = false` aside. -/
  finish : ParserState F E → ParserState F E

/-- The common body of the field handlers. -/
def processField (spec : FieldSpec F E) (s : ParserState F E) : Exec (ParserState F E) :=
  if s.currentFieldIsList ≠ spec.isList then .throw s
  else if spec.maxLength.any (· < s.currentFieldLength) then .throw s
  else
    (if s.currentFieldPos < s.currentFieldLength then copyData spec.use s.copySize s
      else .ok s).bind fun s =>
    .ok (if s.currentFieldPos = s.currentFieldLength then
      { spec.finish s with processingField := false } else s)

/-- What the three parsers differ in. -/
structure Parser (F E : Type) where
  /-- The loop returns `USTREAM_FINISHED` in this field. -/
  isDone : F → Bool
  /-- The status returned when the chunk is used up. -/
  exhausted : ParserStatus
  /-- What reading a header byte does besides moving the pointer. -/
  read : UInt8 → ParserState F E → E
  /-- What a complete header starts besides the field. -/
  enter : ParserState F E → ParserState F E
  /-- The `switch` on `currentField`. -/
  handle : ParserState F E → Exec (ParserState F E)

/-- How the `while` loop that fills `rlpBuffer` ends. -/
inductive Feed (S : Type) where
  /-- The header can be decoded. -/
  | decoded (s : S)
  /-- The chunk ended first. -/
  | starved (s : S)
  | fault (s : S)
  | stuck (e : Stuck)

/-- One byte from the chunk: `readTxByte`, `readClausesByte`, `readClauseByte`. -/
def Parser.readByte (p : Parser F E) (b : UInt8) (s : ParserState F E) : ParserState F E :=
  { s.advance 1 with env := p.read b (s.advance 1) }

/-- The `while (commandLength != 0)` loop, with at most the given number of turns. -/
def Parser.feed (p : Parser F E) : ℕ → ParserState F E → Feed (ParserState F E)
  | 0, s => .starved s
  | n + 1, s =>
    match s.workBuffer.ahead with
    | [] => .starved s
    | b :: _ =>
      let s := p.readByte b s
      if h : s.rlpBufferPos < 5 then
        let s := { s with
          rlpBuffer := s.rlpBuffer.set s.rlpBufferPos b h
          rlpBufferPos := s.rlpBufferPos + 1 }
        match rlpCanDecode s.rlpBuffer s.rlpBufferPos with
        | some true => .decoded s
        | some false => .fault s
        | none => if s.rlpBufferPos = 5 then .fault s else p.feed n s
      else .stuck .outOfBounds

/-- `workBuffer--; commandLength++`: the last byte read is given back. -/
def WorkBuffer.unread : WorkBuffer → Option WorkBuffer
  | ⟨[], _⟩ => none
  | ⟨b :: behind, ahead⟩ => some ⟨behind, b :: ahead⟩

/-- The statements between the header loop and the `switch`. -/
def Parser.beginField (p : Parser F E) (s : ParserState F E) : Exec (ParserState F E) :=
  match rlpDecodeLength s.rlpBuffer with
  | none => .throw s
  | some ⟨fieldLength, offset, list⟩ =>
    let started (workBuffer : WorkBuffer) := p.enter { s with
      currentFieldLength := fieldLength
      currentFieldIsList := list
      fieldSingleByte := offset = 0
      workBuffer := workBuffer
      currentFieldPos := 0
      rlpBufferPos := 0
      processingField := true }
    if offset = 0 then
      -- Hack for single byte, self encoded
      match s.workBuffer.unread with
      | none => .stuck .outOfBounds
      | some workBuffer => .ok (started workBuffer)
    else .ok (started s.workBuffer)

/-- One turn of the `for (;;)` loop: a returned status, or the state at its end. -/
def Parser.turn (p : Parser F E) (s : ParserState F E) :
    Result (ParserState F E) ⊕ ParserState F E :=
  let switch (s : ParserState F E) : Result (ParserState F E) ⊕ ParserState F E :=
    match p.handle s with
    | .ok s => .inr s
    | .throw s => .inl (.returned .fault s)
    | .stuck e => .inl (.stuck e)
  if p.isDone s.currentField then .inl (.returned .finished s)
  else if s.commandLength = 0 then .inl (.returned p.exhausted s)
  else if s.processingField then switch s
  else
    match p.feed s.commandLength s with
    | .starved s => .inl (.returned .processing s)
    | .fault s => .inl (.returned .fault s)
    | .stuck e => .inl (.stuck e)
    | .decoded s =>
      match p.beginField s with
      | .ok s => switch s
      | .throw s => .inl (.returned .fault s)
      | .stuck e => .inl (.stuck e)

/-- The `for (;;)` loop, with a bound on its turns. -/
def Parser.loop (p : Parser F E) : ℕ → ParserState F E → Result (ParserState F E)
  | 0, _ => .stuck .diverges
  | n + 1, s =>
    match p.turn s with
    | .inl result => result
    | .inr s => p.loop n s

/-- A parser call on a chunk, with the `TRY` block that turns a `THROW` into
`USTREAM_FAULT`. Every turn but the last two uses up a byte (`Parser.process_spec`). -/
def Parser.process (p : Parser F E) (s : ParserState F E) (buffer : List UInt8) :
    Result (ParserState F E) :=
  p.loop (buffer.length + 2) { s with workBuffer := ⟨[], buffer⟩ }

end AppVechain

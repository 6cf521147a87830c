import AppVechain.Ustream.Clause

/-!
# The clause list parser

`common/vetClausesUstream.c`: each clause is a list whose payload is handed to
the clause parser. The first clause is parsed into a buffer that is displayed
later, every other one into `tmpContent`, a variable of the block in which the
clause parser is initialised. The pointer to it outlives the block. The model
gives the variable a place of its own, which is there as long as the parser is:
that a write through the pointer meets nothing else on the stack is assumed, and
only what is read back is left to chance (`Scratch`).
-/

namespace AppVechain

/-- `rlpClausesField_e` -/
inductive RlpClausesField where
  | none
  | clause
  | done
  deriving DecidableEq, Repr

/-- `clausesContent_t`. Its member `firstClause` always points to the clause
given to `initClauses`. -/
structure ClausesContent where
  clausesLength : UInt8
  dataPresent : Bool
  deriving DecidableEq

/-- What `clauseContext->content` points to. -/
inductive ContentRef where
  | firstClause
  | tmpContent
  deriving DecidableEq, Repr

/-- `clauseContext_t` -/
abbrev ClauseContext := ParserState RlpClauseField ContentRef

/-- The storage of `tmpContent` once its block is left. `fresh k` is what it
holds when the block is entered for clause `k`, and `dataPresent k b` is what is
read from its member `dataPresent` at the end of clause `k` when `b` was
written last. It is the storage of one run of a parser: what is found depends on
where the calls end and on what runs in between, so that the same bytes in other
calls may find another one. -/
structure Scratch where
  fresh : ℕ → ClauseContent
  dataPresent : ℕ → Bool → Bool

/-- Storage that starts as zero and stays valid until its clause ends. -/
def Scratch.valid : Scratch := ⟨fun _ => .zero, fun _ b => b⟩

/-- What the clause list parser reaches through its pointers. `entered` counts
the clauses, without wrapping around. -/
structure ClausesEnv where
  clauseContext : ClauseContext
  content : ClausesContent
  firstClause : ClauseContent
  tmpContent : ClauseContent
  entered : ℕ

/-- `clausesContext_t` with what it points to. -/
abbrev ClausesState := ParserState RlpClausesField ClausesEnv

/-- The clause parser with the clause it writes to. -/
def ClausesEnv.loadClause (env : ClausesEnv) : ClauseState :=
  env.clauseContext.withEnv (match env.clauseContext.env with
    | .firstClause => env.firstClause
    | .tmpContent => env.tmpContent)

/-- The clause parser and its clause after a call. The branch of `tmpContent` is the
write through the pointer whose block is left. -/
def ClausesEnv.storeClause (env : ClausesEnv) (s : ClauseState) : ClausesEnv :=
  match env.clauseContext.env with
  | .firstClause =>
    { env with clauseContext := s.withEnv .firstClause, firstClause := s.env }
  | .tmpContent =>
    { env with clauseContext := s.withEnv .tmpContent, tmpContent := s.env }

/-- `clauseContext->content->dataPresent` -/
def ClausesEnv.clauseDataPresent (scratch : Scratch) (env : ClausesEnv) : Bool :=
  match env.clauseContext.env with
  | .firstClause => env.firstClause.dataPresent
  | .tmpContent => scratch.dataPresent env.entered env.tmpContent.dataPresent

/-- `initClauses` -/
def initClauses (env : ClausesEnv) : ClausesState :=
  { toFieldContext := FieldContext.zero
    currentField := .clause
    env := { env with content := ⟨0, false⟩, entered := 0 } }

/-- The call in `copyClausesData`. -/
def copyClausesData (bytes : List UInt8) (s : ClausesState) : Exec ClausesEnv :=
  match processClause s.env.loadClause bytes with
  | .returned .fault clause => .throw (s.env.storeClause clause)
  | .returned _ clause => .ok (s.env.storeClause clause)
  | .stuck e => .stuck e

def processClauseField (scratch : Scratch) : ClausesState → Exec ClausesState :=
  processField {
    isList := true
    maxLength := none
    use := copyClausesData
    finish := fun s =>
      if s.env.clauseDataPresent scratch then
        { s with env := { s.env with content := { s.env.content with dataPresent := true } } }
      else s }

/-- The clause parser is initialised at each header, the first time on the clause
that is displayed; `clausesLength` is a `uint8_t`. -/
def enterClause (scratch : Scratch) (s : ClausesState) : ClausesState :=
  let env :=
    if s.env.content.clausesLength = 0 then
      { s.env with clauseContext := initClause .firstClause }
    else
      { s.env with
        clauseContext := initClause .tmpContent
        tmpContent := scratch.fresh s.env.entered }
  { s with env := { env with
    content := { env.content with clausesLength := env.content.clausesLength + 1 }
    entered := env.entered + 1 } }

/-- `processClausesInternal`: its part of the common loop. It never finishes by
itself, and reports a chunk that is used up as `USTREAM_FINISHED`. -/
def clausesParser (scratch : Scratch) : Parser RlpClausesField ClausesEnv where
  isDone _ := false
  exhausted := .finished
  read _ s := s.env
  enter := enterClause scratch
  handle s :=
    match s.currentField with
    | .clause => processClauseField scratch s
    | _ => .throw s

def processClauses (scratch : Scratch) (s : ClausesState) (buffer : List UInt8) :
    Result ClausesState :=
  (clausesParser scratch).process s buffer

end AppVechain

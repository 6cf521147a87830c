import AppVechain.Rlp.Related
import AppVechain.Ustream.ClauseList

/-!
# What decides about a transaction

Whether a transaction is complete, refused or waits for more depends on its
bytes only, not on what the parser held before or on the storage of the clauses.
-/

namespace AppVechain

open Rlp Streaming

/-- Machines of a clause at the same place. -/
def SameClause : FieldState RlpClauseField ClauseContent → FieldState RlpClauseField ClauseContent →
    Prop :=
  FieldState.Related fun _ _ => True

/-- Machines of a clause list at the same place. -/
def SameClauses : FieldState RlpClausesField ClausesData → FieldState RlpClausesField ClausesData →
    Prop :=
  FieldState.Related fun d e => SameClause d.clause e.clause

/-- Machines of a transaction at the same place. -/
def SameTx : FieldState RlpTxField TxData → FieldState RlpTxField TxData → Prop :=
  FieldState.Related fun d e => SameClauses d.clauses e.clauses

/-- What a clause holds plays no part. -/
theorem clauseRules_related : clauseRules.Related clauseRules fun _ _ => True where
  isDone _ := rfl
  admits _ _ _ := rfl
  skips _ _ := rfl
  next _ := rfl
  header _ _ _ _ := trivial
  enter _ _ _ := trivial
  start _ _ _ _ _ := trivial
  store f _ _ _ _ _ _ := by cases f <;> exact .some trivial
  finish _ _ _ _ _ := trivial

/-- Blocks of a clause are refused alike. -/
theorem ClausesData.feed_related {d e : ClausesData} (h : SameClause d.clause e.clause)
    (bytes : List UInt8) :
    Option.Rel (fun d e : ClausesData => SameClause d.clause e.clause) (d.feed bytes)
      (e.feed bytes) := by
  have hrun := outcome_state_related (clauseRules_related.run h bytes)
  unfold ClausesData.feed
  generalize (clauseRules.machine.run d.clause bytes).state? = state at hrun
  generalize (clauseRules.machine.run e.clause bytes).state? = state' at hrun
  cases hrun with
  | some hstate => exact .some hstate
  | none => exact .none

/-- What a clause list holds plays no part. -/
theorem clausesRules_related (scratch scratch' : Scratch) :
    (clausesRules scratch).Related (clausesRules scratch')
      fun d e => SameClause d.clause e.clause where
  isDone _ := rfl
  admits _ _ _ := rfl
  skips _ _ := rfl
  next _ := rfl
  header _ _ _ h := h
  enter _ _ _ := ⟨rfl, rfl, trivial⟩
  start _ _ _ _ h := h
  store _ _ _ b _ _ h := ClausesData.feed_related h [b]
  finish f length d e h := by
    rw [clausesRules_finish, clausesRules_finish]
    exact h

/-- Blocks of a clause list are refused alike. -/
theorem TxData.keep_related (scratch scratch' : Scratch) (f : RlpTxField) (pos : ℕ)
    (bytes : List UInt8) {d e : TxData} (h : SameClauses d.clauses e.clauses) :
    Option.Rel (fun d e : TxData => SameClauses d.clauses e.clauses)
      (d.keep scratch f pos bytes) (e.keep scratch' f pos bytes) := by
  cases f
  case clauses =>
    have hrun := outcome_state_related ((clausesRules_related scratch scratch').run h bytes)
    unfold TxData.keep TxData.feed
    generalize ((clausesRules scratch).machine.run d.clauses bytes).state? = state at hrun
    generalize ((clausesRules scratch').machine.run e.clauses bytes).state? = state' at hrun
    cases hrun with
    | some hstate => exact .some hstate
    | none => exact .none
  all_goals exact .some h

/-- Hashing plays no part. -/
theorem TxData.hash_clauses (single : Bool) (bytes : List UInt8) (d : TxData) :
    (d.hash single bytes).clauses = d.clauses := by
  unfold TxData.hash
  split_ifs <;> rfl

/-- What a transaction holds plays no part. -/
theorem txRules_related (scratch scratch' : Scratch) :
    (txRules scratch).Related (txRules scratch') fun d e => SameClauses d.clauses e.clauses where
  isDone _ := rfl
  admits f _ _ := by cases f <;> rfl
  skips _ _ := rfl
  next _ := rfl
  header b d e h := by
    show SameClauses (d.hash false [b]).clauses (e.hash false [b]).clauses
    rw [TxData.hash_clauses, TxData.hash_clauses]
    exact h
  enter _ _ h := h
  start _ _ _ _ h := h
  store f single pos b d e h := by
    have hkeep := TxData.keep_related scratch scratch' f pos [b] h
    show Option.Rel _ ((d.keep scratch f pos [b]).map _) ((e.keep scratch' f pos [b]).map _)
    generalize d.keep scratch f pos [b] = kept at hkeep
    generalize e.keep scratch' f pos [b] = kept' at hkeep
    cases hkeep with
    | none => exact .none
    | some hkept =>
      refine .some ?_
      rw [TxData.hash_clauses, TxData.hash_clauses]
      exact hkept
  finish f _ _ _ h := by cases f <;> exact h

/-- **Two sessions on the same bytes** wait, halt and refuse at the same bytes. -/
theorem txRules_run_related (scratch scratch' : Scratch) (firstClause firstClause' : ClauseContent)
    (content content' : TxContent) (xs : List UInt8) :
    Outcome.Related SameTx ((txRules scratch).machine.run (txStart firstClause content) xs)
      ((txRules scratch').machine.run (txStart firstClause' content') xs) := by
  have hstart : SameTx (txStart firstClause content) (txStart firstClause' content') :=
    ⟨rfl, rfl, rfl, rfl, rfl, rfl, trivial⟩
  exact (txRules_related scratch scratch').run hstart xs

end AppVechain

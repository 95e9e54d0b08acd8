import KnowledgeSearch.Ingestion.Pipeline
import KnowledgeSearch.Persistence.Repositories

/-!
# The stores of the application

The relational store, the file store, the vector index and the messages of the queue, and
the transactions on the relational store.
-/

namespace KnowledgeSearch

/-- The readings of the wall clock during a step. They need not be ordered. -/
abbrev Clock := ℕ → Timestamp

/-- The stores the services of the application share. The queue is the list of the messages
it accepted; a delivery of a job may happen at any time and any number of times. -/
structure Stores where
  db : Database
  fs : FileSystem
  index : VectorIndex
  queue : List Uuid

/-- The stores of a new deployment. -/
def Stores.initial : Stores where
  db := .initial
  fs := .initial
  index := .empty
  queue := []

/-- `PostgresSessionFactory.transaction`: a transaction commits as a whole, or raises and
leaves the database as it was. A fault is an error of the database during the transaction,
its commit included. -/
def transaction {α : Type} (fault : Option AppError) (body : Except AppError α) :
    Except AppError α :=
  match fault with
  | some e => .error e
  | none => body

@[simp]
theorem transaction_none {α : Type} (body : Except AppError α) :
  transaction none body = body
  := rfl

theorem transaction_eq_ok_iff {α : Type} {fault : Option AppError} {body : Except AppError α}
    {a : α} :
  transaction fault body = .ok a ↔ fault = none ∧ body = .ok a
  := by
  cases fault with
  | none => simp
  | some e => simp [transaction]

end KnowledgeSearch

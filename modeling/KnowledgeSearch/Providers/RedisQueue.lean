import KnowledgeSearch.Application.Documents
import KnowledgeSearch.Domain.Identifiers

/-!
# The queue of the jobs

`RedisIngestionQueue` sends the message for a job and cancels it, and `processIngestionJob` is what a
worker calls for it. A call that fails with an error of Redis may have had its effect all the same.

The calls are modelled by their effect on the list of the messages that have been sent and not been
cancelled. What the queue makes of a message, from when a worker takes it to when it expires, is not
modelled.
-/

namespace KnowledgeSearch

/-- How often, and after how many seconds, a worker tries again. -/
structure Retry where
  max : ℕ
  interval : List ℕ
  deriving DecidableEq

/-- A message as it is sent to Redis. -/
structure QueuedJob where
  function : String
  arguments : List Text
  jobId : Text
  retry : Retry
  resultTtl : ℕ
  failureTtl : ℕ
  deriving DecidableEq

def workerFunction : String :=
  "knowledge_search.worker.jobs.process_ingestion_job"

namespace RedisIngestionQueue

/-- The identifier of the message for a job. -/
def messageId (jobId : Uuid) : Text :=
  "ingestion-".toList ++ jobId.text

/-- The message for a job. -/
def message (jobId : Uuid) : QueuedJob where
  function := workerFunction
  arguments := [jobId.text]
  jobId := messageId jobId
  retry := ⟨3, [10, 30, 60]⟩
  resultTtl := 3600
  failureTtl := 86400

/-- `enqueue`. The fault is an error of Redis, and tells whether the message was sent. -/
def enqueue (sent : List QueuedJob) (jobId : Uuid) :
    Option Bool → List QueuedJob × EnqueueOutcome
  | none => (sent ++ [message jobId], .accepted)
  | some delivered =>
      (if delivered then sent ++ [message jobId] else sent,
        .rejected "Redis did not accept the ingestion job." delivered)

/-- `cancel`, which returns when there is no message to cancel. The fault is an error of Redis, and tells
whether the message was cancelled. -/
def cancel (sent : List QueuedJob) (jobId : Uuid) :
    Option Bool → List QueuedJob × Option AppError
  | none => (sent.filter (·.jobId ≠ messageId jobId), none)
  | some cancelled =>
      (if cancelled then sent.filter (·.jobId ≠ messageId jobId) else sent,
        some (.queueDispatch "Redis did not cancel the ingestion job." none none))

theorem messageId_injective :
  Function.Injective messageId
  := by
  intro a b h
  apply Uuid.text_injective
  apply List.append_cancel_left h

/-- Cancelling a message of some jobs leaves the messages of the others. -/
theorem filter_map_message (jobIds : List Uuid) (jobId : Uuid) :
  (jobIds.map message).filter (·.jobId ≠ messageId jobId)
    = (jobIds.filter (· ≠ jobId)).map message
  := by
  have hkept : (fun job : QueuedJob => decide (job.jobId ≠ messageId jobId)) ∘ message
      = fun id => decide (id ≠ jobId) := by
    funext id
    simp only [Function.comp_apply, message, ne_eq, messageId_injective.eq_iff]
  rw [List.filter_map, hkept]

end RedisIngestionQueue

/-- The job a worker processes for a message: `process_ingestion_job` reads its argument. -/
def processIngestionJob (decimal : Char → Option ℕ) (job : QueuedJob) : Option Uuid :=
  match job.arguments with
  | [jobId] => Uuid.parse decimal jobId
  | _ => none

/-- A worker reads the job it was sent. -/
theorem processIngestionJob_message (decimal : Char → Option ℕ) (jobId : Uuid) :
  processIngestionJob decimal (RedisIngestionQueue.message jobId) = some jobId
  := by
  simp only [processIngestionJob, RedisIngestionQueue.message]
  apply Uuid.parse_text

end KnowledgeSearch

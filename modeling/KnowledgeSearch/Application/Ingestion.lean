import KnowledgeSearch.Application.Stores

/-!
# Ingestion

`IngestionJobProcessor.process` as the sequence of its steps: the transaction of
`_start_job`, the reading of the document, its preparation, embedding, the set-up of the
collection, the upsert, the finalising transaction, and, once a step of the guarded region
has raised, the transaction of `_mark_failed` and the cleanup of the vector index.

`Delivery` is where a call stands and `Delivery.step` what it does next. The rules the
transactions apply to the rows they read are functions of their own, `startRows`,
`finaliseRows` and `failRows`.
-/

namespace KnowledgeSearch

/-! ### The rules of the transactions -/

/-- The rows `_start_job` goes on with: those of a failed job and its failed document are
queued again. -/
def requeueRows (clock : Clock) (job : IngestionJob) (document : Document) :
    Except AppError (IngestionJob × Document) :=
  if job.status = .failed ∧ document.status = .failed then do
    let job ← liftDomain (job.requeue (clock 0))
    let document ← liftDomain (document.queue (clock 1))
    .ok (job, document)
  else .ok (job, document)

/-- The rows `_start_job` saves for a queued job and its queued document. -/
def beginRows (clock : Clock) (job : IngestionJob) (document : Document) :
    Except AppError (Option (Document × IngestionJob)) :=
  if job.status ≠ .queued ∨ document.status ≠ .queued then
    .error (.runtime "document and ingestion job states are inconsistent")
  else do
    let document ← liftDomain (document.startProcessing (clock 2))
    let job ← liftDomain (job.start (clock 3))
    .ok (some (document, job))

/-- What `_start_job` does with the rows it read: nothing, or the rows it saves. -/
def startRows (clock : Clock) (job : IngestionJob) (document : Document) :
    Except AppError (Option (Document × IngestionJob)) :=
  if document.status = .deleting then .ok none
  else if job.status = .succeeded ∧ document.status = .ready then .ok none
  else do
    let rows ← requeueRows clock job document
    beginRows clock rows.1 rows.2

/-- The rows the finalising transaction saves. -/
def finaliseRows (clock : Clock) (job : IngestionJob) (document : Document) :
    Except AppError (Document × IngestionJob) := do
  let document ← liftDomain (document.markReady (clock 0))
  let job ← liftDomain (job.succeed (clock 1))
  .ok (document, job)

/-- The document `_mark_failed` saves, if it does. -/
def failDocument (clock : Clock) (failureCode : Text) (document : Option Document) :
    Except AppError (Option Document) :=
  match document with
  | none => .ok none
  | some document =>
      if document.status = .processing then do
        let document ← liftDomain (document.markFailed failureCode (clock 0))
        .ok (some document)
      else .ok none

/-- The job `_mark_failed` saves, if it does. -/
def failJob (clock : Clock) (failureCode : Text) (job : Option IngestionJob) :
    Except AppError (Option IngestionJob) :=
  match job with
  | none => .ok none
  | some job =>
      if job.status = .running then do
        let job ← liftDomain (job.fail failureCode (clock 1))
        .ok (some job)
      else .ok none

/-- Queueing again changes the rows of a failed job and its failed document only. -/
theorem requeueRows_spec {clock : Clock} {job : IngestionJob} {document : Document}
    {rows : IngestionJob × Document} (h : requeueRows clock job document = .ok rows) :
  rows.1.Revises job ∧ rows.2.Revises document ∧ rows.1.attemptCount = job.attemptCount
    ∧ ((job.status = .failed ∧ document.status = .failed)
        ∧ rows.1.status = .queued ∧ rows.2.status = .queued
      ∨ ¬ (job.status = .failed ∧ document.status = .failed) ∧ rows = (job, document))
  := by
  unfold requeueRows at h
  split at h
  · rename_i hfailed
    obtain ⟨job', hjob, h⟩ := bind_eq_ok_iff.mp h
    obtain ⟨document', hdocument, h⟩ := bind_eq_ok_iff.mp h
    cases h
    obtain ⟨-, hjobto, hjobrev, hcount⟩ :=
      IngestionJob.transition_spec (liftDomain_eq_ok_iff.mp hjob)
    obtain ⟨-, hto, hdocrev⟩ := Document.transition_spec (liftDomain_eq_ok_iff.mp hdocument)
    use hjobrev, hdocrev, hcount, Or.inl ⟨hfailed, hjobto, hto⟩
  · rename_i hfailed
    cases h
    use ⟨rfl, rfl⟩, Document.Revises.refl document, rfl, Or.inr ⟨hfailed, rfl⟩

/-- `_start_job` skips documents being deleted and finished jobs, and otherwise starts a job
that is queued, or failed with its document. -/
theorem startRows_spec {clock : Clock} {job : IngestionJob} {document : Document}
    {rows : Option (Document × IngestionJob)} (h : startRows clock job document = .ok rows) :
  (rows = none
      ∧ (document.status = .deleting ∨ job.status = .succeeded ∧ document.status = .ready))
    ∨ ∃ document' job', rows = some (document', job')
      ∧ (job.status = .queued ∧ document.status = .queued
        ∨ job.status = .failed ∧ document.status = .failed)
      ∧ document'.status = .processing ∧ document'.Revises document
      ∧ job'.status = .running ∧ job'.Revises job ∧ job'.attemptCount = job.attemptCount + 1
  := by
  unfold startRows at h
  split at h
  · rename_i hdeleting
    cases h
    left
    use rfl, Or.inl hdeleting
  split at h
  · rename_i hdone
    cases h
    left
    use rfl, Or.inr hdone
  right
  obtain ⟨⟨job₁, document₁⟩, hrequeue, h⟩ := bind_eq_ok_iff.mp h
  unfold beginRows at h
  split at h
  · cases h
  rename_i hqueued
  simp only [ne_eq, not_or, not_not] at hqueued
  obtain ⟨document', hdocument, h⟩ := bind_eq_ok_iff.mp h
  obtain ⟨job', hjob, h⟩ := bind_eq_ok_iff.mp h
  cases h
  obtain ⟨-, hdocument', hdocrev⟩ := Document.transition_spec (liftDomain_eq_ok_iff.mp hdocument)
  obtain ⟨-, hjob', hjobrev, hcount⟩ := IngestionJob.transition_spec (liftDomain_eq_ok_iff.mp hjob)
  obtain ⟨hjobrev₁, hdocrev₁, hcount₁, hfrom⟩ := requeueRows_spec hrequeue
  use document', job', rfl
  constructor
  · rcases hfrom with ⟨hfailed, -⟩ | ⟨-, hsame⟩
    · apply Or.inr hfailed
    · cases hsame
      apply Or.inl hqueued
  use hdocument', hdocrev.trans hdocrev₁, hjob', hjobrev.trans hjobrev₁
  rw [hcount, Option.getD_some, hcount₁]

/-- `_start_job` finds the states inconsistent only when it neither skips nor starts the job. -/
theorem startRows_eq_runtime {clock : Clock} {job : IngestionJob} {document : Document}
    {message : String} (h : startRows clock job document = .error (.runtime message)) :
  document.status ≠ .deleting ∧ ¬ (job.status = .succeeded ∧ document.status = .ready)
    ∧ ¬ (job.status = .failed ∧ document.status = .failed)
    ∧ ¬ (job.status = .queued ∧ document.status = .queued)
  := by
  unfold startRows at h
  split at h
  · cases h
  rename_i hdeleting
  split at h
  · cases h
  rename_i hdone
  use hdeleting, hdone
  rcases bind_eq_error_iff.mp h with hrequeue | ⟨rows, hrequeue, hbegin⟩
  · unfold requeueRows at hrequeue
    split at hrequeue
    · rcases bind_eq_error_iff.mp hrequeue with hjob | ⟨_, -, hrequeue⟩
      · obtain ⟨_, hdomain⟩ := liftDomain_eq_error hjob
        cases hdomain
      rcases bind_eq_error_iff.mp hrequeue with hdocument | ⟨_, -, hrequeue⟩
      · obtain ⟨_, hdomain⟩ := liftDomain_eq_error hdocument
        cases hdomain
      · cases hrequeue
    · cases hrequeue
  obtain ⟨-, -, -, hfrom⟩ := requeueRows_spec hrequeue
  unfold beginRows at hbegin
  split at hbegin
  · rename_i hnot
    rcases hfrom with ⟨-, hjob, hdocument⟩ | ⟨hfailed, rfl⟩
    · exact absurd hnot (not_or.mpr ⟨not_not.mpr hjob, not_not.mpr hdocument⟩)
    · use hfailed
      rintro ⟨hjob, hdocument⟩
      exact absurd hnot (not_or.mpr ⟨not_not.mpr hjob, not_not.mpr hdocument⟩)
  · rcases bind_eq_error_iff.mp hbegin with hdocument | ⟨_, -, hbegin⟩
    · obtain ⟨_, hdomain⟩ := liftDomain_eq_error hdocument
      cases hdomain
    rcases bind_eq_error_iff.mp hbegin with hjob | ⟨_, -, hbegin⟩
    · obtain ⟨_, hdomain⟩ := liftDomain_eq_error hjob
      cases hdomain
    · cases hbegin

/-- The finalising transaction moves a processing document and a running job. -/
theorem finaliseRows_spec {clock : Clock} {job job' : IngestionJob} {document document' : Document}
    (h : finaliseRows clock job document = .ok (document', job')) :
  document.status = .processing ∧ job.status = .running
    ∧ document'.status = .ready ∧ document'.Revises document
    ∧ job'.status = .succeeded ∧ job'.Revises job ∧ job'.attemptCount = job.attemptCount
  := by
  obtain ⟨document₁, hdocument, h⟩ := bind_eq_ok_iff.mp h
  obtain ⟨job₁, hjob, h⟩ := bind_eq_ok_iff.mp h
  cases h
  obtain ⟨hfrom, hdocument', hdocrev⟩ :=
    Document.transition_spec (liftDomain_eq_ok_iff.mp hdocument)
  obtain ⟨hjobfrom, hjob', hjobrev, hcount⟩ :=
    IngestionJob.transition_spec (liftDomain_eq_ok_iff.mp hjob)
  constructor
  · cases hstatus : document.status <;> simp [hstatus, documentTransitions] at hfrom ⊢
  constructor
  · cases hstatus : job.status <;> simp [hstatus, jobTransitions] at hjobfrom ⊢
  use hdocument', hdocrev, hjob', hjobrev, hcount

/-- `_mark_failed` fails a processing document. -/
theorem failDocument_spec {clock : Clock} {failureCode : Text} {document : Document}
    {result : Option Document} (h : failDocument clock failureCode (some document) = .ok result) :
  (document.status ≠ .processing ∧ result = none)
    ∨ ∃ document', result = some document' ∧ document.status = .processing
      ∧ document'.status = .failed ∧ document'.Revises document
  := by
  simp only [failDocument] at h
  split at h
  · rename_i hprocessing
    obtain ⟨document', hfail, h⟩ := bind_eq_ok_iff.mp h
    cases h
    obtain ⟨-, hto, hrevises, -⟩ := Document.markFailed_spec (liftDomain_eq_ok_iff.mp hfail)
    right
    use document', rfl, hprocessing, hto, hrevises
  · rename_i hprocessing
    cases h
    apply Or.inl ⟨hprocessing, rfl⟩

/-- `_mark_failed` fails a running job. -/
theorem failJob_spec {clock : Clock} {failureCode : Text} {job : IngestionJob}
    {result : Option IngestionJob} (h : failJob clock failureCode (some job) = .ok result) :
  (job.status ≠ .running ∧ result = none)
    ∨ ∃ job', result = some job' ∧ job.status = .running
      ∧ job'.status = .failed ∧ job'.Revises job ∧ job'.attemptCount = job.attemptCount
  := by
  simp only [failJob] at h
  split at h
  · rename_i hrunning
    obtain ⟨job', hfail, h⟩ := bind_eq_ok_iff.mp h
    cases h
    obtain ⟨-, hto, hrevises, hcount, -⟩ := IngestionJob.fail_spec (liftDomain_eq_ok_iff.mp hfail)
    right
    use job', rfl, hrunning, hto, hrevises, hcount
  · rename_i hrunning
    cases h
    apply Or.inl ⟨hrunning, rfl⟩

/-- `_failure_code`. -/
def failureCode : AppError → Text
  | .ingestion code _ => code.value.toList
  | .embedding _ => "embedding_failed".toList
  | .vectorIndex _ => "vector_index_failed".toList
  | _ => "ingestion_failed".toList

/-! ### The transactions -/

/-- `_start_job`. -/
def startJob (clock : Clock) (jobId : Uuid) (db : Database) :
    Except AppError (Option Uuid × Database) :=
  match db.getJob jobId with
  | none => .error (.jobNotFound jobId)
  | some job =>
      match db.getDocument job.documentId with
      | none => .error (.documentNotFound job.documentId)
      | some document => do
          match ← startRows clock job document with
          | none => .ok (none, db)
          | some (document, job) => do
              let db ← db.saveDocument document
              let db ← db.saveJob job
              .ok (some document.id, db)

/-- The finalising transaction of `process`. The deletes and inserts of chunks reach the
database after the transitions, when the session is flushed. -/
def finalise (clock : Clock) (documentId jobId : Uuid) (chunks : List Chunk) (db : Database) :
    Except AppError Database :=
  match db.getDocument documentId, db.getJob jobId with
  | none, _ => .error (.documentNotFound documentId)
  | some _, none => .error (.jobNotFound jobId)
  | some document, some job => do
      let (document, job) ← finaliseRows clock job document
      let db ← (db.deleteChunksForDocument documentId).addChunks chunks
      let db ← db.saveDocument document
      let db ← db.saveJob job
      .ok db.incrementRevision

/-- Saving a document if there is one to save. -/
def Database.saveDocument? (db : Database) : Option Document → Except AppError Database
  | none => .ok db
  | some document => db.saveDocument document

/-- Saving a job if there is one to save. -/
def Database.saveJob? (db : Database) : Option IngestionJob → Except AppError Database
  | none => .ok db
  | some job => db.saveJob job

/-- `_mark_failed`. -/
def markFailed (clock : Clock) (documentId jobId : Uuid) (failureCode : Text) (db : Database) :
    Except AppError Database := do
  let document ← failDocument clock failureCode (db.getDocument documentId)
  let db' ← db.saveDocument? document
  let job ← failJob clock failureCode (db.getJob jobId)
  db'.saveJob? job

/-! ### The steps of a call -/

/-- What a call knows once `_start_job` has returned. -/
structure Attempt where
  jobId : Uuid
  documentId : Uuid
  deriving DecidableEq

/-- Where a call of `process` stands. -/
inductive Delivery where
  | idle
  | started (attempt : Attempt)
  | loaded (attempt : Attempt) (document : Document)
  | prepared (attempt : Attempt) (document : Document) (chunks : List Chunk)
  | embedded (attempt : Attempt) (document : Document) (chunks : List Chunk)
      (vectors : List Vector)
  | ensured (attempt : Attempt) (document : Document) (chunks : List Chunk)
      (vectors : List Vector)
  | upserted (attempt : Attempt) (chunks : List Chunk)
  | failing (attempt : Attempt) (error : AppError)
  | cleaning (attempt : Attempt) (error : AppError)
  | returned
  | raised (error : AppError)
  | died
  deriving DecidableEq

/-- The attempt of a call past `_start_job`. -/
def Delivery.attempt : Delivery → Option Attempt
  | started a | loaded a _ | prepared a _ _ | embedded a _ _ _ | ensured a _ _ _
  | upserted a _ | failing a _ | cleaning a _ => some a
  | idle | returned | raised _ | died => none

/-- A call past `_start_job` that has committed neither its final transaction nor its failure
transaction. -/
def Delivery.running : Delivery → Option Attempt
  | cleaning _ _ => none
  | delivery => delivery.attempt

theorem Delivery.attempt_of_running {delivery : Delivery} {a : Attempt}
    (h : delivery.running = some a) :
  delivery.attempt = some a
  := by
  cases delivery <;> first | exact h | cases h

/-- A step of a call with what it does not determine itself: the clock, the error it raises,
and the points an unsuccessful call of the vector index reached. -/
inductive DeliveryEvent where
  | start (jobId : Uuid) (clock : Clock) (fault : Option AppError)
  | load (fault : Option AppError)
  | prepare (fault : Option AppError)
  | embed (fault : Option AppError)
  | ensure (fault : Option AppError)
  | upsert (fault : Option (AppError × (Uuid → Bool)))
  | finalise (clock : Clock) (fault : Option AppError)
  | markFailed (clock : Clock) (fault : Option AppError)
  | cleanup (fault : Option (AppError × (Uuid → Bool)))
  | crash

/-- The event begins a call. -/
def DeliveryEvent.IsStart : DeliveryEvent → Prop
  | start _ _ _ => True
  | _ => False

/-- The error a call raises after its cleanup: `suppress` hides errors of the vector index. -/
def cleanupError (error : AppError) : AppError → AppError
  | .vectorIndex _ => error
  | other => other

/-- The chunks of a document from its stored bytes. -/
def prepareStored (S : Services) (s : Stores) (document : Document) :
    Except AppError (List Chunk) := do
  let content ← s.fs.read S.root document.storageKey
  S.prepare document.id document.mediaType content

/-- A step of `process`. -/
def Delivery.step (S : Services) (s : Stores) : Delivery → DeliveryEvent → Option (Stores × Delivery)
  | delivery, .start jobId clock fault =>
      if delivery.attempt.isSome then none
      else
        match transaction fault (startJob clock jobId s.db) with
        | .error e => some (s, .raised e)
        | .ok (none, db) => some ({ s with db }, .returned)
        | .ok (some documentId, db) => some ({ s with db }, .started ⟨jobId, documentId⟩)
  | .started a, .load fault =>
      match transaction fault (.ok (s.db.getDocument a.documentId)) with
      | .error e => some (s, .failing a e)
      | .ok none => some (s, .failing a (.documentNotFound a.documentId))
      | .ok (some document) => some (s, .loaded a document)
  | .loaded a document, .prepare fault =>
      match transaction fault (prepareStored S s document) with
      | .error e => some (s, .failing a e)
      | .ok chunks => some (s, .prepared a document chunks)
  | .prepared a document chunks, .embed fault =>
      match fault with
      | some e => some (s, .failing a e)
      | none =>
          some (s, .embedded a document chunks
            (S.embedDocuments (chunks.map fun chunk => chunk.text)))
  | .embedded a document chunks vectors, .ensure fault =>
      match fault with
      | some e => some (s, .failing a e)
      | none => some (s, .ensured a document chunks vectors)
  | .ensured a document chunks vectors, .upsert fault =>
      match fault, s.index.upsert document chunks vectors fun id => fault.all fun f => f.2 id with
      | _, .error e => some (s, .failing a e)
      | some f, .ok index => some ({ s with index }, .failing a f.1)
      | none, .ok index => some ({ s with index }, .upserted a chunks)
  | .upserted a chunks, .finalise clock fault =>
      match transaction fault (KnowledgeSearch.finalise clock a.documentId a.jobId chunks s.db) with
      | .error e => some (s, .failing a e)
      | .ok db => some ({ s with db }, .returned)
  | .failing a error, .markFailed clock fault =>
      match transaction fault
          (KnowledgeSearch.markFailed clock a.documentId a.jobId (failureCode error) s.db) with
      | .error e => some (s, .raised e)
      | .ok db => some ({ s with db }, .cleaning a error)
  | .cleaning a error, .cleanup fault =>
      match fault with
      | some f =>
          some ({ s with index := s.index.deleteDocument a.documentId f.2 },
            .raised (cleanupError error f.1))
      | none =>
          some ({ s with index := s.index.deleteDocument a.documentId fun _ => true },
            .raised error)
  | delivery, .crash => if delivery.attempt.isSome then some (s, .died) else none
  | _, _ => none

end KnowledgeSearch

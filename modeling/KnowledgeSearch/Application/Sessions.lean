import KnowledgeSearch.Application.Documents
import KnowledgeSearch.Application.Ingestion

/-!
# Transactions statement by statement

Under the isolation level READ COMMITTED, which `PostgresSessionFactory` leaves in force, each
statement of a transaction reads the rows that are committed when it is executed, and takes no
lock on them. What the transaction saves is written at its commit, by primary key, whatever has
become of the rows in between.

A `Session` is one of the transactions of `process` and `delete` that read rows and then save
some, `Session.read` its next statement, and `Reads` what its statements have read so far.
`startJobFrom`, `finaliseFrom`, `markFailedFrom`, `markDeletingFrom` and `deleteDocumentFrom` are
their commits. When the reads are those of the database the transaction commits to, they are the
transactions of the modules on ingestion and on documents.
-/

namespace KnowledgeSearch

/-! ### What a transaction reads -/

/-- A transaction that reads rows and saves some. -/
inductive Session where
  | startJob (jobId : Uuid)
  | finalise (documentId jobId : Uuid)
  | markFailed (documentId jobId : Uuid)
  | markDeleting (documentId : Uuid)
  | deleteDocument (documentId : Uuid)
  deriving DecidableEq

/-- What the statements of a transaction have read: their number, the rows, and the identifiers
of the chunks and of the jobs of the document. -/
structure Reads where
  statements : ℕ
  document : Option Document
  job : Option IngestionJob
  chunkIds : List Uuid
  jobIds : List Uuid
  deriving DecidableEq

/-- Nothing has been read. -/
def Reads.none : Reads where
  statements := 0
  document := .none
  job := .none
  chunkIds := []
  jobIds := []

namespace Session

/-- The number of the statements that read. -/
def statements : Session → ℕ
  | startJob _ => 2
  | finalise _ _ => 3
  | markFailed _ _ => 2
  | markDeleting _ => 2
  | deleteDocument _ => 1

/-- The next statement of a transaction. -/
def read (db : Database) (session : Session) (reads : Reads) : Option Reads :=
  match session, reads.statements with
  | startJob jobId, 0 => some { reads with statements := 1, job := db.getJob jobId }
  | startJob _, 1 =>
      some { reads with
        statements := 2, document := reads.job.bind fun job => db.getDocument job.documentId }
  | finalise documentId _, 0 | markFailed documentId _, 0 | markDeleting documentId, 0
  | deleteDocument documentId, 0 =>
      some { reads with statements := 1, document := db.getDocument documentId }
  | finalise _ jobId, 1 | markFailed _ jobId, 1 =>
      some { reads with statements := 2, job := db.getJob jobId }
  | finalise documentId _, 2 =>
      some { reads with
        statements := 3
        chunkIds := (db.chunksForDocument documentId).map fun chunk => chunk.id }
  | markDeleting documentId, 1 =>
      some { reads with
        statements := 2
        jobIds := (db.jobsForDocument documentId).map fun job => job.id }
  | _, _ => .none

/-- What the statements of a transaction read that find the same database. -/
def readAll (db : Database) : Session → Reads
  | startJob jobId =>
      { Reads.none with
        statements := 2
        job := db.getJob jobId
        document := (db.getJob jobId).bind fun job => db.getDocument job.documentId }
  | finalise documentId jobId =>
      { Reads.none with
        statements := 3
        document := db.getDocument documentId
        job := db.getJob jobId
        chunkIds := (db.chunksForDocument documentId).map fun chunk => chunk.id }
  | markFailed documentId jobId =>
      { Reads.none with
        statements := 2, document := db.getDocument documentId, job := db.getJob jobId }
  | markDeleting documentId =>
      { Reads.none with
        statements := 2
        document := db.getDocument documentId
        jobIds := (db.jobsForDocument documentId).map fun job => job.id }
  | deleteDocument documentId =>
      { Reads.none with statements := 1, document := db.getDocument documentId }

/-- The first statements of a transaction, executed one after the other on the same database. -/
def readFirst (db : Database) (session : Session) : ℕ → Option Reads
  | 0 => some .none
  | n + 1 => (session.readFirst db n).bind (session.read db)

/-- The statements of a transaction, executed without interruption, read `readAll`. -/
theorem readFirst_statements (db : Database) (session : Session) :
  session.readFirst db session.statements = some (session.readAll db)
  := by cases session <;> rfl

/-- The rows a transaction has read are such that it goes on to save some, or to delete what the
rows refer to. -/
def acts (reads : Reads) : Session → Bool
  | startJob _ =>
      reads.job.any fun job =>
        reads.document.any fun document =>
          (job.status = .queued && document.status = .queued)
            || (job.status = .failed && document.status = .failed)
  | markDeleting _ =>
      reads.document.any fun document =>
        document.status ∈ [DocumentStatus.ready, .failed, .deleting]
  | finalise _ _ | markFailed _ _ | deleteDocument _ => true

end Session

/-! ### What a transaction commits -/

/-- Deleting chunks by their identifiers. -/
def Database.deleteChunks (db : Database) (ids : List Uuid) : Database :=
  { db with chunks := db.chunks.discard fun chunk => ids.any fun id => id = chunk.id }

/-- The commit of `_start_job`. -/
def startJobFrom (clock : Clock) (jobId : Uuid) (reads : Reads) (db : Database) :
    Except AppError (Option Uuid × Database) :=
  match reads.job, reads.document with
  | none, _ => .error (.jobNotFound jobId)
  | some job, none => .error (.documentNotFound job.documentId)
  | some job, some document => do
      match ← startRows clock job document with
      | none => .ok (none, db)
      | some (document, job) => do
          let db ← db.saveDocument document
          let db ← db.saveJob job
          .ok (some document.id, db)

/-- The commit of the finalising transaction. It deletes the chunks it has read. -/
def finaliseFrom (clock : Clock) (documentId jobId : Uuid) (chunks : List Chunk) (reads : Reads)
    (db : Database) : Except AppError Database :=
  match reads.document, reads.job with
  | none, _ => .error (.documentNotFound documentId)
  | some _, none => .error (.jobNotFound jobId)
  | some document, some job => do
      let (document, job) ← finaliseRows clock job document
      let db ← (db.deleteChunks reads.chunkIds).addChunks chunks
      let db ← db.saveDocument document
      let db ← db.saveJob job
      .ok db.incrementRevision

/-- The commit of `_mark_failed`. -/
def markFailedFrom (clock : Clock) (failureCode : Text) (reads : Reads) (db : Database) :
    Except AppError Database := do
  let document ← failDocument clock failureCode reads.document
  let db' ← db.saveDocument? document
  let job ← failJob clock failureCode reads.job
  db'.saveJob? job

/-- The commit of the first transaction of `delete`. The corpus revision is read under a lock, so
that its increment is one of the committed value. -/
def markDeletingFrom (clock : Clock) (documentId : Uuid) (reads : Reads) (db : Database) :
    Except AppError ((Document × List Uuid) × Database) :=
  match reads.document with
  | none => .error (.documentNotFound documentId)
  | some document => do
      match ← markRows clock document with
      | none => .ok ((document, reads.jobIds), db)
      | some document => do
          let db ← db.saveDocument document
          .ok ((document, reads.jobIds), db.incrementRevision)

/-- The commit of the last transaction of `delete`. -/
def deleteDocumentFrom (documentId : Uuid) (reads : Reads) (db : Database) : Database :=
  match reads.document with
  | none => db
  | some _ => db.deleteDocument documentId

/-- `_start_job` saves rows only if they are those of a queued or failed job and its document. -/
theorem startJobFrom_eq_ok {clock : Clock} {jobId : Uuid} {reads : Reads} {db db' : Database}
    {result : Option Uuid} (h : startJobFrom clock jobId reads db = .ok (result, db')) :
  (result = none ∧ db' = db) ∨ (Session.startJob jobId).acts reads = true
  := by
  unfold startJobFrom at h
  split at h
  · cases h
  · cases h
  rename_i job document hjob hdocument
  obtain ⟨rows, hrows, h⟩ := bind_eq_ok_iff.mp h
  rcases startRows_spec hrows with ⟨rfl, -⟩ | ⟨document', job', rfl, hstatuses, -⟩
  · cases h
    apply Or.inl ⟨rfl, rfl⟩
  · right
    simpa [Session.acts, hjob, hdocument] using hstatuses

/-- The first transaction of `delete` returns only if the document is ready, failed or being
deleted. -/
theorem markDeletingFrom_eq_ok {clock : Clock} {documentId : Uuid} {reads : Reads} {db : Database}
    {result : (Document × List Uuid) × Database}
    (h : markDeletingFrom clock documentId reads db = .ok result) :
  (Session.markDeleting documentId).acts reads = true
  := by
  unfold markDeletingFrom at h
  split at h
  · cases h
  rename_i document hdocument
  obtain ⟨row, hrow, -⟩ := bind_eq_ok_iff.mp h
  simp only [Session.acts, hdocument, Option.any_some, decide_eq_true_eq]
  rcases markRows_spec hrow with ⟨-, hdeleting⟩ | ⟨_, -, hmarkable, -⟩
  · simp [hdeleting]
  · simp only [List.mem_cons, List.not_mem_nil, or_false] at hmarkable ⊢
    apply hmarkable.imp_right Or.inl

/-! ### Commits to the database that was read -/

open Session

/-- Deleting the chunks of a document by their identifiers deletes the chunks of the document. -/
theorem Database.deleteChunks_chunksForDocument (db : Database) (documentId : Uuid) :
  db.deleteChunks ((db.chunksForDocument documentId).map fun chunk => chunk.id)
    = db.deleteChunksForDocument documentId
  := by
  unfold deleteChunks deleteChunksForDocument
  congr 1
  apply Table.ext_rows
  apply List.filter_congr
  intro chunk hchunk
  congr 1
  rw [Bool.eq_iff_iff]
  simp only [List.any_map, List.any_eq_true, Function.comp_apply, decide_eq_true_eq,
    mem_chunksForDocument]
  constructor
  · rintro ⟨chunk', ⟨hchunk', hid⟩, hkey⟩
    rw [← Table.eq_of_key_eq hchunk' hchunk hkey]
    apply hid
  · intro hid
    use chunk, ⟨hchunk, hid⟩

variable (clock : Clock) (documentId jobId : Uuid) (db : Database)

theorem startJobFrom_readAll :
  startJobFrom clock jobId (readAll db (.startJob jobId)) db = startJob clock jobId db
  := by
  unfold startJob
  cases hjob : db.getJob jobId with
  | none => simp [startJobFrom, readAll, hjob]
  | some job =>
      cases hdocument : db.getDocument job.documentId with
      | none => simp [startJobFrom, readAll, hjob, hdocument]
      | some document =>
          have hreads : readAll db (.startJob jobId)
              = { Reads.none with statements := 2, job := some job, document := some document } := by
            simp [readAll, hjob, hdocument]
          simp only [hreads, hdocument]
          rfl

theorem finaliseFrom_readAll (chunks : List Chunk) :
  finaliseFrom clock documentId jobId chunks (readAll db (.finalise documentId jobId)) db
    = finalise clock documentId jobId chunks db
  := by
  unfold finaliseFrom finalise
  cases hdocument : db.getDocument documentId with
  | none => simp [readAll, hdocument]
  | some document =>
      cases hjob : db.getJob jobId with
      | none => simp [readAll, hdocument, hjob]
      | some job =>
          simp only [readAll, hdocument, hjob, Database.deleteChunks_chunksForDocument]

theorem markFailedFrom_readAll (failureCode : Text) :
  markFailedFrom clock failureCode (readAll db (.markFailed documentId jobId)) db
    = markFailed clock documentId jobId failureCode db
  := rfl

theorem markDeletingFrom_readAll :
  markDeletingFrom clock documentId (readAll db (.markDeleting documentId)) db
    = markDeleting clock documentId db
  := by
  unfold markDeletingFrom markDeleting
  simp only [readAll]
  cases hget : db.getDocument documentId with
  | none => rfl
  | some document =>
      have hid : document.id = documentId := (Table.get_eq_some_iff.mp hget).2
      cases hrows : markRows clock document with
      | error e => simp [hrows, bind, Except.bind]
      | ok result =>
          rcases markRows_spec hrows with ⟨rfl, -⟩ | ⟨document', rfl, -, -, hrevises⟩
          · simp [hrows, hid, bind, Except.bind]
          · cases hsave : db.saveDocument document' with
            | error e => simp [hrows, hsave, bind, Except.bind]
            | ok db' =>
                obtain ⟨-, rfl⟩ := Database.saveDocument_eq_ok_iff.mp hsave
                simp [hrows, hsave, hrevises.id_eq, hid, bind, Except.bind,
                  Database.jobsForDocument, Database.incrementRevision]

theorem deleteDocumentFrom_readAll :
  deleteDocumentFrom documentId (readAll db (.deleteDocument documentId)) db
    = db.deleteDocument documentId
  := by
  unfold deleteDocumentFrom
  simp only [readAll, Database.getDocument]
  cases hget : db.documents.get documentId with
  | none => simp [Database.deleteDocument, hget]
  | some document => rfl

/-! ### The calls -/

/-- The transaction a step of `process` commits, when it is one that reads rows and saves some. -/
def Delivery.session : Delivery → DeliveryEvent → Option Session
  | delivery, .start jobId _ _ => if delivery.attempt.isSome then none else some (.startJob jobId)
  | .upserted a _, .finalise _ _ => some (.finalise a.documentId a.jobId)
  | .failing a _, .markFailed _ _ => some (.markFailed a.documentId a.jobId)
  | _, _ => none

/-- A step of `process` that commits what its transaction has read. -/
def Delivery.commit (s : Stores) (reads : Reads) :
    Delivery → DeliveryEvent → Option (Stores × Delivery)
  | _, .start jobId clock fault =>
      match transaction fault (startJobFrom clock jobId reads s.db) with
      | .error e => some (s, .raised e)
      | .ok (none, db) => some ({ s with db }, .returned)
      | .ok (some documentId, db) => some ({ s with db }, .started ⟨jobId, documentId⟩)
  | .upserted a chunks, .finalise clock fault =>
      match transaction fault (finaliseFrom clock a.documentId a.jobId chunks reads s.db) with
      | .error e => some (s, .failing a e)
      | .ok db => some ({ s with db }, .returned)
  | .failing a error, .markFailed clock fault =>
      match transaction fault (markFailedFrom clock (failureCode error) reads s.db) with
      | .error e => some (s, .raised e)
      | .ok db => some ({ s with db }, .cleaning a error)
  | _, _ => none

/-- The transaction a step of `delete` commits. -/
def Deletion.session : Deletion → DeletionEvent → Option Session
  | deletion, .mark documentId _ _ =>
      if deletion.document.isSome then none else some (.markDeleting documentId)
  | .finishing document, .finish _ => some (.deleteDocument document.id)
  | _, _ => none

/-- A step of `delete` that commits what its transaction has read. -/
def Deletion.commit (s : Stores) (reads : Reads) :
    Deletion → DeletionEvent → Option (Stores × Deletion)
  | _, .mark documentId clock fault =>
      match transaction fault (markDeletingFrom clock documentId reads s.db) with
      | .error e => some (s, .raised e)
      | .ok ((document, jobIds), db) => some ({ s with db }, Deletion.cancelFrom document jobIds)
  | .finishing document, .finish fault =>
      match transaction fault (.ok (deleteDocumentFrom document.id reads s.db)) with
      | .error e => some (s, .raised e)
      | .ok db => some ({ s with db }, .returned document.id)
  | _, _ => none

/-- A commit to the database that was read is a step of `process`. -/
theorem Delivery.commit_readAll {S : Services} {s : Stores} {delivery : Delivery}
    {event : DeliveryEvent} {session : Session} (h : delivery.session event = some session) :
  delivery.commit s (session.readAll s.db) event = delivery.step S s event
  := by
  cases event with
  | start jobId clock fault =>
      simp only [Delivery.session] at h
      split at h
      · cases h
      · rename_i hidle
        cases h
        rw [step, if_neg hidle, ← startJobFrom_readAll]
        rfl
  | finalise clock fault =>
      cases delivery with
      | upserted a chunks =>
          cases h
          rw [step, ← finaliseFrom_readAll]
          rfl
      | _ => cases h
  | markFailed clock fault =>
      cases delivery with
      | failing a error =>
          cases h
          rw [step, ← markFailedFrom_readAll]
          rfl
      | _ => cases h
  | _ => cases h

/-- A commit to the database that was read is a step of `delete`. -/
theorem Deletion.commit_readAll {S : Services} {s : Stores} {deletion : Deletion}
    {event : DeletionEvent} {session : Session} (h : deletion.session event = some session) :
  deletion.commit s (session.readAll s.db) event = deletion.step S s event
  := by
  cases event with
  | mark documentId clock fault =>
      simp only [Deletion.session] at h
      split at h
      · cases h
      · rename_i hidle
        cases h
        rw [step, if_neg hidle, ← markDeletingFrom_readAll]
        rfl
  | finish fault =>
      cases deletion with
      | finishing document =>
          cases h
          rw [step, ← deleteDocumentFrom_readAll]
          rfl
      | _ => cases h
  | _ => cases h

end KnowledgeSearch

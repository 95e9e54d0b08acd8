import KnowledgeSearch.Domain.Chunks
import KnowledgeSearch.Errors
import KnowledgeSearch.Foundations.Table
import Mathlib.Data.List.Sort

/-!
# The relational store

`Database` holds the tables of documents, ingestion jobs and chunks and the corpus revision.
The operations are those of the repositories. A transaction is a function of the database
that either raises, and then leaves the database as it was, or returns the new database.

The rows of the tables are values of the domain, since only the repositories write them. A save
replaces a row. How the repositories map values to rows, and when what they save is what they
return, is the subject of `Persistence.Records`.
-/

namespace KnowledgeSearch

/-- The tables of the relational store and the corpus revision. -/
structure Database where
  documents : Table fun document : Document => document.id
  jobs : Table fun job : IngestionJob => job.id
  chunks : Table fun chunk : Chunk => chunk.id
  revision : ℕ

namespace Database

/-- The store after the migrations. -/
def initial : Database where
  documents := .empty
  jobs := .empty
  chunks := .empty
  revision := 0

/-! ### Documents -/

def getDocument (db : Database) (id : Uuid) : Option Document :=
  db.documents.get id

def getDocumentByHash (db : Database) (sha256 : Text) : Option Document :=
  db.documents.rows.find? fun document => document.sha256 = sha256

/-- Adding a document violates a constraint when its identifier, its storage key or its
content hash is taken. -/
def addDocument (db : Database) (document : Document) : Except AppError Database :=
  if db.documents.rows.any fun row =>
      row.storageKey = document.storageKey || row.sha256 = document.sha256 then
    .error .integrity
  else
    match db.documents.insert? document with
    | none => .error .integrity
    | some documents => .ok { db with documents }

/-- `SqlAlchemyDocumentRepository.save` for a document that its columns keep, when it has another
`updated_at` than its row, or is as it was. Otherwise the database would set `updated_at`; what its save is
then, with the limits of the columns, is said of the records, and `saveDocument_stores` is the link. -/
def saveDocument (db : Database) (document : Document) : Except AppError Database :=
  match db.documents.get document.id with
  | none => .error (.lookup "document does not exist")
  | some _ => .ok { db with documents := db.documents.replace document }

/-- Deleting a document deletes its chunks and its jobs. -/
def deleteDocument (db : Database) (id : Uuid) : Database :=
  match db.documents.get id with
  | none => db
  | some _ =>
      { db with
        documents := db.documents.erase id
        jobs := db.jobs.discard fun job => job.documentId = id
        chunks := db.chunks.discard fun chunk => chunk.documentId = id }

/-! ### Jobs -/

def getJob (db : Database) (id : Uuid) : Option IngestionJob :=
  db.jobs.get id

/-- The jobs of a document, by creation time and identifier. -/
def jobsForDocument (db : Database) (documentId : Uuid) : List IngestionJob :=
  (db.jobs.rows.filter fun job => job.documentId = documentId).insertionSort fun a b =>
    a.createdAt < b.createdAt ∨ (a.createdAt = b.createdAt ∧ a.id ≤ b.id)

/-- Adding a job violates a constraint when its identifier is taken or its document is
missing. -/
def addJob (db : Database) (job : IngestionJob) : Except AppError Database :=
  match db.documents.get job.documentId, db.jobs.insert? job with
  | some _, some jobs => .ok { db with jobs }
  | _, _ => .error .integrity

/-- `SqlAlchemyIngestionJobRepository.save`, with the same provisos, and `saveJob_stores`. -/
def saveJob (db : Database) (job : IngestionJob) : Except AppError Database :=
  match db.jobs.get job.id with
  | none => .error (.lookup "ingestion job does not exist")
  | some _ => .ok { db with jobs := db.jobs.replace job }

/-! ### Chunks -/

/-- A text PostgreSQL cannot store. -/
def rejectsText (text : Text) : Bool :=
  text.contains '\x00'

/-- The chunks of a document. -/
def chunksForDocument (db : Database) (documentId : Uuid) : List Chunk :=
  db.chunks.rows.filter fun chunk => chunk.documentId = documentId

def deleteChunksForDocument (db : Database) (documentId : Uuid) : Database :=
  { db with chunks := db.chunks.discard fun chunk => chunk.documentId = documentId }

/-- Adding chunks fails when one of their texts cannot be stored, and violates a constraint
when the document of one is missing, when an identifier is taken, or when two chunks of a
document have the same ordinal. -/
def addChunks (db : Database) (chunks : List Chunk) : Except AppError Database :=
  if chunks.any fun chunk => rejectsText chunk.text || chunk.locator.sectionPath.any rejectsText then
    .error .database
  else if chunks.any fun chunk => (db.documents.get chunk.documentId).isNone then
    .error .integrity
  else if ((db.chunks.rows ++ chunks).map fun chunk => (chunk.documentId, chunk.ordinal)).Nodup then
    match db.chunks.insertAll? chunks with
    | none => .error .integrity
    | some rows => .ok { db with chunks := rows }
  else .error .integrity

/-! ### The corpus revision -/

def incrementRevision (db : Database) : Database :=
  { db with revision := db.revision + 1 }

/-! ### What the operations do -/

theorem addDocument_eq_ok {db db' : Database} {document : Document}
    (h : db.addDocument document = .ok db') :
  ∃ documents, db.documents.insert? document = some documents ∧ db' = { db with documents }
  := by
  unfold addDocument at h
  split at h
  · cases h
  · split at h
    · cases h
    · rename_i documents hdocuments
      cases h
      use documents

theorem saveDocument_eq_ok_iff {db db' : Database} {document : Document} :
  db.saveDocument document = .ok db'
    ↔ (∃ row, db.documents.get document.id = some row)
      ∧ db' = { db with documents := db.documents.replace document }
  := by
  unfold saveDocument
  cases db.documents.get document.id with
  | none => simp
  | some row => simp [eq_comm]

theorem saveDocument_eq_error {db : Database} {document : Document} {e : AppError}
    (h : db.saveDocument document = .error e) :
  e = .lookup "document does not exist"
  := by
  unfold saveDocument at h
  split at h
  · apply (Except.error.inj h).symm
  · cases h

theorem saveJob_eq_error {db : Database} {job : IngestionJob} {e : AppError}
    (h : db.saveJob job = .error e) :
  e = .lookup "ingestion job does not exist"
  := by
  unfold saveJob at h
  split at h
  · apply (Except.error.inj h).symm
  · cases h

theorem addJob_eq_ok {db db' : Database} {job : IngestionJob} (h : db.addJob job = .ok db') :
  (∃ document, db.documents.get job.documentId = some document)
    ∧ ∃ jobs, db.jobs.insert? job = some jobs ∧ db' = { db with jobs }
  := by
  unfold addJob at h
  split at h
  · rename_i document jobs hdocument hjobs
    cases h
    use ⟨document, hdocument⟩, jobs
  · cases h

theorem saveJob_eq_ok_iff {db db' : Database} {job : IngestionJob} :
  db.saveJob job = .ok db'
    ↔ (∃ row, db.jobs.get job.id = some row) ∧ db' = { db with jobs := db.jobs.replace job }
  := by
  unfold saveJob
  cases db.jobs.get job.id with
  | none => simp
  | some row => simp [eq_comm]

theorem addChunks_eq_ok {db db' : Database} {chunks : List Chunk}
    (h : db.addChunks chunks = .ok db') :
  (∀ chunk ∈ chunks, ∃ document, db.documents.get chunk.documentId = some document)
    ∧ ∃ rows, db.chunks.insertAll? chunks = some rows ∧ db' = { db with chunks := rows }
  := by
  unfold addChunks at h
  split at h
  · cases h
  · split at h
    · cases h
    · rename_i hdocuments
      split at h
      · split at h
        · cases h
        · rename_i rows hrows
          cases h
          constructor
          · intro chunk hchunk
            apply Option.ne_none_iff_exists'.mp
            intro hnone
            apply hdocuments
            apply List.any_eq_true.mpr
            use chunk, hchunk
            simp [hnone]
          · use rows
      · cases h

theorem mem_chunksForDocument {db : Database} {documentId : Uuid} {chunk : Chunk} :
  chunk ∈ db.chunksForDocument documentId ↔ chunk ∈ db.chunks ∧ chunk.documentId = documentId
  := by
  simp [chunksForDocument, Table.mem_def]

end Database

end KnowledgeSearch

import KnowledgeSearch.Application.Stores

/-!
# Submission and deletion

`DocumentSubmissionService.submit` and `DocumentDeletionService.delete` as sequences of
steps, each a transaction or a call of one of the other stores.

The identifiers a submission generates are drawn when it starts, together with the media
type and the content of the upload; they make its `Ticket`.
-/

namespace KnowledgeSearch

/-! ### Validation -/

/-- `_validate_filename`. -/
def validateFilename (filename : Text) : Except AppError Text :=
  if filename.isEmpty || 255 < filename.length || filename ≠ strip filename
      || filename.contains '/' || filename.contains (Char.ofNat 92)
      || filename.any (fun c => c.toNat < 32) then
    .error (.ingestion .invalidFilename "Document filename is invalid.")
  else .ok filename

/-- A valid name is taken as it stands. -/
theorem validateFilename_eq_ok {filename safeFilename : Text}
    (h : validateFilename filename = .ok safeFilename) :
  filename = safeFilename
  := by
  unfold validateFilename at h
  split at h
  · cases h
  · apply Except.ok.inj h

/-- The lower case of a character, for comparison with texts of ASCII characters: beside the
ASCII capitals only the Kelvin sign has an ASCII letter as its lower case. -/
def lowerChar (c : Char) : Char :=
  if c.toNat = 0x212a then 'k' else c.toLower

/-- The lower case of a text, for comparison with texts of ASCII characters. -/
def lower (s : Text) : Text :=
  s.map lowerChar

/-- `DocumentMediaType(value)`. -/
def mediaTypeOfValue (value : Text) : Option DocumentMediaType :=
  if value = "application/pdf".toList then some .pdf
  else if value = "text/markdown".toList then some .markdown
  else if value = "text/plain".toList then some .text
  else none

/-- `PurePath(filename).suffix`, for a name without separators: the part from the last dot on,
when something comes before and after it. -/
def pathSuffix (filename : Text) : Text :=
  let extension := filename.reverse.takeWhile (· ≠ '.')
  let stem := (filename.reverse.dropWhile (· ≠ '.')).drop 1
  if extension = [] ∨ stem = [] then [] else '.' :: extension.reverse

def allowedExtensions : DocumentMediaType → List Text
  | .pdf => [".pdf".toList]
  | .markdown => [".md".toList, ".markdown".toList]
  | .text => [".txt".toList]

/-- `_validate_media_type`. -/
def validateMediaType (filename : Text) (contentType : Option Text) :
    Except AppError DocumentMediaType :=
  let normalized := lower (strip ((contentType.getD []).takeWhile (· ≠ ';')))
  match mediaTypeOfValue normalized with
  | none =>
      .error (.ingestion .unsupportedMediaType
        "Supported media types are PDF, Markdown, and plain text.")
  | some mediaType =>
      if lower (pathSuffix filename) ∈ allowedExtensions mediaType then .ok mediaType
      else
        .error (.ingestion .mediaTypeMismatch
          "Filename extension does not match the declared media type.")

/-! ### Submission -/

/-- The identifiers a submission generates, with the media type and the bytes it uploads. -/
structure Ticket where
  documentId : Uuid
  jobId : Uuid
  mediaType : DocumentMediaType
  content : Bytes
  deriving DecidableEq

/-- Where a call of `submit` stands. -/
inductive Submission where
  | idle
  | accepted (ticket : Ticket) (filename : Text) (source : List Bytes)
  | saved (ticket : Ticket) (filename : Text) (stored : StoredDocument)
  | built (document : Document) (job : IngestionJob)
  | conflicted (document : Document) (job : IngestionJob)
  | lookingUp (document : Document) (job : IngestionJob)
  | compensating (document : Document) (job : IngestionJob) (error : AppError)
  | inserted (document : Document) (job : IngestionJob)
  | undelivered (document : Document) (job : IngestionJob) (message : String)
  | returned (document : Document) (job : IngestionJob)
  | raised (error : AppError)
  | died
  deriving DecidableEq

/-- The identifiers of the document and of the job of a call that is under way. -/
def Submission.ids : Submission → Option (Uuid × Uuid)
  | accepted t _ _ | saved t _ _ => some (t.documentId, t.jobId)
  | built d j | conflicted d j | lookingUp d j | compensating d j _ | inserted d j
  | undelivered d j _ => some (d.id, j.id)
  | idle | returned _ _ | raised _ | died => none

/-- What a call of the queue does. -/
inductive EnqueueOutcome where
  | accepted
  | rejected (message : String) (delivered : Bool)
  | raised (error : AppError) (delivered : Bool)
  deriving DecidableEq

/-- A step of a call with what it does not determine itself. -/
inductive SubmissionEvent where
  | begin (filename : Text) (contentType : Option Text) (source : List Bytes)
      (documentId jobId : Uuid)
  | save (fault : Option SaveFault)
  | build (clock : Clock)
  | insert (fault : Option AppError)
  | removeFile (fault : Option AppError)
  | lookUp (fault : Option AppError)
  | enqueue (outcome : EnqueueOutcome)
  | markDispatchFailed (clock : Clock) (fault : Option AppError)
  | crash

/-- The document and the job `submit` constructs once the file is stored. -/
def buildSubmission (clock : Clock) (ticket : Ticket) (filename : Text) (stored : StoredDocument) :
    Except AppError (Document × IngestionJob) := do
  let document ← liftDomain (Document.create ticket.documentId filename stored.storageKey
    ticket.mediaType stored.sha256 stored.sizeBytes (clock 0))
  let document ← liftDomain (document.queue (clock 1))
  let job ← liftDomain (IngestionJob.create document.id ticket.jobId (clock 2))
  .ok (document, job)

/-- The transaction of `submit` that inserts the document and the job. -/
def insertSubmission (document : Document) (job : IngestionJob) (db : Database) :
    Except AppError Database :=
  match db.getDocumentByHash document.sha256 with
  | some existing => .error (.duplicateDocument existing.id)
  | none => do
      let db ← db.addDocument document
      db.addJob job

/-- `_mark_dispatch_failed`. -/
def markDispatchFailed (clock : Clock) (documentId jobId : Uuid) (db : Database) :
    Except AppError Database :=
  match db.getDocument documentId, db.getJob jobId with
  | some document, some job => do
      let document ← liftDomain (document.markFailed "queue_unavailable".toList (clock 0))
      let db ← db.saveDocument document
      let job ← liftDomain (job.fail "queue_unavailable".toList (clock 1))
      db.saveJob job
  | _, _ => .ok db

/-- The queue after a call that may have delivered the message. -/
def Stores.deliver (s : Stores) (delivered : Bool) (jobId : Uuid) : Stores :=
  if delivered then { s with queue := s.queue ++ [jobId] } else s

/-- A step of `submit`. -/
def Submission.step (S : Services) (s : Stores) :
    Submission → SubmissionEvent → Option (Stores × Submission)
  | submission, .begin filename contentType source documentId jobId =>
      if submission.ids.isSome then none
      else
        match validateFilename filename with
        | .error e => some (s, .raised e)
        | .ok safeFilename =>
            match validateMediaType safeFilename contentType with
            | .error e => some (s, .raised e)
            | .ok mediaType =>
                some (s, .accepted ⟨documentId, jobId, mediaType, sourceBytes source⟩
                  safeFilename source)
  | .accepted t filename source, .save fault =>
      match s.fs.save S.root S.sha256 t.documentId t.mediaType source S.maxUploadBytes fault with
      | (fs, .error e) => some ({ s with fs }, .raised e)
      | (fs, .ok stored) => some ({ s with fs }, .saved t filename stored)
  | .saved t filename stored, .build clock =>
      match buildSubmission clock t filename stored with
      | .error e => some (s, .raised e)
      | .ok (document, job) => some (s, .built document job)
  | .built document job, .insert fault =>
      match transaction fault (insertSubmission document job s.db) with
      | .error .integrity => some (s, .conflicted document job)
      | .error e => some (s, .compensating document job e)
      | .ok db => some ({ s with db }, .inserted document job)
  | .conflicted document job, .removeFile fault =>
      match transaction fault (s.fs.delete S.root document.storageKey) with
      | .error e => some (s, .raised e)
      | .ok fs => some ({ s with fs }, .lookingUp document job)
  | .lookingUp document _, .lookUp fault =>
      match transaction fault (.ok (s.db.getDocumentByHash document.sha256)) with
      | .error e => some (s, .raised e)
      | .ok (some existing) => some (s, .raised (.duplicateDocument existing.id))
      | .ok none => some (s, .raised .integrity)
  | .compensating document _ error, .removeFile fault =>
      match transaction fault (s.fs.delete S.root document.storageKey) with
      | .error e => some (s, .raised e)
      | .ok fs => some ({ s with fs }, .raised error)
  | .inserted document job, .enqueue outcome =>
      match outcome with
      | .accepted => some (s.deliver true job.id, .returned document job)
      | .rejected message delivered =>
          some (s.deliver delivered job.id, .undelivered document job message)
      | .raised e delivered => some (s.deliver delivered job.id, .raised e)
  | .undelivered document job message, .markDispatchFailed clock fault =>
      match transaction fault (KnowledgeSearch.markDispatchFailed clock document.id job.id s.db) with
      | .error e => some (s, .raised e)
      | .ok db =>
          some ({ s with db }, .raised (.queueDispatch message (some document.id) (some job.id)))
  | submission, .crash => if submission.ids.isSome then some (s, .died) else none
  | _, _ => none

/-! ### Deletion -/

/-- What the first transaction of `delete` does with the row it read: the row it saves, if it
marks the document. -/
def markRows (clock : Clock) (document : Document) : Except AppError (Option Document) :=
  if document.status = .deleting then .ok none
  else if document.status ∉ [.ready, .failed] then
    .error (.deletionConflict document.id document.status)
  else do
    let document ← liftDomain (document.markDeleting (clock 0))
    .ok (some document)

/-- The first transaction of `delete` leaves the row of a document that is being deleted, and
marks that of a ready or failed one. -/
theorem markRows_spec {clock : Clock} {document : Document} {result : Option Document}
    (h : markRows clock document = .ok result) :
  (result = none ∧ document.status = .deleting)
    ∨ ∃ document', result = some document' ∧ document.status ∈ [DocumentStatus.ready, .failed]
      ∧ document'.status = .deleting ∧ document'.Revises document
  := by
  unfold markRows at h
  split at h
  · rename_i hdeleting
    cases h
    apply Or.inl ⟨rfl, hdeleting⟩
  split at h
  · cases h
  rename_i hmarkable
  obtain ⟨document', hmark, h⟩ := bind_eq_ok_iff.mp h
  cases h
  obtain ⟨-, hto, hrevises⟩ := Document.transition_spec (liftDomain_eq_ok_iff.mp hmark)
  right
  use document', rfl, not_not.mp hmarkable, hto

/-- The first transaction of `delete`: the document, marked, and the identifiers of its
jobs. -/
def markDeleting (clock : Clock) (documentId : Uuid) (db : Database) :
    Except AppError ((Document × List Uuid) × Database) :=
  match db.getDocument documentId with
  | none => .error (.documentNotFound documentId)
  | some document => do
      match ← markRows clock document with
      | none => .ok ((document, (db.jobsForDocument document.id).map fun job => job.id), db)
      | some document => do
          let db ← db.saveDocument document
          let db := db.incrementRevision
          .ok ((document, (db.jobsForDocument document.id).map fun job => job.id), db)

/-- Where a call of `delete` stands. -/
inductive Deletion where
  | idle
  | cancelling (document : Document) (jobIds : List Uuid)
  | clearing (document : Document)
  | removing (document : Document)
  | finishing (document : Document)
  | returned (documentId : Uuid)
  | raised (error : AppError)
  | died
  deriving DecidableEq

/-- The document of a call whose first transaction has committed. -/
def Deletion.document : Deletion → Option Document
  | cancelling d _ | clearing d | removing d | finishing d => some d
  | idle | returned _ | raised _ | died => none

/-- A step of a call with what it does not determine itself. -/
inductive DeletionEvent where
  | mark (documentId : Uuid) (clock : Clock) (fault : Option AppError)
  | cancel (fault : Option AppError)
  | clear (fault : Option (AppError × (Uuid → Bool)))
  | removeFile (fault : Option AppError)
  | finish (fault : Option AppError)
  | crash

/-- The call with the remaining jobs to cancel. -/
def Deletion.cancelFrom (document : Document) : List Uuid → Deletion
  | [] => .clearing document
  | jobId :: jobIds => .cancelling document (jobId :: jobIds)

/-- The error `delete` raises for one of the queue. -/
def cancelError : AppError → AppError
  | .queueDispatch _ _ _ => .cleanup "Queued ingestion cleanup failed."
  | e => e

/-- The error `delete` raises for one of the vector index. -/
def clearError : AppError → AppError
  | .vectorIndex _ => .cleanup "Vector document cleanup failed."
  | e => e

/-- The error `delete` raises for one of the file store. -/
def removeError : AppError → AppError
  | .os => .cleanup "Stored document cleanup failed."
  | e => e

/-- A step of `delete`. -/
def Deletion.step (S : Services) (s : Stores) : Deletion → DeletionEvent → Option (Stores × Deletion)
  | deletion, .mark documentId clock fault =>
      if deletion.document.isSome then none
      else
        match transaction fault (markDeleting clock documentId s.db) with
        | .error e => some (s, .raised e)
        | .ok ((document, jobIds), db) =>
            some ({ s with db }, Deletion.cancelFrom document jobIds)
  | .cancelling document (jobId :: jobIds), .cancel fault =>
      match fault with
      | some e => some (s, .raised (cancelError e))
      | none =>
          some ({ s with queue := s.queue.filter (· ≠ jobId) },
            Deletion.cancelFrom document jobIds)
  | .clearing document, .clear fault =>
      match fault with
      | some f =>
          some ({ s with index := s.index.deleteDocument document.id f.2 },
            .raised (clearError f.1))
      | none =>
          some ({ s with index := s.index.deleteDocument document.id fun _ => true },
            .removing document)
  | .removing document, .removeFile fault =>
      match transaction fault (s.fs.delete S.root document.storageKey) with
      | .error e => some (s, .raised (removeError e))
      | .ok fs => some ({ s with fs }, .finishing document)
  | .finishing document, .finish fault =>
      match transaction fault (.ok (s.db.deleteDocument document.id)) with
      | .error e => some (s, .raised e)
      | .ok db => some ({ s with db }, .returned document.id)
  | deletion, .crash => if deletion.document.isSome then some (s, .died) else none
  | _, _ => none

end KnowledgeSearch

import KnowledgeSearch.Domain.Lifecycles
import KnowledgeSearch.Foundations.Mapper
import KnowledgeSearch.Persistence.Repositories

/-!
# Records

The rows of the tables of documents and of ingestion jobs, and how the repositories map values to
them and back. A save assigns the columns of a row; when one changes, the row is updated, and the
column of the last change is set to the time of the database unless the save changes it.

Timestamps are moments, which is what the columns keep. So the repositories return what was saved
as long as no change is made at the time of the last one, `repositories_return_saved_iff`. Then they are
those of `Database`, by `saveDocument_refines` and `saveDocument_stores` for documents, and by
`saveJob_refines` and `saveJob_stores` for jobs.
-/

namespace KnowledgeSearch

/-! ### Columns -/

/-- The member of an enumeration with a value. -/
def memberOf {α : Type} (name : String) (members : List α) (value : α → String) (s : String) :
    Except AppError α :=
  match members.find? fun member => value member = s with
  | some member => .ok member
  | none => .error (.value ("'" ++ s ++ "' is not a valid " ++ name))

theorem memberOf_eq_ok_iff {α : Type} {name : String} {members : List α} {value : α → String}
    {s : String} {member : α} (hmembers : ∀ member, member ∈ members)
    (hvalue : Function.Injective value) :
  memberOf name members value s = .ok member ↔ s = value member
  := by
  unfold memberOf
  cases hfind : members.find? fun member => value member = s with
  | none =>
      have hne := List.find?_eq_none.mp hfind member (hmembers member)
      simp only [decide_eq_true_eq] at hne
      simp [Ne.symm hne]
  | some found =>
      have hfound := List.find?_some hfind
      simp only [decide_eq_true_eq] at hfound
      rw [Except.ok.injEq, ← hfound, hvalue.eq_iff]

/-- The member of `DocumentMediaType` with a value. -/
def DocumentMediaType.ofValue : String → Except AppError DocumentMediaType :=
  memberOf "DocumentMediaType" [.pdf, .markdown, .text] value

/-- The member of `DocumentStatus` with a value. -/
def DocumentStatus.ofValue : String → Except AppError DocumentStatus :=
  memberOf "DocumentStatus" [.uploaded, .queued, .processing, .ready, .failed, .deleting] value

/-- The member of `IngestionJobStatus` with a value. -/
def IngestionJobStatus.ofValue : String → Except AppError IngestionJobStatus :=
  memberOf "IngestionJobStatus" [.queued, .running, .succeeded, .failed] value

theorem DocumentMediaType.ofValue_eq_ok_iff {s : String} {mediaType : DocumentMediaType} :
  ofValue s = .ok mediaType ↔ s = mediaType.value
  := by
  apply memberOf_eq_ok_iff _ value_injective
  intro member
  cases member <;> decide

theorem DocumentStatus.ofValue_eq_ok_iff {s : String} {status : DocumentStatus} :
  ofValue s = .ok status ↔ s = status.value
  := by
  apply memberOf_eq_ok_iff _ value_injective
  intro member
  cases member <;> decide

theorem IngestionJobStatus.ofValue_eq_ok_iff {s : String} {status : IngestionJobStatus} :
  ofValue s = .ok status ↔ s = status.value
  := by
  apply memberOf_eq_ok_iff _ value_injective
  intro member
  cases member <;> decide

/-- A text in a column of type `String(limit)`: what is beyond the limit is cut off when it is
spaces, and rejected otherwise. -/
def varchar (limit : ℕ) (text : Text) : Except AppError Text :=
  if Database.rejectsText text || (text.drop limit).any (· ≠ ' ') then .error .database
  else .ok (text.take limit)

/-- A value in a column that may be empty. -/
def nullable {α : Type} (column : α → Except AppError α) : Option α → Except AppError (Option α)
  | none => .ok none
  | some a => (column a).map some

/-- A number in a column of `bits` bits. -/
def integer (bits : ℕ) (n : ℤ) : Except AppError ℤ :=
  if -2 ^ (bits - 1) ≤ n ∧ n < 2 ^ (bits - 1) then .ok n else .error .database

/-- A row as its columns keep it, when it meets the constraints. -/
def keep {ρ : Type} (kept : ρ → Except AppError ρ) (accepts : ρ → Bool) (record : ρ) :
    Except AppError ρ := do
  let record ← kept record
  if accepts record then .ok record else .error .integrity

theorem keep_eq_ok_iff {ρ : Type} {kept : ρ → Except AppError ρ} {accepts : ρ → Bool}
    {record record' : ρ} :
  keep kept accepts record = .ok record' ↔ kept record = .ok record' ∧ accepts record' = true
  := by
  rw [keep, bind_eq_ok_iff]
  constructor
  · rintro ⟨r, hkept, h⟩
    split at h
    · rename_i haccepts
      obtain rfl := Except.ok.inj h
      use hkept
    · cases h
  · rintro ⟨hkept, haccepts⟩
    use record', hkept
    rw [if_pos haccepts]

/-- What neither the columns nor the constraints look at is kept as it is. -/
theorem keep_apply {ρ : Type} {kept : ρ → Except AppError ρ} {accepts : ρ → Bool} {f : ρ → ρ}
    (hkept : ∀ record, kept (f record) = (kept record).map f)
    (haccepts : ∀ record, accepts (f record) = accepts record) (record : ρ) :
  keep kept accepts (f record) = (keep kept accepts record).map f
  := by
  unfold keep
  rw [hkept]
  cases kept record with
  | error e => rfl
  | ok r =>
      change (if accepts (f r) = true then Except.ok (f r) else .error AppError.integrity)
        = (if accepts r = true then Except.ok r else .error AppError.integrity).map f
      rw [haccepts, apply_ite (Except.map f)]
      rfl

/-- The constraint that a failure code is there exactly when the status is `failed`. -/
def failureState (status : String) (failureCode : Option Text) : Bool :=
  (status == "failed" && failureCode.isSome) || (status != "failed" && failureCode.isNone)

theorem failureState_iff {status : String} {failureCode : Option Text} :
  failureState status failureCode = true ↔ (failureCode.isSome = true ↔ status = "failed")
  := by
  unfold failureState
  by_cases hstatus : status = "failed"
  · simp [hstatus]
  · simp [hstatus]

/-! ### Documents -/

/-- A row of the table of documents. -/
structure DocumentRecord where
  id : Uuid
  originalFilename : Text
  storageKey : Text
  mediaType : String
  sha256 : Text
  sizeBytes : ℤ
  status : String
  failureCode : Option Text
  createdAt : Timestamp
  updatedAt : Timestamp
  deriving DecidableEq

/-- `_document_to_record`. -/
def documentToRecord (document : Document) : DocumentRecord where
  id := document.id
  originalFilename := document.originalFilename
  storageKey := document.storageKey
  mediaType := document.mediaType.value
  sha256 := document.sha256
  sizeBytes := document.sizeBytes
  status := document.status.value
  failureCode := document.failureCode
  createdAt := document.createdAt
  updatedAt := document.updatedAt

/-- `_record_to_document`. -/
def recordToDocument (record : DocumentRecord) : Except AppError Document := do
  let mediaType ← DocumentMediaType.ofValue record.mediaType
  let status ← DocumentStatus.ofValue record.status
  liftDomain (Document.construct
    { id := record.id
      originalFilename := record.originalFilename
      storageKey := record.storageKey
      mediaType, sha256 := record.sha256
      sizeBytes := record.sizeBytes
      status, createdAt := record.createdAt
      updatedAt := record.updatedAt
      failureCode := record.failureCode })

namespace DocumentRecord

/-- The columns a save assigns. -/
def assign (document : Document) (record : DocumentRecord) : DocumentRecord :=
  { record with
    originalFilename := document.originalFilename
    storageKey := document.storageKey
    mediaType := document.mediaType.value
    sha256 := document.sha256
    sizeBytes := document.sizeBytes
    status := document.status.value
    failureCode := document.failureCode
    updatedAt := document.updatedAt }

/-- The constraints on a row. -/
def checks (record : DocumentRecord) : Bool :=
  ["uploaded", "queued", "processing", "ready", "failed", "deleting"].contains record.status
    && ["application/pdf", "text/markdown", "text/plain"].contains record.mediaType
    && 0 ≤ record.sizeBytes && isSha256 record.sha256
    && failureState record.status record.failureCode

/-- The row as its columns keep it. -/
def kept (record : DocumentRecord) : Except AppError DocumentRecord := do
  let originalFilename ← varchar 255 record.originalFilename
  let storageKey ← varchar 512 record.storageKey
  let sha256 ← varchar 64 record.sha256
  let sizeBytes ← integer 64 record.sizeBytes
  let failureCode ← nullable (varchar 128) record.failureCode
  .ok { record with originalFilename, storageKey, sha256, sizeBytes, failureCode }

/-- Another row has the storage key or the content hash of a row. -/
def taken (rows : Table DocumentRecord.id) (record : DocumentRecord) : Bool :=
  rows.rows.any fun row =>
    row.id ≠ record.id && (row.storageKey = record.storageKey || row.sha256 = record.sha256)

/-- The row as the table keeps it. -/
def store (rows : Table DocumentRecord.id) : DocumentRecord → Except AppError DocumentRecord :=
  keep kept fun record => record.checks && !record.taken rows

/-- The columns and the constraints do not look at the time of the last change. -/
theorem store_updatedAt (rows : Table DocumentRecord.id) (now : Timestamp)
    (record : DocumentRecord) :
  store rows { record with updatedAt := now }
    = (store rows record).map fun record => { record with updatedAt := now }
  := by
  apply keep_apply (f := fun record : DocumentRecord => { record with updatedAt := now })
  · intro record
    change _ = _ <$> kept record
    simp only [kept, map_bind]
    rfl
  · intro record
    rfl

theorem store_spec {rows : Table DocumentRecord.id} {record record' : DocumentRecord}
    (h : store rows record = .ok record') :
  record'.id = record.id ∧ record'.updatedAt = record.updatedAt
  := by
  have hkept := (keep_eq_ok_iff.mp h).1
  simp only [kept, bind_eq_ok_iff] at hkept
  obtain ⟨_, -, _, -, _, -, _, -, _, -, h⟩ := hkept
  rw [← Except.ok.inj h]
  exact ⟨rfl, rfl⟩

end DocumentRecord

theorem recordToDocument_eq_ok_iff {record : DocumentRecord} {document : Document} :
  recordToDocument record = .ok document ↔ record = documentToRecord document
  := by
  unfold recordToDocument
  simp only [bind_eq_ok_iff, DocumentMediaType.ofValue_eq_ok_iff, DocumentStatus.ofValue_eq_ok_iff,
    liftDomain_eq_ok_iff, Document.construct_eq_ok_iff]
  obtain ⟨id, originalFilename, storageKey, mediaType, sha256, sizeBytes, status, failureCode,
    createdAt, updatedAt⟩ := record
  constructor
  · rintro ⟨mediaType, rfl, status, rfl, hfields⟩
    simp [documentToRecord, hfields]
  · intro h
    simp only [documentToRecord, DocumentRecord.mk.injEq] at h
    obtain ⟨rfl, rfl, rfl, hmediaType, rfl, rfl, hstatus, rfl, rfl, rfl⟩ := h
    exact ⟨document.mediaType, hmediaType, document.status, hstatus, rfl⟩

/-- A save assigns all that transitions of a document change. -/
theorem assign_documentToRecord {a b : Document}
    (h : (a.id, a.createdAt) = (b.id, b.createdAt)) :
  DocumentRecord.assign a (documentToRecord b) = documentToRecord a
  := by
  obtain ⟨hid, hcreated⟩ := Prod.mk.inj h
  simp [DocumentRecord.assign, documentToRecord, hid, hcreated]

/-- How documents are kept as rows. -/
def DocumentRecord.mapper :
    Mapper Document DocumentRecord Uuid (Uuid × Timestamp) Timestamp AppError where
  id document := document.id
  key := DocumentRecord.id
  toRecord := documentToRecord
  toValue := recordToDocument
  fixed document := (document.id, document.createdAt)
  assign := DocumentRecord.assign
  column :=
    { get := DocumentRecord.updatedAt
      set now record := { record with updatedAt := now }
      get_set _ _ := rfl
      set_get _ := rfl }
  store := DocumentRecord.store
  missing document :=
    .lookup ("document " ++ String.ofList document.id.text ++ " does not exist")
  duplicate := .integrity
  toValue_eq_ok_iff := recordToDocument_eq_ok_iff
  key_toRecord _ := rfl
  id_eq h := congrArg Prod.fst h
  assign_toRecord := assign_documentToRecord
  key_set _ _ := rfl
  store_set := DocumentRecord.store_updatedAt
  get_of_store h := (DocumentRecord.store_spec h).2
  key_of_store h := (DocumentRecord.store_spec h).1

/-- `SqlAlchemyDocumentRepository`. -/
def SqlAlchemyDocumentRepository.add :=
  DocumentRecord.mapper.add

def SqlAlchemyDocumentRepository.get :=
  DocumentRecord.mapper.get

/-- A save in a transaction that starts when the clock of the database shows `now`. -/
def SqlAlchemyDocumentRepository.save :=
  DocumentRecord.mapper.save

/-- The operations on documents, at their times. -/
def DocumentRecord.changes :
    DocumentRecord.mapper.Change (DocumentOperation × Timestamp) DomainError where
  apply document step := step.1.apply document step.2
  time step := step.2
  fixed_eq h := by
    have hfields := (DocumentOperation.apply_eq_ok_iff.mp h).2
    simp [mapper, hfields]
  stamp_eq h := by
    have hfields := (DocumentOperation.apply_eq_ok_iff.mp h).2
    simp [Mapper.stamp, mapper, documentToRecord, hfields]

/-- The constraints hold of what the constructor accepts. -/
theorem checks_documentToRecord (document : Document) :
  (documentToRecord document).checks = true
  := by
  have hvalid := firstViolation_eq_none_iff.mp document.valid
  simp only [DocumentFields.checks, List.mem_cons, List.not_mem_nil, or_false,
    forall_eq_or_imp, forall_eq, Bool.not_eq_false', decide_eq_false_iff_not, not_lt] at hvalid
  obtain ⟨-, -, hsha, hsize, -⟩ := hvalid
  have hstatus : ["uploaded", "queued", "processing", "ready", "failed", "deleting"].contains
      document.status.value = true := by
    cases document.status <;> decide
  have hmediaType : ["application/pdf", "text/markdown", "text/plain"].contains
      document.mediaType.value = true := by
    cases document.mediaType <;> decide
  have hfailure : failureState document.status.value document.failureCode = true := by
    rw [failureState_iff, document.failureCode_iff]
    apply DocumentStatus.value_injective.eq_iff.symm
  simp only [DocumentRecord.checks, documentToRecord, hstatus, hmediaType, hsize, hsha, hfailure,
    decide_true, Bool.and_self]

/-- The table keeps the record of a document when its columns do and no other row has its storage
key or its content hash. -/
theorem store_documentToRecord {rows : Table DocumentRecord.id} {document : Document}
    (hkept : (documentToRecord document).kept = .ok (documentToRecord document))
    (htaken : (documentToRecord document).taken rows = false) :
  DocumentRecord.store rows (documentToRecord document) = .ok (documentToRecord document)
  := by
  apply keep_eq_ok_iff.mpr
  use hkept
  rw [checks_documentToRecord, htaken]
  rfl

/-! ### Ingestion jobs -/

/-- A row of the table of ingestion jobs. -/
structure IngestionJobRecord where
  id : Uuid
  documentId : Uuid
  status : String
  attemptCount : ℤ
  failureCode : Option Text
  createdAt : Timestamp
  updatedAt : Timestamp
  startedAt : Option Timestamp
  finishedAt : Option Timestamp
  deriving DecidableEq

/-- `_job_to_record`. -/
def jobToRecord (job : IngestionJob) : IngestionJobRecord where
  id := job.id
  documentId := job.documentId
  status := job.status.value
  attemptCount := job.attemptCount
  failureCode := job.failureCode
  createdAt := job.createdAt
  updatedAt := job.updatedAt
  startedAt := job.startedAt
  finishedAt := job.finishedAt

/-- `_record_to_job`. -/
def recordToJob (record : IngestionJobRecord) : Except AppError IngestionJob := do
  let status ← IngestionJobStatus.ofValue record.status
  liftDomain (IngestionJob.construct
    { id := record.id
      documentId := record.documentId
      status, attemptCount := record.attemptCount
      createdAt := record.createdAt
      updatedAt := record.updatedAt
      startedAt := record.startedAt
      finishedAt := record.finishedAt
      failureCode := record.failureCode })

namespace IngestionJobRecord

/-- The columns a save assigns. -/
def assign (job : IngestionJob) (record : IngestionJobRecord) : IngestionJobRecord :=
  { record with
    status := job.status.value
    attemptCount := job.attemptCount
    failureCode := job.failureCode
    updatedAt := job.updatedAt
    startedAt := job.startedAt
    finishedAt := job.finishedAt }

/-- The constraints on a row. -/
def checks (record : IngestionJobRecord) : Bool :=
  ["queued", "running", "succeeded", "failed"].contains record.status
    && 0 ≤ record.attemptCount && failureState record.status record.failureCode

/-- The row as its columns keep it. -/
def kept (record : IngestionJobRecord) : Except AppError IngestionJobRecord := do
  let attemptCount ← integer 32 record.attemptCount
  let failureCode ← nullable (varchar 128) record.failureCode
  .ok { record with attemptCount, failureCode }

/-- The row as the table keeps it. -/
def store (_ : Table IngestionJobRecord.id) :
    IngestionJobRecord → Except AppError IngestionJobRecord :=
  keep kept checks

/-- The columns and the constraints do not look at the time of the last change. -/
theorem store_updatedAt (rows : Table IngestionJobRecord.id) (now : Timestamp)
    (record : IngestionJobRecord) :
  store rows { record with updatedAt := now }
    = (store rows record).map fun record => { record with updatedAt := now }
  := by
  apply keep_apply (f := fun record : IngestionJobRecord => { record with updatedAt := now })
  · intro record
    change _ = _ <$> kept record
    simp only [kept, map_bind]
    rfl
  · intro record
    rfl

theorem store_spec {rows : Table IngestionJobRecord.id} {record record' : IngestionJobRecord}
    (h : store rows record = .ok record') :
  record'.id = record.id ∧ record'.updatedAt = record.updatedAt
  := by
  have hkept := (keep_eq_ok_iff.mp h).1
  simp only [kept, bind_eq_ok_iff] at hkept
  obtain ⟨_, -, _, -, h⟩ := hkept
  rw [← Except.ok.inj h]
  exact ⟨rfl, rfl⟩

end IngestionJobRecord

theorem recordToJob_eq_ok_iff {record : IngestionJobRecord} {job : IngestionJob} :
  recordToJob record = .ok job ↔ record = jobToRecord job
  := by
  unfold recordToJob
  simp only [bind_eq_ok_iff, IngestionJobStatus.ofValue_eq_ok_iff, liftDomain_eq_ok_iff,
    IngestionJob.construct_eq_ok_iff]
  obtain ⟨id, documentId, status, attemptCount, failureCode, createdAt, updatedAt, startedAt,
    finishedAt⟩ := record
  constructor
  · rintro ⟨status, rfl, hfields⟩
    simp [jobToRecord, hfields]
  · intro h
    simp only [jobToRecord, IngestionJobRecord.mk.injEq] at h
    obtain ⟨rfl, rfl, hstatus, rfl, rfl, rfl, rfl, rfl, rfl⟩ := h
    exact ⟨job.status, hstatus, rfl⟩

/-- A save assigns all that transitions of a job change. -/
theorem assign_jobToRecord {a b : IngestionJob}
    (h : (a.id, a.documentId, a.createdAt) = (b.id, b.documentId, b.createdAt)) :
  IngestionJobRecord.assign a (jobToRecord b) = jobToRecord a
  := by
  simp only [Prod.mk.injEq] at h
  obtain ⟨hid, hdocument, hcreated⟩ := h
  simp [IngestionJobRecord.assign, jobToRecord, hid, hdocument, hcreated]

/-- How jobs are kept as rows. -/
def IngestionJobRecord.mapper :
    Mapper IngestionJob IngestionJobRecord Uuid (Uuid × Uuid × Timestamp) Timestamp AppError where
  id job := job.id
  key := IngestionJobRecord.id
  toRecord := jobToRecord
  toValue := recordToJob
  fixed job := (job.id, job.documentId, job.createdAt)
  assign := IngestionJobRecord.assign
  column :=
    { get := IngestionJobRecord.updatedAt
      set now record := { record with updatedAt := now }
      get_set _ _ := rfl
      set_get _ := rfl }
  store := IngestionJobRecord.store
  missing job := .lookup ("ingestion job " ++ String.ofList job.id.text ++ " does not exist")
  duplicate := .integrity
  toValue_eq_ok_iff := recordToJob_eq_ok_iff
  key_toRecord _ := rfl
  id_eq h := congrArg Prod.fst h
  assign_toRecord := assign_jobToRecord
  key_set _ _ := rfl
  store_set := IngestionJobRecord.store_updatedAt
  get_of_store h := (IngestionJobRecord.store_spec h).2
  key_of_store h := (IngestionJobRecord.store_spec h).1

/-- `SqlAlchemyIngestionJobRepository`. -/
def SqlAlchemyIngestionJobRepository.get :=
  IngestionJobRecord.mapper.get

/-- A save in a transaction that starts when the clock of the database shows `now`. -/
def SqlAlchemyIngestionJobRepository.save :=
  IngestionJobRecord.mapper.save

/-- The operations on jobs, at their times. -/
def IngestionJobRecord.changes :
    IngestionJobRecord.mapper.Change (IngestionJobOperation × Timestamp) DomainError where
  apply job step := step.1.apply job step.2
  time step := step.2
  fixed_eq h := by
    have hfields := (IngestionJobOperation.apply_eq_ok_iff.mp h).2
    simp [mapper, hfields]
  stamp_eq h := by
    have hfields := (IngestionJobOperation.apply_eq_ok_iff.mp h).2
    simp [Mapper.stamp, mapper, jobToRecord, hfields]

/-- The constraints hold of what the constructor accepts. -/
theorem checks_jobToRecord (job : IngestionJob) :
  (jobToRecord job).checks = true
  := by
  have hvalid := firstViolation_eq_none_iff.mp job.valid
  simp only [IngestionJobFields.checks, List.mem_cons, List.not_mem_nil, or_false,
    forall_eq_or_imp, forall_eq, decide_eq_false_iff_not, not_lt] at hvalid
  obtain ⟨hcount, -⟩ := hvalid
  have hstatus : ["queued", "running", "succeeded", "failed"].contains job.status.value = true := by
    cases job.status <;> decide
  have hfailure : failureState job.status.value job.failureCode = true := by
    rw [failureState_iff, job.failureCode_iff]
    apply IngestionJobStatus.value_injective.eq_iff.symm
  simp only [IngestionJobRecord.checks, jobToRecord, hstatus, hcount, hfailure, decide_true,
    Bool.and_self]

/-- The table keeps the record of a job when its columns do. -/
theorem store_jobToRecord {rows : Table IngestionJobRecord.id} {job : IngestionJob}
    (hkept : (jobToRecord job).kept = .ok (jobToRecord job)) :
  IngestionJobRecord.store rows (jobToRecord job) = .ok (jobToRecord job)
  := keep_eq_ok_iff.mpr ⟨hkept, checks_jobToRecord job⟩

/-! ### The relational store -/

/-- A document that was added starts a history when the table keeps its record as it is. -/
theorem start_of_add {rows rows' : Table DocumentRecord.id} {document : Document}
    (hkept : (documentToRecord document).kept = .ok (documentToRecord document))
    (htaken : (documentToRecord document).taken rows = false)
    (h : SqlAlchemyDocumentRepository.add rows document = .ok rows') :
  DocumentRecord.changes.history.Start ⟨rows', document, document⟩
  := by
  refine ⟨?_, rfl⟩
  apply (Mapper.get_add_iff h).mpr (store_documentToRecord hkept htaken)

/-- When a document is returned after it was saved, the save is that of the relational store. -/
theorem saveDocument_refines {db : Database} {rows rows' : Table DocumentRecord.id}
    {document stored : Document} {now : Timestamp}
    (hrows : rows.rows = db.documents.rows.map documentToRecord)
    (hstored : db.getDocument document.id = some stored)
    (hcreated : document.createdAt = stored.createdAt)
    (hsave : SqlAlchemyDocumentRepository.save rows document now = .ok rows')
    (hgot : SqlAlchemyDocumentRepository.get rows' document.id = .ok (some document)) :
  ∃ db', db.saveDocument document = .ok db'
    ∧ rows'.rows = db'.documents.rows.map documentToRecord
  := by
  have hid : stored.id = document.id := Table.key_of_get (t := db.documents) hstored
  refine ⟨_, Database.saveDocument_eq_ok_iff.mpr ⟨⟨stored, hstored⟩, rfl⟩, ?_⟩
  rw [← hid] at hstored
  apply DocumentRecord.mapper.save_replace hrows hstored _ hsave hgot
  apply Prod.ext hid.symm hcreated

/-- When a job is returned after it was saved, the save is that of the relational store. -/
theorem saveJob_refines {db : Database} {rows rows' : Table IngestionJobRecord.id}
    {job stored : IngestionJob} {now : Timestamp}
    (hrows : rows.rows = db.jobs.rows.map jobToRecord) (hstored : db.getJob job.id = some stored)
    (hdocument : job.documentId = stored.documentId) (hcreated : job.createdAt = stored.createdAt)
    (hsave : SqlAlchemyIngestionJobRepository.save rows job now = .ok rows')
    (hgot : SqlAlchemyIngestionJobRepository.get rows' job.id = .ok (some job)) :
  ∃ db', db.saveJob job = .ok db' ∧ rows'.rows = db'.jobs.rows.map jobToRecord
  := by
  have hid : stored.id = job.id := Table.key_of_get (t := db.jobs) hstored
  refine ⟨_, Database.saveJob_eq_ok_iff.mpr ⟨⟨stored, hstored⟩, rfl⟩, ?_⟩
  rw [← hid] at hstored
  apply IngestionJobRecord.mapper.save_replace hrows hstored _ hsave hgot
  apply Prod.ext hid.symm (Prod.ext hdocument hcreated)

/-- When a save changes `updated_at`, or nothing at all, it is that of the relational store, whatever the
clock of the database shows. -/
theorem saveDocument_stores {db : Database} {rows : Table DocumentRecord.id} {document stored : Document}
    (hrows : rows.rows = db.documents.rows.map documentToRecord)
    (hstored : db.getDocument document.id = some stored)
    (hcreated : document.createdAt = stored.createdAt)
    (hstore : DocumentRecord.store rows (documentToRecord document) = .ok (documentToRecord document))
    (hchanged : document = stored ∨ document.updatedAt ≠ stored.updatedAt) (now : Timestamp) :
  ∃ rows' db', SqlAlchemyDocumentRepository.save rows document now = .ok rows'
    ∧ db.saveDocument document = .ok db' ∧ rows'.rows = db'.documents.rows.map documentToRecord
  := by
  have hid : stored.id = document.id := Table.key_of_get (t := db.documents) hstored
  have hsaved : db.saveDocument document = .ok { db with documents := db.documents.replace document } :=
    Database.saveDocument_eq_ok_iff.mpr ⟨⟨stored, hstored⟩, rfl⟩
  rw [← hid] at hstored
  obtain ⟨rows', hsave, hrows'⟩ := DocumentRecord.mapper.exists_save_replace hrows hstored
    (Prod.ext hid.symm hcreated) hstore hchanged now
  exact ⟨rows', _, hsave, hsaved, hrows'⟩

/-- The same holds for jobs. -/
theorem saveJob_stores {db : Database} {rows : Table IngestionJobRecord.id} {job stored : IngestionJob}
    (hrows : rows.rows = db.jobs.rows.map jobToRecord) (hstored : db.getJob job.id = some stored)
    (hdocument : job.documentId = stored.documentId) (hcreated : job.createdAt = stored.createdAt)
    (hstore : IngestionJobRecord.store rows (jobToRecord job) = .ok (jobToRecord job))
    (hchanged : job = stored ∨ job.updatedAt ≠ stored.updatedAt) (now : Timestamp) :
  ∃ rows' db', SqlAlchemyIngestionJobRepository.save rows job now = .ok rows'
    ∧ db.saveJob job = .ok db' ∧ rows'.rows = db'.jobs.rows.map jobToRecord
  := by
  have hid : stored.id = job.id := Table.key_of_get (t := db.jobs) hstored
  have hsaved : db.saveJob job = .ok { db with jobs := db.jobs.replace job } :=
    Database.saveJob_eq_ok_iff.mpr ⟨⟨stored, hstored⟩, rfl⟩
  rw [← hid] at hstored
  obtain ⟨rows', hsave, hrows'⟩ := IngestionJobRecord.mapper.exists_save_replace hrows hstored
    (Prod.ext hid.symm (Prod.ext hdocument hcreated)) hstore hchanged now
  exact ⟨rows', _, hsave, hsaved, hrows'⟩

/-! ### What the repositories return -/

/-- The value saved last is returned throughout a history exactly when every save that goes through
is timely: it leads back to the value saved last, or the table keeps its row as it is and the change
was not made at the time of the last one, unless the clock of the database showed this time, too. -/
theorem repositories_return_saved_iff {documents : DocumentRecord.mapper.Session}
    {jobs : IngestionJobRecord.mapper.Session}
    (hdocuments : DocumentRecord.changes.history.Start documents)
    (hjobs : IngestionJobRecord.changes.history.Start jobs)
    (documentActions : List (Mapper.Action (DocumentOperation × Timestamp) Timestamp))
    (jobActions : List (Mapper.Action (IngestionJobOperation × Timestamp) Timestamp)) :
  ((∀ past, past <+: documentActions →
      ∀ s, DocumentRecord.changes.history.run documents past = some s →
        SqlAlchemyDocumentRepository.get s.rows s.saved.id = .ok (some s.saved))
    ↔ DocumentRecord.changes.history.Meets DocumentRecord.changes.Timely documents documentActions)
  ∧ ((∀ past, past <+: jobActions →
      ∀ s, IngestionJobRecord.changes.history.run jobs past = some s →
        SqlAlchemyIngestionJobRepository.get s.rows s.saved.id = .ok (some s.saved))
    ↔ IngestionJobRecord.changes.history.Meets IngestionJobRecord.changes.Timely jobs jobActions)
  := ⟨DocumentRecord.changes.forall_prefix_get_iff hdocuments,
      IngestionJobRecord.changes.forall_prefix_get_iff hjobs⟩

/-- A document that was uploaded at the moment one, with a status at a time. -/
def DocumentRecord.sample (status : DocumentStatus) (updatedAt : Timestamp) : DocumentFields where
  id := 1
  originalFilename := ['a']
  storageKey := ['b']
  mediaType := .text
  sha256 := List.replicate 64 'c'
  sizeBytes := 1
  status := status
  createdAt := 1
  updatedAt := updatedAt
  failureCode := none

/-- A table with this document. -/
def DocumentRecord.sampleSession : DocumentRecord.mapper.Session :=
  let document := ⟨DocumentRecord.sample .uploaded 1, by decide⟩
  ⟨⟨[documentToRecord document], List.nodup_singleton _⟩, document, document⟩

/-- A table with a job that was created at the moment one. -/
def IngestionJobRecord.sampleSession : IngestionJobRecord.mapper.Session :=
  let job :=
    ⟨{ id := 2
       documentId := 1
       status := .queued
       attemptCount := 0
       createdAt := 1
       updatedAt := 1
       startedAt := none
       finishedAt := none
       failureCode := none }, by decide⟩
  ⟨⟨[jobToRecord job], List.nodup_singleton _⟩, job, job⟩

theorem repositories_return_saved_sample :
  (∀ past, past <+: [.change (.queue, 2) 9, .read, .change (.startProcessing, 2) 2,
        .change (.markFailed ['e'], 5) 3, .change (.queue, 4) 4] →
      ∀ s, DocumentRecord.changes.history.run DocumentRecord.sampleSession past = some s →
        SqlAlchemyDocumentRepository.get s.rows s.saved.id = .ok (some s.saved))
    ∧ ∀ past, past <+: [.change (.start, 1) 1, .change (.fail ['e'], 2) 0, .read,
        .change (.requeue, 3) 9] →
      ∀ s, IngestionJobRecord.changes.history.run IngestionJobRecord.sampleSession past = some s →
        SqlAlchemyIngestionJobRepository.get s.rows s.saved.id = .ok (some s.saved)
  := by
  have hdocuments : DocumentRecord.changes.history.Start DocumentRecord.sampleSession :=
    ⟨by decide, rfl⟩
  have hjobs : IngestionJobRecord.changes.history.Start IngestionJobRecord.sampleSession :=
    ⟨by decide, rfl⟩
  obtain ⟨hreturned, hjobsReturned⟩ := repositories_return_saved_iff hdocuments hjobs
    [.change (.queue, 2) 9, .read, .change (.startProcessing, 2) 2,
      .change (.markFailed ['e'], 5) 3, .change (.queue, 4) 4]
    [.change (.start, 1) 1, .change (.fail ['e'], 2) 0, .read, .change (.requeue, 3) 9]
  constructor
  · apply hreturned.mpr
    decide +kernel
  · apply hjobsReturned.mpr
    decide +kernel

/-- A document is queued at the time of its last change. When the clock of the database is ahead, the
document that is returned was changed at another time than the one that was saved; when it is behind
the creation, none is returned. -/
theorem repositories_not_return_saved_sample :
  DocumentRecord.changes.history.Start DocumentRecord.sampleSession
    ∧ ∃ queued replaced : Document, DocumentRecord.sampleSession.saved.queue 1 = .ok queued
      ∧ (∃ s, DocumentRecord.changes.history.run DocumentRecord.sampleSession
            [.change (.queue, 1) 2] = some s
          ∧ s.saved = queued
          ∧ SqlAlchemyDocumentRepository.get s.rows s.saved.id = .ok (some replaced)
          ∧ queued.updatedAt = 1 ∧ replaced.updatedAt = 2)
      ∧ ∃ s, DocumentRecord.changes.history.run DocumentRecord.sampleSession
            [.change (.queue, 1) 0] = some s
          ∧ s.saved = queued
          ∧ SqlAlchemyDocumentRepository.get s.rows s.saved.id
            = .error (.domain (.validation "updated_at must not precede created_at"))
  := by
  refine ⟨⟨by decide, rfl⟩, ⟨DocumentRecord.sample .queued 1, by decide⟩,
    ⟨DocumentRecord.sample .queued 2, by decide⟩, by decide, ?_, ?_⟩
  · exact ⟨_, rfl, by decide, by decide, rfl, rfl⟩
  · exact ⟨_, rfl, by decide, by decide⟩

end KnowledgeSearch

import KnowledgeSearch.Domain.Text

/-!
# Documents, ingestion jobs and chunks

The domain values and their life cycles. A value is a record of fields together with the
proof that the checks of its constructor find nothing wrong with them; `construct` runs the
checks. The transitions of `Document` and `IngestionJob` follow `documentTransitions` and
`jobTransitions`, and reject a clock that went backwards.

`Document.transition_eq_ok_iff` and `IngestionJob.transition_eq_ok_iff` say what a
transition does; every method has an instance of one of them.
-/

namespace KnowledgeSearch

/-- A moment, as microseconds of coordinated universal time. -/
abbrev Timestamp := ℤ

variable {T : Type} [LT T] [DecidableLT T]

inductive DocumentMediaType where
  | pdf
  | markdown
  | text
  deriving DecidableEq

inductive DocumentStatus where
  | uploaded
  | queued
  | processing
  | ready
  | failed
  | deleting
  deriving DecidableEq

inductive IngestionJobStatus where
  | queued
  | running
  | succeeded
  | failed
  deriving DecidableEq

def DocumentMediaType.value : DocumentMediaType → String
  | pdf => "application/pdf"
  | markdown => "text/markdown"
  | text => "text/plain"

def DocumentStatus.value : DocumentStatus → String
  | uploaded => "uploaded"
  | queued => "queued"
  | processing => "processing"
  | ready => "ready"
  | failed => "failed"
  | deleting => "deleting"

def IngestionJobStatus.value : IngestionJobStatus → String
  | queued => "queued"
  | running => "running"
  | succeeded => "succeeded"
  | failed => "failed"

/-- A text is that of one media type. -/
theorem DocumentMediaType.value_injective :
  Function.Injective DocumentMediaType.value
  := by
  intro a b
  cases a <;> cases b <;> decide

/-- A text is that of one status of a document. -/
theorem DocumentStatus.value_injective :
  Function.Injective DocumentStatus.value
  := by
  intro a b
  cases a <;> cases b <;> decide

/-- A text is that of one status of a job. -/
theorem IngestionJobStatus.value_injective :
  Function.Injective IngestionJobStatus.value
  := by
  intro a b
  cases a <;> cases b <;> decide

/-- The statuses a document may move to from each status. -/
def documentTransitions : DocumentStatus → List DocumentStatus
  | .uploaded => [.queued]
  | .queued => [.processing, .failed]
  | .processing => [.ready, .failed]
  | .ready => [.deleting]
  | .failed => [.queued, .deleting]
  | .deleting => []

/-- The statuses a job may move to from each status. -/
def jobTransitions : IngestionJobStatus → List IngestionJobStatus
  | .queued => [.running, .failed]
  | .running => [.succeeded, .failed]
  | .succeeded => []
  | .failed => [.queued]

/-- The errors of the domain layer, with their messages. -/
inductive DomainError where
  | validation (message : String)
  | invalidStateTransition (message : String)
  deriving DecidableEq

/-- The message of the first violated check. -/
def firstViolation : List (Bool × String) → Option String
  | [] => none
  | (violated, message) :: checks => if violated then some message else firstViolation checks

theorem firstViolation_eq_none_iff {checks : List (Bool × String)} :
  firstViolation checks = none ↔ ∀ check ∈ checks, check.1 = false
  := by
  induction checks with
  | nil => simp [firstViolation]
  | cons check checks ih =>
      obtain ⟨violated, message⟩ := check
      cases violated <;> simp [firstViolation, ih]

/-- A digest of 64 lowercase hexadecimal characters. -/
def isSha256 (value : Text) : Bool :=
  value.length == 64 && value.all fun c => ('0' ≤ c && c ≤ '9') || ('a' ≤ c && c ≤ 'f')

/-! ### Locators -/

/-- The fields of a source locator. -/
structure SourceLocatorFields where
  sectionPath : List Text
  pageNumber : Option ℤ
  charStart : ℤ
  charEnd : ℤ
  deriving DecidableEq

/-- The checks of the constructor of `SourceLocator`. -/
def SourceLocatorFields.checks (self : SourceLocatorFields) : List (Bool × String) :=
  [(self.sectionPath.any blank, "section path entries must not be blank"),
    (self.pageNumber.any (· < 1), "page number must be greater than zero"),
    (self.charStart < 0, "character start must not be negative"),
    (self.charEnd < self.charStart, "character end must not precede character start")]

/-- Where in its document a chunk comes from. -/
structure SourceLocator extends SourceLocatorFields where
  valid : firstViolation toSourceLocatorFields.checks = none
  deriving DecidableEq

/-- The constructor of `SourceLocator`. -/
def SourceLocator.construct (fields : SourceLocatorFields) : Except DomainError SourceLocator :=
  match h : firstViolation fields.checks with
  | none => .ok ⟨fields, h⟩
  | some message => .error (.validation message)

theorem SourceLocator.construct_eq_ok_iff {fields : SourceLocatorFields}
    {locator : SourceLocator} :
  SourceLocator.construct fields = .ok locator ↔ locator.toSourceLocatorFields = fields
  := by
  unfold SourceLocator.construct
  split
  · rename_i h
    constructor
    · intro hok
      cases hok
      rfl
    · rintro rfl
      rfl
  · rename_i message h
    constructor
    · intro hok
      cases hok
    · rintro rfl
      rw [locator.valid] at h
      cases h

/-- The constructor accepts fields that pass its checks. -/
theorem SourceLocator.construct_eq_ok {fields : SourceLocatorFields}
    (h : firstViolation fields.checks = none) :
  SourceLocator.construct fields = .ok ⟨fields, h⟩
  := SourceLocator.construct_eq_ok_iff.mpr rfl

/-! ### Documents -/

/-- The fields of a document. -/
structure DocumentFields (T : Type := Timestamp) where
  id : Uuid
  originalFilename : Text
  storageKey : Text
  mediaType : DocumentMediaType
  sha256 : Text
  sizeBytes : ℤ
  status : DocumentStatus
  createdAt : T
  updatedAt : T
  failureCode : Option Text
  deriving DecidableEq

/-- The checks of the constructor of `Document`. Timestamps are aware of their time zone by
their type. -/
def DocumentFields.checks (self : DocumentFields T) : List (Bool × String) :=
  [(blank self.originalFilename, "original filename must not be blank"),
    (blank self.storageKey, "storage key must not be blank"),
    (!isSha256 self.sha256, "sha256 must contain 64 lowercase hexadecimal characters"),
    (self.sizeBytes < 0, "size must not be negative"),
    (self.updatedAt < self.createdAt, "updated_at must not precede created_at"),
    (self.status = .failed && self.failureCode.all List.isEmpty,
      "failed documents require a failure code"),
    (self.status ≠ .failed && self.failureCode.isSome,
      "only failed documents may contain a failure code")]

/-- A document whose fields passed the checks of the constructor. -/
structure Document (T : Type := Timestamp) [LT T] [DecidableLT T] extends DocumentFields T where
  valid : firstViolation toDocumentFields.checks = none
  deriving DecidableEq

/-- The constructor of `Document`. -/
def Document.construct (fields : DocumentFields T) : Except DomainError (Document T) :=
  match h : firstViolation fields.checks with
  | none => .ok ⟨fields, h⟩
  | some message => .error (.validation message)

theorem Document.construct_eq_ok_iff {fields : DocumentFields T} {document : Document T} :
  Document.construct fields = .ok document ↔ document.toDocumentFields = fields
  := by
  unfold Document.construct
  split
  · rename_i h
    constructor
    · intro hok
      cases hok
      rfl
    · rintro rfl
      rfl
  · rename_i message h
    constructor
    · intro hok
      cases hok
    · rintro rfl
      rw [document.valid] at h
      cases h

/-- `Document.create`: a new document, uploaded at `now`. -/
def Document.create (id : Uuid) (originalFilename storageKey : Text)
    (mediaType : DocumentMediaType) (sha256 : Text) (sizeBytes : ℤ) (now : T) :
    Except DomainError (Document T) :=
  Document.construct
    { id, originalFilename, storageKey, mediaType, sha256, sizeBytes
      status := .uploaded
      createdAt := now
      updatedAt := now
      failureCode := none }

/-- `Document._transition`. -/
def Document.transition (self : Document T) (target : DocumentStatus) (now : T)
    (failureCode : Option Text) : Except DomainError (Document T) :=
  if target ∉ documentTransitions self.status then
    .error (.invalidStateTransition
      ("document cannot transition from " ++ self.status.value ++ " to " ++ target.value))
  else if now < self.updatedAt then
    .error (.validation "document transition time must not move backwards")
  else
    Document.construct
      { self.toDocumentFields with status := target, updatedAt := now, failureCode := failureCode }

def Document.queue (self : Document T) (now : T) : Except DomainError (Document T) :=
  self.transition .queued now none

def Document.startProcessing (self : Document T) (now : T) : Except DomainError (Document T) :=
  self.transition .processing now none

def Document.markReady (self : Document T) (now : T) : Except DomainError (Document T) :=
  self.transition .ready now none

def Document.markFailed (self : Document T) (failureCode : Text) (now : T) :
    Except DomainError (Document T) :=
  if blank failureCode then .error (.validation "failure code must not be blank")
  else self.transition .failed now (some failureCode)

def Document.markDeleting (self : Document T) (now : T) : Except DomainError (Document T) :=
  self.transition .deleting now none

/-- A failure code that fits a status: one that is not empty when the status is `failed`,
and none otherwise. -/
def fitsStatus (failed : Bool) : Option Text → Bool
  | none => !failed
  | some code => failed && !code.isEmpty

theorem fitsStatus_of_not_blank {code : Text} (h : blank code = false) :
  fitsStatus true (some code) = true
  := by
  cases code with
  | nil => cases h
  | cons c code => rfl

/-- A transition succeeds when the target may follow, the clock did not go backwards and the
failure code fits the target, and then changes only status, time and failure code. -/
theorem Document.transition_eq_ok_iff_not_lt {self document : Document T}
    {target : DocumentStatus} {now : T} {failureCode : Option Text} :
  self.transition target now failureCode = .ok document
    ↔ target ∈ documentTransitions self.status ∧ ¬ now < self.updatedAt
      ∧ document.toDocumentFields
        = { self.toDocumentFields with
            status := target, updatedAt := now, failureCode := failureCode }
  := by
  unfold Document.transition
  by_cases htarget : target ∈ documentTransitions self.status
  · by_cases hnow : now < self.updatedAt
    · simp [htarget, hnow]
    · simp [htarget, hnow, Document.construct_eq_ok_iff]
  · simp [htarget]

theorem Document.transition_eq_ok_iff {self document : Document} {target : DocumentStatus}
    {now : Timestamp} {failureCode : Option Text} :
  self.transition target now failureCode = .ok document
    ↔ target ∈ documentTransitions self.status ∧ self.updatedAt ≤ now
      ∧ document.toDocumentFields
        = { self.toDocumentFields with
            status := target, updatedAt := now, failureCode := failureCode }
  := by
  rw [Document.transition_eq_ok_iff_not_lt, not_lt]

/-- A permitted transition with a fitting failure code passes the checks of the
constructor, at a time that is not before the document was created. -/
theorem Document.transition_isOk_of_not_lt {self : Document T} {target : DocumentStatus}
    {now : T} {failureCode : Option Text}
    (htarget : target ∈ documentTransitions self.status) (hnow : ¬ now < self.updatedAt)
    (hcreated : ¬ now < self.createdAt)
    (hcode : fitsStatus (target = .failed) failureCode = true) :
  ∃ document, self.transition target now failureCode = .ok document
  := by
  have hvalid := firstViolation_eq_none_iff.mp self.valid
  simp only [DocumentFields.checks, List.mem_cons, List.not_mem_nil, or_false,
    forall_eq_or_imp, forall_eq, decide_eq_false_iff_not] at hvalid
  obtain ⟨hname, hkey, hsha, hsize, -⟩ := hvalid
  have h : firstViolation ({ self.toDocumentFields with
      status := target, updatedAt := now, failureCode := failureCode } : DocumentFields T).checks
      = none := by
    apply firstViolation_eq_none_iff.mpr
    simp only [DocumentFields.checks, List.mem_cons, List.not_mem_nil, or_false,
      forall_eq_or_imp, forall_eq, decide_eq_false_iff_not]
    use hname, hkey, hsha, hsize, hcreated
    cases failureCode with
    | none =>
        simp only [fitsStatus, Bool.not_eq_true', decide_eq_false_iff_not] at hcode
        simp [hcode]
    | some code =>
        simp only [fitsStatus, Bool.and_eq_true, decide_eq_true_eq, Bool.not_eq_true'] at hcode
        simp [hcode.1, hcode.2]
  use ⟨_, h⟩
  apply Document.transition_eq_ok_iff_not_lt.mpr
  use htarget, hnow

theorem Document.updatedAt_not_lt (self : Document T) :
  ¬ self.updatedAt < self.createdAt
  := by
  have hvalid := firstViolation_eq_none_iff.mp self.valid
  simp only [DocumentFields.checks, List.mem_cons, List.not_mem_nil, or_false,
    forall_eq_or_imp, forall_eq, decide_eq_false_iff_not] at hvalid
  apply hvalid.2.2.2.2.1

theorem Document.transition_isOk {self : Document} {target : DocumentStatus}
    {now : Timestamp} {failureCode : Option Text}
    (htarget : target ∈ documentTransitions self.status) (hnow : self.updatedAt ≤ now)
    (hcode : fitsStatus (target = .failed) failureCode = true) :
  ∃ document, self.transition target now failureCode = .ok document
  := by
  apply Document.transition_isOk_of_not_lt htarget (not_lt.mpr hnow) _ hcode
  apply not_lt.mpr (le_trans (not_lt.mp self.updatedAt_not_lt) hnow)

/-- `Revises a b`: the document `a` is `b` but for its status, the time of its last change and
its failure code. -/
def Document.Revises (a b : Document T) : Prop :=
  a.toDocumentFields
    = { b.toDocumentFields with
        status := a.status, updatedAt := a.updatedAt, failureCode := a.failureCode }

namespace Document.Revises

variable {a b c : Document T}

theorem refl (a : Document T) :
  a.Revises a
  := rfl

theorem trans (hab : a.Revises b) (hbc : b.Revises c) :
  a.Revises c
  := by
  unfold Document.Revises at *
  rw [hab, hbc]

theorem id_eq (h : a.Revises b) :
  a.id = b.id
  := by
  have hfield := congrArg DocumentFields.id h
  apply hfield

theorem mediaType_eq (h : a.Revises b) :
  a.mediaType = b.mediaType
  := by
  have hfield := congrArg DocumentFields.mediaType h
  apply hfield

theorem storageKey_eq (h : a.Revises b) :
  a.storageKey = b.storageKey
  := by
  have hfield := congrArg DocumentFields.storageKey h
  apply hfield

end Document.Revises

/-- A transition moves the status to its target and keeps what identifies the document. -/
theorem Document.transition_spec {self document : Document T} {target : DocumentStatus}
    {now : T} {failureCode : Option Text}
    (h : self.transition target now failureCode = .ok document) :
  target ∈ documentTransitions self.status ∧ document.status = target ∧ document.Revises self
  := by
  obtain ⟨htarget, -, hfields⟩ := Document.transition_eq_ok_iff_not_lt.mp h
  use htarget, congrArg DocumentFields.status hfields
  unfold Document.Revises
  rw [hfields]

/-- `mark_failed` is a transition to `failed`. -/
theorem Document.markFailed_spec {self document : Document} {failureCode : Text}
    {now : Timestamp} (h : self.markFailed failureCode now = .ok document) :
  .failed ∈ documentTransitions self.status ∧ document.status = .failed ∧ document.Revises self
    ∧ document.failureCode = some failureCode
  := by
  unfold Document.markFailed at h
  split at h
  · cases h
  · obtain ⟨-, -, hfields⟩ := Document.transition_eq_ok_iff.mp h
    obtain ⟨htarget, hstatus, hrevises⟩ := Document.transition_spec h
    use htarget, hstatus, hrevises, congrArg DocumentFields.failureCode hfields

/-- A document that may fail does so with a code that is not blank, when the clock is not behind
it. -/
theorem Document.markFailed_isOk {self : Document} {failureCode : Text} {now : Timestamp}
    (hfrom : .failed ∈ documentTransitions self.status) (hnow : self.updatedAt ≤ now)
    (hcode : blank failureCode = false) :
  ∃ document, self.markFailed failureCode now = .ok document
  := by
  rw [Document.markFailed, hcode, if_neg Bool.false_ne_true]
  apply Document.transition_isOk hfrom hnow (fitsStatus_of_not_blank hcode)

/-! ### Ingestion jobs -/

/-- The fields of an ingestion job. -/
structure IngestionJobFields (T : Type := Timestamp) where
  id : Uuid
  documentId : Uuid
  status : IngestionJobStatus
  attemptCount : ℤ
  createdAt : T
  updatedAt : T
  startedAt : Option T
  finishedAt : Option T
  failureCode : Option Text
  deriving DecidableEq

/-- One optional moment lies before another. -/
def precedes : Option T → Option T → Bool
  | some a, some b => a < b
  | _, _ => false

/-- The checks of the constructor of `IngestionJob`. -/
def IngestionJobFields.checks (self : IngestionJobFields T) : List (Bool × String) :=
  [(self.attemptCount < 0, "attempt count must not be negative"),
    (self.updatedAt < self.createdAt, "updated_at must not precede created_at"),
    (precedes self.startedAt (some self.createdAt), "started_at must not precede created_at"),
    (precedes self.finishedAt (some self.createdAt), "finished_at must not precede created_at"),
    (precedes self.finishedAt self.startedAt, "finished_at must not precede started_at"),
    (self.status = .running && self.startedAt.isNone, "running jobs require a start time"),
    ((self.status = .succeeded || self.status = .failed) && self.finishedAt.isNone,
      "finished jobs require a finish time"),
    (self.status = .failed && self.failureCode.all List.isEmpty,
      "failed jobs require a failure code"),
    (self.status ≠ .failed && self.failureCode.isSome,
      "only failed jobs may contain a failure code")]

/-- An ingestion job whose fields passed the checks of the constructor. -/
structure IngestionJob (T : Type := Timestamp) [LT T] [DecidableLT T]
    extends IngestionJobFields T where
  valid : firstViolation toIngestionJobFields.checks = none
  deriving DecidableEq

/-- The constructor of `IngestionJob`. -/
def IngestionJob.construct (fields : IngestionJobFields T) :
    Except DomainError (IngestionJob T) :=
  match h : firstViolation fields.checks with
  | none => .ok ⟨fields, h⟩
  | some message => .error (.validation message)

theorem IngestionJob.construct_eq_ok_iff {fields : IngestionJobFields T}
    {job : IngestionJob T} :
  IngestionJob.construct fields = .ok job ↔ job.toIngestionJobFields = fields
  := by
  unfold IngestionJob.construct
  split
  · rename_i h
    constructor
    · intro hok
      cases hok
      rfl
    · rintro rfl
      rfl
  · rename_i message h
    constructor
    · intro hok
      cases hok
    · rintro rfl
      rw [job.valid] at h
      cases h

/-- `IngestionJob.create`: a new job of a document, queued at `now`. -/
def IngestionJob.create (documentId id : Uuid) (now : T) :
    Except DomainError (IngestionJob T) :=
  IngestionJob.construct
    { id, documentId
      status := .queued
      attemptCount := 0
      createdAt := now
      updatedAt := now
      startedAt := none
      finishedAt := none
      failureCode := none }

/-- `IngestionJob._transition`. -/
def IngestionJob.transition (self : IngestionJob T) (target : IngestionJobStatus)
    (now : T) (attemptCount : Option ℤ) (startedAt finishedAt : Option T)
    (failureCode : Option Text) : Except DomainError (IngestionJob T) :=
  if target ∉ jobTransitions self.status then
    .error (.invalidStateTransition
      ("ingestion job cannot transition from " ++ self.status.value ++ " to " ++ target.value))
  else if now < self.updatedAt then
    .error (.validation "ingestion transition time must not move backwards")
  else
    IngestionJob.construct
      { self.toIngestionJobFields with
        status := target
        attemptCount := attemptCount.getD self.attemptCount
        updatedAt := now
        startedAt := startedAt
        finishedAt := finishedAt
        failureCode := failureCode }

def IngestionJob.start (self : IngestionJob T) (now : T) : Except DomainError (IngestionJob T) :=
  self.transition .running now (some (self.attemptCount + 1)) (some now) none none

def IngestionJob.succeed (self : IngestionJob T) (now : T) :
    Except DomainError (IngestionJob T) :=
  self.transition .succeeded now none self.startedAt (some now) none

def IngestionJob.fail (self : IngestionJob T) (failureCode : Text) (now : T) :
    Except DomainError (IngestionJob T) :=
  if blank failureCode then .error (.validation "failure code must not be blank")
  else self.transition .failed now none self.startedAt (some now) (some failureCode)

def IngestionJob.requeue (self : IngestionJob T) (now : T) :
    Except DomainError (IngestionJob T) :=
  self.transition .queued now none none none none

/-- A transition succeeds only when the target may follow and the clock did not go
backwards; it keeps the identity of the job and of its document. -/
theorem IngestionJob.transition_eq_ok_iff_not_lt {self job : IngestionJob T}
    {target : IngestionJobStatus} {now : T} {attemptCount : Option ℤ}
    {startedAt finishedAt : Option T} {failureCode : Option Text} :
  self.transition target now attemptCount startedAt finishedAt failureCode = .ok job
    ↔ target ∈ jobTransitions self.status ∧ ¬ now < self.updatedAt
      ∧ job.toIngestionJobFields
        = { self.toIngestionJobFields with
            status := target
            attemptCount := attemptCount.getD self.attemptCount
            updatedAt := now
            startedAt := startedAt
            finishedAt := finishedAt
            failureCode := failureCode }
  := by
  unfold IngestionJob.transition
  by_cases htarget : target ∈ jobTransitions self.status
  · by_cases hnow : now < self.updatedAt
    · simp [htarget, hnow]
    · simp [htarget, hnow, IngestionJob.construct_eq_ok_iff]
  · simp [htarget]

theorem IngestionJob.transition_eq_ok_iff {self job : IngestionJob}
    {target : IngestionJobStatus} {now : Timestamp} {attemptCount : Option ℤ}
    {startedAt finishedAt : Option Timestamp} {failureCode : Option Text} :
  self.transition target now attemptCount startedAt finishedAt failureCode = .ok job
    ↔ target ∈ jobTransitions self.status ∧ self.updatedAt ≤ now
      ∧ job.toIngestionJobFields
        = { self.toIngestionJobFields with
            status := target
            attemptCount := attemptCount.getD self.attemptCount
            updatedAt := now
            startedAt := startedAt
            finishedAt := finishedAt
            failureCode := failureCode }
  := by
  rw [IngestionJob.transition_eq_ok_iff_not_lt, not_lt]

/-- `Revises a b`: the job `a` has the identity of `b`. -/
def IngestionJob.Revises (a b : IngestionJob) : Prop :=
  a.id = b.id ∧ a.documentId = b.documentId

theorem IngestionJob.Revises.trans {a b c : IngestionJob} (hab : a.Revises b)
    (hbc : b.Revises c) :
  a.Revises c
  := ⟨hab.1.trans hbc.1, hab.2.trans hbc.2⟩

/-- A transition moves the status to its target and keeps the identity of the job. -/
theorem IngestionJob.transition_spec {self job : IngestionJob} {target : IngestionJobStatus}
    {now : Timestamp} {attemptCount : Option ℤ} {startedAt finishedAt : Option Timestamp}
    {failureCode : Option Text}
    (h : self.transition target now attemptCount startedAt finishedAt failureCode = .ok job) :
  target ∈ jobTransitions self.status ∧ job.status = target ∧ job.Revises self
    ∧ job.attemptCount = attemptCount.getD self.attemptCount
  := by
  obtain ⟨htarget, -, hfields⟩ := IngestionJob.transition_eq_ok_iff.mp h
  use htarget, congrArg IngestionJobFields.status hfields
  constructor
  · have hid := congrArg IngestionJobFields.id hfields
    have hdocument := congrArg IngestionJobFields.documentId hfields
    use hid, hdocument
  · apply congrArg IngestionJobFields.attemptCount hfields

/-- `fail` is a transition to `failed`. -/
theorem IngestionJob.fail_spec {self job : IngestionJob} {failureCode : Text} {now : Timestamp}
    (h : self.fail failureCode now = .ok job) :
  .failed ∈ jobTransitions self.status ∧ job.status = .failed ∧ job.Revises self
    ∧ job.attemptCount = self.attemptCount ∧ job.failureCode = some failureCode
  := by
  unfold IngestionJob.fail at h
  split at h
  · cases h
  · obtain ⟨-, -, hfields⟩ := IngestionJob.transition_eq_ok_iff.mp h
    obtain ⟨htarget, hstatus, hrevises, hcount⟩ := IngestionJob.transition_spec h
    use htarget, hstatus, hrevises, hcount, congrArg IngestionJobFields.failureCode hfields

/-- A permitted transition passes the checks of the constructor when the attempt count, the
start and finish times and the failure code fit the target. -/
theorem IngestionJob.transition_isOk_of_not_lt {self : IngestionJob T}
    {target : IngestionJobStatus} {now : T} {attemptCount : Option ℤ}
    {startedAt finishedAt : Option T} {failureCode : Option Text}
    (htarget : target ∈ jobTransitions self.status) (hnow : ¬ now < self.updatedAt)
    (hcreated : ¬ now < self.createdAt) (hcount : ∀ n ∈ attemptCount, 0 ≤ n)
    (hstarted : precedes startedAt (some self.createdAt) = false)
    (hfinished : ∀ f ∈ finishedAt, f = now)
    (horder : precedes finishedAt startedAt = false)
    (hrunning : target = .running → startedAt.isNone = false)
    (hdone : target = .succeeded ∨ target = .failed → finishedAt.isNone = false)
    (hcode : fitsStatus (target = .failed) failureCode = true) :
  ∃ job, self.transition target now attemptCount startedAt finishedAt failureCode = .ok job
  := by
  have hvalid := firstViolation_eq_none_iff.mp self.valid
  simp only [IngestionJobFields.checks, List.mem_cons, List.not_mem_nil, or_false,
    forall_eq_or_imp, forall_eq, decide_eq_false_iff_not, not_lt] at hvalid
  obtain ⟨hcount', -⟩ := hvalid
  have h : firstViolation ({ self.toIngestionJobFields with
      status := target
      attemptCount := attemptCount.getD self.attemptCount
      updatedAt := now
      startedAt := startedAt
      finishedAt := finishedAt
      failureCode := failureCode } : IngestionJobFields T).checks = none := by
    apply firstViolation_eq_none_iff.mpr
    simp only [IngestionJobFields.checks, List.mem_cons, List.not_mem_nil, or_false,
      forall_eq_or_imp, forall_eq, decide_eq_false_iff_not, not_lt, Bool.and_eq_false_iff,
      Bool.or_eq_false_iff]
    refine ⟨?_, hcreated, hstarted, ?_, horder, ?_, ?_, ?_, ?_⟩
    · cases attemptCount with
      | none => apply hcount'
      | some n => apply hcount n rfl
    · cases finishedAt with
      | none => rfl
      | some f =>
          obtain rfl := hfinished f rfl
          simp only [precedes, decide_eq_false_iff_not]
          apply hcreated
    · by_cases hr : target = .running
      · apply Or.inr (hrunning hr)
      · apply Or.inl hr
    · by_cases hd : target = .succeeded ∨ target = .failed
      · apply Or.inr (hdone hd)
      · apply Or.inl
        simpa [not_or] using hd
    · cases failureCode with
      | none =>
          simp only [fitsStatus, Bool.not_eq_true', decide_eq_false_iff_not] at hcode
          apply Or.inl hcode
      | some code =>
          simp only [fitsStatus, Bool.and_eq_true, decide_eq_true_eq, Bool.not_eq_true'] at hcode
          apply Or.inr
          simp [hcode.2]
    · cases failureCode with
      | none => simp
      | some code =>
          simp only [fitsStatus, Bool.and_eq_true, decide_eq_true_eq, Bool.not_eq_true'] at hcode
          simp [hcode.1]
  use ⟨_, h⟩
  apply IngestionJob.transition_eq_ok_iff_not_lt.mpr
  use htarget, hnow

/-- The attempts of a job are counted from zero, and it is neither changed nor started before it
is created. -/
theorem IngestionJob.times_not_lt (self : IngestionJob T) :
  0 ≤ self.attemptCount ∧ ¬ self.updatedAt < self.createdAt
    ∧ precedes self.startedAt (some self.createdAt) = false
  := by
  have hvalid := firstViolation_eq_none_iff.mp self.valid
  simp only [IngestionJobFields.checks, List.mem_cons, List.not_mem_nil, or_false,
    forall_eq_or_imp, forall_eq, decide_eq_false_iff_not, Int.not_lt] at hvalid
  obtain ⟨hcount, htime, hstarted, -⟩ := hvalid
  use hcount, htime

theorem IngestionJob.times (self : IngestionJob) :
  0 ≤ self.attemptCount ∧ self.createdAt ≤ self.updatedAt
    ∧ precedes self.startedAt (some self.createdAt) = false
  := by
  rw [← not_lt (a := self.updatedAt)]
  apply self.times_not_lt

theorem IngestionJob.transition_isOk {self : IngestionJob} {target : IngestionJobStatus}
    {now : Timestamp} {attemptCount : Option ℤ} {startedAt finishedAt : Option Timestamp}
    {failureCode : Option Text} (htarget : target ∈ jobTransitions self.status)
    (hnow : self.updatedAt ≤ now) (hcount : ∀ n ∈ attemptCount, 0 ≤ n)
    (hstarted : precedes startedAt (some self.createdAt) = false)
    (hfinished : ∀ f ∈ finishedAt, f = now)
    (horder : precedes finishedAt startedAt = false)
    (hrunning : target = .running → startedAt.isNone = false)
    (hdone : target = .succeeded ∨ target = .failed → finishedAt.isNone = false)
    (hcode : fitsStatus (target = .failed) failureCode = true) :
  ∃ job, self.transition target now attemptCount startedAt finishedAt failureCode = .ok job
  := by
  apply IngestionJob.transition_isOk_of_not_lt htarget (not_lt.mpr hnow) _ hcount hstarted hfinished
    horder hrunning hdone hcode
  apply not_lt.mpr (le_trans self.times.2.1 hnow)

/-- A job that may run starts when the clock is not behind it. -/
theorem IngestionJob.start_isOk {self : IngestionJob} {now : Timestamp}
    (hfrom : .running ∈ jobTransitions self.status) (hnow : self.updatedAt ≤ now) :
  ∃ job, self.start now = .ok job
  := by
  obtain ⟨hcount, htime, -⟩ := self.times
  apply IngestionJob.transition_isOk hfrom hnow
  · intro n hn
    obtain rfl := Option.some.inj hn
    omega
  · simp only [precedes, decide_eq_false_iff_not, not_lt]
    apply le_trans htime hnow
  · simp
  · rfl
  · simp
  · simp
  · rfl

/-- A job that may fail does so with a code that is not blank, when the clock is not behind it. -/
theorem IngestionJob.fail_isOk {self : IngestionJob} {failureCode : Text} {now : Timestamp}
    (hfrom : .failed ∈ jobTransitions self.status) (hnow : self.updatedAt ≤ now)
    (hstarted : ∀ started ∈ self.startedAt, started ≤ now) (hcode : blank failureCode = false) :
  ∃ job, self.fail failureCode now = .ok job
  := by
  obtain ⟨-, -, hcreated⟩ := self.times
  rw [IngestionJob.fail, hcode, if_neg Bool.false_ne_true]
  apply IngestionJob.transition_isOk hfrom hnow
  · simp
  · apply hcreated
  · simp
  · cases hat : self.startedAt with
    | none => rfl
    | some started =>
        simp only [precedes, decide_eq_false_iff_not, not_lt]
        apply hstarted started hat
  · simp
  · simp
  · apply fitsStatus_of_not_blank hcode

end KnowledgeSearch

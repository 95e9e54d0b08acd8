import KnowledgeSearch.Errors
import KnowledgeSearch.Foundations.Machine

/-!
# Histories of documents and jobs

`Document.lifecycle` and `IngestionJob.lifecycle` are the machines of the operations on a
document and on a job. An operation that raises leaves the value as it is. The times are of any
type with a comparison, since the comparison of two `Datetime`s need not be transitive.

`DocumentOperation.Rejects` and `IngestionJobOperation.Rejects` say when the checks of an
operation raise. What these let pass, the constructor rejects only at a time before the value was
created, `DocumentOperation.apply_isOk_iff` and `IngestionJobOperation.apply_isOk_iff`.
-/

namespace KnowledgeSearch

/-! ### Dates and times -/

/-- A date and time that is aware of its time zone: what a clock shows, in microseconds, which
zone it is in, and the offset of the zone from coordinated universal time at that moment. -/
structure Datetime where
  wall : ℤ
  tzinfo : ℕ
  utcoffset : ℤ
  deriving DecidableEq

namespace Datetime

/-- The moment a date and time is about. -/
def utc (self : Datetime) : Timestamp :=
  self.wall - self.utcoffset

/-- Within one zone the clocks are compared, and the moments otherwise. -/
instance : LT Datetime where
  lt a b := if a.tzinfo = b.tzinfo then a.wall < b.wall else a.utc < b.utc

instance : LE Datetime where
  le a b := if a.tzinfo = b.tzinfo then a.wall ≤ b.wall else a.utc ≤ b.utc

instance : DecidableLT Datetime := fun a b =>
  inferInstanceAs (Decidable (if a.tzinfo = b.tzinfo then a.wall < b.wall else a.utc < b.utc))

theorem lt_def {a b : Datetime} :
  a < b ↔ if a.tzinfo = b.tzinfo then a.wall < b.wall else a.utc < b.utc
  := Iff.rfl

theorem le_def {a b : Datetime} :
  a ≤ b ↔ if a.tzinfo = b.tzinfo then a.wall ≤ b.wall else a.utc ≤ b.utc
  := Iff.rfl

theorem not_lt {a b : Datetime} :
  ¬ a < b ↔ b ≤ a
  := by
  rw [lt_def, le_def]
  by_cases h : a.tzinfo = b.tzinfo
  · rw [if_pos h, if_pos h.symm]
    apply Int.not_lt
  · rw [if_neg h, if_neg (Ne.symm h)]
    apply Int.not_lt

theorem lt_irrefl (a : Datetime) :
  ¬ a < a
  := by
  rw [lt_def, if_pos rfl]
  apply Int.lt_irrefl

/-- The dates and times are compared as the moments they are about. -/
def AsMoments (times : List Datetime) : Prop :=
  ∀ a ∈ times, ∀ b ∈ times, a < b ↔ a.utc < b.utc

/-- Dates and times are compared as moments when each zone keeps its offset. -/
theorem asMoments_of_utcoffset {times : List Datetime}
    (h : ∀ a ∈ times, ∀ b ∈ times, a.tzinfo = b.tzinfo → a.utcoffset = b.utcoffset) :
  AsMoments times
  := by
  intro a ha b hb
  rw [lt_def]
  split
  · rename_i hzone
    rw [utc, utc, h a ha b hb hzone]
    apply (Int.sub_lt_sub_right_iff ..).symm
  · apply Iff.rfl

/-- Dates and times that are compared as moments are in order when successive ones are. -/
theorem not_lt_trans {times : List Datetime} (h : AsMoments times) {a b c : Datetime}
    (hab : ¬ a < b) (hbc : ¬ b < c) (ha : a ∈ times) (hb : b ∈ times) (hc : c ∈ times) :
  ¬ a < c
  := by
  rw [h a ha b hb, Int.not_lt] at hab
  rw [h b hb c hc, Int.not_lt] at hbc
  rw [h a ha c hc, Int.not_lt]
  apply Int.le_trans hbc hab

/-- A time that is not before the last change is not before the creation, when the times of the
history are compared as moments. -/
theorem not_lt_createdAt {times : List Datetime} {created updated now : Datetime}
    (h : AsMoments (now :: created :: times)) (hupdated : updated ∈ created :: times)
    (hcreated : ¬ updated < created) (hnow : ¬ now < updated) :
  ¬ now < created
  := by
  apply not_lt_trans h hnow hcreated
  · apply List.mem_cons_self
  · apply List.mem_cons_of_mem _ hupdated
  · apply List.mem_cons_of_mem _ List.mem_cons_self

end Datetime

variable {T : Type} [LT T] [DecidableLT T]

/-! ### Documents -/

inductive DocumentOperation where
  | queue
  | startProcessing
  | markReady
  | markFailed (failureCode : Text)
  | markDeleting
  deriving DecidableEq

namespace DocumentOperation

/-- The call of an operation. -/
def apply (self : DocumentOperation) (document : Document T) (now : T) :
    Except DomainError (Document T) :=
  match self with
  | queue => document.queue now
  | startProcessing => document.startProcessing now
  | markReady => document.markReady now
  | markFailed failureCode => document.markFailed failureCode now
  | markDeleting => document.markDeleting now

/-- The status an operation leads to. -/
def target : DocumentOperation → DocumentStatus
  | queue => .queued
  | startProcessing => .processing
  | markReady => .ready
  | markFailed _ => .failed
  | markDeleting => .deleting

/-- The failure code an operation is given. -/
def failureCode : DocumentOperation → Option Text
  | markFailed code => some code
  | _ => none

/-- The checks of an operation raise: its failure code is blank, the document may not change to
its target, or its time is before that of the last change. -/
def Rejects (self : DocumentOperation) (document : Document T) (now : T) : Prop :=
  self.failureCode.any blank = true ∨ self.target ∉ documentTransitions document.status
    ∨ now < document.updatedAt

instance (self : DocumentOperation) (document : Document T) (now : T) :
    Decidable (self.Rejects document now) :=
  inferInstanceAs (Decidable (_ ∨ _ ∨ _))

/-- Every operation is a transition to its target. -/
theorem apply_eq (self : DocumentOperation) (document : Document T) (now : T) :
  self.apply document now
    = if self.failureCode.any blank then .error (.validation "failure code must not be blank")
      else document.transition self.target now self.failureCode
  := by cases self <;> rfl

theorem apply_eq_ok_iff {self : DocumentOperation} {document document' : Document T} {now : T} :
  self.apply document now = .ok document'
    ↔ ¬ self.Rejects document now
      ∧ document'.toDocumentFields
        = { document.toDocumentFields with
            status := self.target, updatedAt := now, failureCode := self.failureCode }
  := by
  rw [apply_eq, Rejects]
  by_cases hcode : self.failureCode.any blank = true
  · simp [hcode]
  · rw [if_neg hcode, Document.transition_eq_ok_iff_not_lt]
    simp only [hcode, false_or, not_or, not_not, and_assoc, Bool.false_eq_true]

/-- The failure code of an operation fits its target. -/
theorem fitsStatus_failureCode {self : DocumentOperation}
    (h : self.failureCode.any blank = false) :
  fitsStatus (self.target = .failed) self.failureCode = true
  := by
  cases self with
  | markFailed code => apply fitsStatus_of_not_blank h
  | _ => rfl

/-- What the checks of an operation let pass, the constructor rejects only at a time before the
document was created. -/
theorem apply_isOk_iff {self : DocumentOperation} {document : Document T} {now : T} :
  (∃ document', self.apply document now = .ok document')
    ↔ ¬ self.Rejects document now ∧ ¬ now < document.createdAt
  := by
  constructor
  · rintro ⟨document', h⟩
    obtain ⟨hrejects, hfields⟩ := apply_eq_ok_iff.mp h
    use hrejects
    have htime := document'.updatedAt_not_lt
    rw [hfields] at htime
    apply htime
  · rintro ⟨hrejects, hcreated⟩
    rw [Rejects, not_or, not_or, not_not, Bool.not_eq_true] at hrejects
    obtain ⟨hcode, htarget, hnow⟩ := hrejects
    rw [apply_eq, hcode, if_neg Bool.false_ne_true]
    apply Document.transition_isOk_of_not_lt htarget hnow hcreated (fitsStatus_failureCode hcode)

theorem apply_eq_error_iff {self : DocumentOperation} {document : Document T} {now : T} :
  (∃ e, self.apply document now = .error e)
    ↔ self.Rejects document now ∨ now < document.createdAt
  := by
  rw [exists_eq_error_iff, apply_isOk_iff, not_and_or, not_not, not_not]

end DocumentOperation

/-- The histories of documents: operations at their times, on a document that was created. -/
def Document.lifecycle (T : Type) [LT T] [DecidableLT T] :
    Machine (Document T) (DocumentOperation × T) :=
  .attempting (fun document step => step.1.apply document step.2) fun document =>
    ∃ id originalFilename storageKey mediaType sha256 sizeBytes now,
      Document.create id originalFilename storageKey mediaType sha256 sizeBytes now = .ok document

/-- What holds of a document that was changed since it was created as `original`: only its status,
the time of its last change and its failure code are not those of `original`. -/
structure Document.Sound (original document : Document Datetime) : Prop where
  revises : document.Revises original
  createdAt_le_updatedAt : document.createdAt ≤ document.updatedAt
  failureCode_iff : document.failureCode.isSome = true ↔ document.status = .failed

/-- A failure code that passed the checks of a constructor is present when the status is
`failed`. -/
theorem isSome_failureCode_iff {failed : Prop} {failureCode : Option Text}
    (hfailed : ¬ failed ∨ failureCode.all List.isEmpty = false)
    (hother : ¬ ¬ failed ∨ failureCode.isSome = false) :
  failureCode.isSome = true ↔ failed
  := by
  cases failureCode with
  | none => simpa using hfailed
  | some code => simpa using hother

/-- A document has a failure code when it failed. -/
theorem Document.failureCode_iff (self : Document T) :
  self.failureCode.isSome = true ↔ self.status = .failed
  := by
  have hvalid := firstViolation_eq_none_iff.mp self.valid
  simp only [DocumentFields.checks, List.mem_cons, List.not_mem_nil, or_false,
    forall_eq_or_imp, forall_eq, Bool.and_eq_false_iff, decide_eq_false_iff_not] at hvalid
  obtain ⟨-, -, -, -, -, hfailed, hother⟩ := hvalid
  apply isSome_failureCode_iff hfailed hother

/-- The last change of a document was made at a time of its history. -/
theorem Document.updatedAt_mem {original document : Document T}
    {steps : List (DocumentOperation × T)}
    (hrun : (Document.lifecycle T).run original steps = some document) :
  document.updatedAt ∈ original.updatedAt :: steps.map Prod.snd
  := by
  apply Machine.attempting_mem _ hrun
  intro document step document' h
  rw [(DocumentOperation.apply_eq_ok_iff.mp h).2]

/-- A document is sound throughout its history. -/
theorem Document.sound_run {original document : Document Datetime}
    {steps : List (DocumentOperation × Datetime)}
    (hrun : (Document.lifecycle Datetime).run original steps = some document) :
  Document.Sound original document
  := by
  have hrevises : document.Revises original := by
    apply Machine.attempting_invariant (I := fun document => document.Revises original) _
      (Document.Revises.refl original) hrun
    intro document step document' h hstep
    apply Document.Revises.trans _ h
    rw [Document.Revises, (DocumentOperation.apply_eq_ok_iff.mp hstep).2]
  exact ⟨hrevises, Datetime.not_lt.mp document.updatedAt_not_lt, document.failureCode_iff⟩

/-- A time that is not before the last change of a document is not before its creation when the
times of its history are compared as moments. -/
theorem Document.createdAt_not_lt {original document : Document Datetime}
    {steps : List (DocumentOperation × Datetime)} {now : Datetime}
    (hstart : original.updatedAt = original.createdAt)
    (hrun : (Document.lifecycle Datetime).run original steps = some document)
    (htimes : Datetime.AsMoments (now :: original.createdAt :: steps.map Prod.snd))
    (hnow : ¬ now < document.updatedAt) :
  ¬ now < document.createdAt
  := by
  have hupdated := Document.updatedAt_mem hrun
  have hle := document.updatedAt_not_lt
  rw [congrArg DocumentFields.createdAt (Document.sound_run hrun).revises] at hle ⊢
  rw [hstart] at hupdated
  apply Datetime.not_lt_createdAt htimes hupdated hle hnow

/-! ### Ingestion jobs -/

inductive IngestionJobOperation where
  | start
  | succeed
  | fail (failureCode : Text)
  | requeue
  deriving DecidableEq

namespace IngestionJobOperation

/-- The call of an operation. -/
def apply (self : IngestionJobOperation) (job : IngestionJob T) (now : T) :
    Except DomainError (IngestionJob T) :=
  match self with
  | start => job.start now
  | succeed => job.succeed now
  | fail failureCode => job.fail failureCode now
  | requeue => job.requeue now

/-- The status an operation leads to. -/
def target : IngestionJobOperation → IngestionJobStatus
  | start => .running
  | succeed => .succeeded
  | fail _ => .failed
  | requeue => .queued

/-- The failure code an operation is given. -/
def failureCode : IngestionJobOperation → Option Text
  | fail code => some code
  | _ => none

/-- The number of attempts an operation sets. -/
def attemptCount (self : IngestionJobOperation) (job : IngestionJob T) : Option ℤ :=
  match self with
  | start => some (job.attemptCount + 1)
  | _ => none

/-- The start time an operation sets. -/
def startedAt (self : IngestionJobOperation) (job : IngestionJob T) (now : T) : Option T :=
  match self with
  | start => some now
  | succeed => job.startedAt
  | fail _ => job.startedAt
  | requeue => none

/-- The finish time an operation sets. -/
def finishedAt (self : IngestionJobOperation) (now : T) : Option T :=
  match self with
  | start => none
  | succeed => some now
  | fail _ => some now
  | requeue => none

/-- The checks of an operation raise: its failure code is blank, the job may not change to its
target, or its time is before that of the last change. -/
def Rejects (self : IngestionJobOperation) (job : IngestionJob T) (now : T) : Prop :=
  self.failureCode.any blank = true ∨ self.target ∉ jobTransitions job.status
    ∨ now < job.updatedAt

/-- Every operation is a transition to its target. -/
theorem apply_eq (self : IngestionJobOperation) (job : IngestionJob T) (now : T) :
  self.apply job now
    = if self.failureCode.any blank then .error (.validation "failure code must not be blank")
      else job.transition self.target now (self.attemptCount job) (self.startedAt job now)
        (self.finishedAt now) self.failureCode
  := by cases self <;> rfl

theorem apply_eq_ok_iff {self : IngestionJobOperation} {job job' : IngestionJob T} {now : T} :
  self.apply job now = .ok job'
    ↔ ¬ self.Rejects job now
      ∧ job'.toIngestionJobFields
        = { job.toIngestionJobFields with
            status := self.target
            attemptCount := (self.attemptCount job).getD job.attemptCount
            updatedAt := now
            startedAt := self.startedAt job now
            finishedAt := self.finishedAt now
            failureCode := self.failureCode }
  := by
  rw [apply_eq, Rejects]
  by_cases hcode : self.failureCode.any blank = true
  · simp [hcode]
  · rw [if_neg hcode, IngestionJob.transition_eq_ok_iff_not_lt]
    simp only [hcode, false_or, not_or, not_not, and_assoc, Bool.false_eq_true]

/-- The failure code of an operation fits its target. -/
theorem fitsStatus_failureCode {self : IngestionJobOperation}
    (h : self.failureCode.any blank = false) :
  fitsStatus (self.target = .failed) self.failureCode = true
  := by
  cases self with
  | fail code => apply fitsStatus_of_not_blank h
  | _ => rfl

end IngestionJobOperation

/-- The histories of jobs: operations at their times, on a job that was created. -/
def IngestionJob.lifecycle (T : Type) [LT T] [DecidableLT T] :
    Machine (IngestionJob T) (IngestionJobOperation × T) :=
  .attempting (fun job step => step.1.apply job step.2) fun job =>
    ∃ documentId id now, IngestionJob.create documentId id now = .ok job

/-- The number of times a job is started in a history. -/
def IngestionJob.startsIn (original : IngestionJob T) (steps : List (IngestionJobOperation × T)) :
    ℕ :=
  Machine.successes (fun (job : IngestionJob T) step => step.1.apply job step.2)
    (fun step => step.1 = .start) original steps

/-- The times of a job fit its status: a queued job was neither started nor finished, a running one
was started by its last change, and the others finished by theirs. -/
structure IngestionJob.Timed (job : IngestionJob T) : Prop where
  queued : job.status = .queued → job.startedAt = none ∧ job.finishedAt = none
  running : job.status = .running → job.startedAt = some job.updatedAt ∧ job.finishedAt = none
  finished : job.status = .succeeded ∨ job.status = .failed → job.finishedAt = some job.updatedAt

theorem IngestionJob.timed_of_create {documentId id : Uuid} {now : T} {job : IngestionJob T}
    (h : IngestionJob.create documentId id now = .ok job) :
  job.Timed
  := by
  have hfields := IngestionJob.construct_eq_ok_iff.mp h
  constructor
  · intro _
    rw [hfields]
    exact ⟨rfl, rfl⟩
  · rw [hfields]
    rintro ⟨⟩
  · rw [hfields]
    rintro (⟨⟨⟩⟩ | ⟨⟨⟩⟩)

namespace IngestionJobOperation

/-- Operations keep the times of a job fitting its status. -/
theorem timed_of_apply {self : IngestionJobOperation} {job job' : IngestionJob T} {now : T}
    (h : self.apply job now = .ok job') :
  job'.Timed
  := by
  have hfields := (apply_eq_ok_iff.mp h).2
  constructor
  · rw [hfields]
    cases self with
    | requeue =>
        intro _
        exact ⟨rfl, rfl⟩
    | _ => rintro ⟨⟩
  · rw [hfields]
    cases self with
    | start =>
        intro _
        exact ⟨rfl, rfl⟩
    | _ => rintro ⟨⟩
  · rw [hfields]
    cases self with
    | succeed => exact fun _ => rfl
    | fail code => exact fun _ => rfl
    | _ => rintro (⟨⟨⟩⟩ | ⟨⟨⟩⟩)

/-- A job is not finished before it was started. -/
theorem precedes_startedAt {self : IngestionJobOperation} {job : IngestionJob T} {now : T}
    (htimed : job.Timed) (htarget : self.target ∈ jobTransitions job.status)
    (hnow : ¬ now < job.updatedAt) :
  precedes (self.finishedAt now) (self.startedAt job now) = false
  := by
  -- Only jobs that are queued or running are finished, and the latter were started by their last
  -- change.
  cases hstatus : job.status with
  | queued =>
      cases self with
      | fail code =>
          show precedes (some now) job.startedAt = false
          rw [(htimed.queued hstatus).1]
          rfl
      | succeed =>
          rw [hstatus] at htarget
          cases htarget with | tail _ h => cases h with | tail _ h => cases h
      | _ => rfl
  | running =>
      have hrunning : precedes (some now) job.startedAt = false := by
        rw [(htimed.running hstatus).1]
        apply decide_eq_false hnow
      cases self with
      | succeed => apply hrunning
      | fail code => apply hrunning
      | _ => rfl
  | succeeded =>
      rw [hstatus] at htarget
      cases htarget
  | failed =>
      cases self with
      | requeue => rfl
      | _ =>
          rw [hstatus] at htarget
          simp [jobTransitions, target] at htarget

/-- A start time that an operation sets is not before the job was created. -/
theorem precedes_createdAt {self : IngestionJobOperation} {job : IngestionJob T} {now : T}
    (hcreated : ¬ now < job.createdAt) :
  precedes (self.startedAt job now) (some job.createdAt) = false
  := by
  cases self with
  | start => apply decide_eq_false hcreated
  | succeed => apply job.times_not_lt.2.2
  | fail code => apply job.times_not_lt.2.2
  | requeue => rfl

/-- What the checks of an operation let pass, the constructor rejects only at a time before the
job was created. -/
theorem apply_isOk_iff {self : IngestionJobOperation} {job : IngestionJob T} {now : T}
    (htimed : job.Timed) :
  (∃ job', self.apply job now = .ok job')
    ↔ ¬ self.Rejects job now ∧ ¬ now < job.createdAt
  := by
  constructor
  · rintro ⟨job', h⟩
    obtain ⟨hrejects, hfields⟩ := apply_eq_ok_iff.mp h
    use hrejects
    have htime := job'.times_not_lt.2.1
    rw [hfields] at htime
    apply htime
  · rintro ⟨hrejects, hcreated⟩
    rw [Rejects, not_or, not_or, not_not, Bool.not_eq_true] at hrejects
    obtain ⟨hcode, htarget, hnow⟩ := hrejects
    rw [apply_eq, hcode, if_neg Bool.false_ne_true]
    apply IngestionJob.transition_isOk_of_not_lt htarget hnow hcreated _
      (precedes_createdAt hcreated) _ (precedes_startedAt htimed htarget hnow) _ _
      (fitsStatus_failureCode hcode)
    · have hcount := job.times_not_lt.1
      cases self with
      | start =>
          rintro n ⟨⟩
          apply Int.add_nonneg hcount Int.one_nonneg
      | _ => rintro n ⟨⟩
    · cases self with
      | succeed => exact fun f hf => (Option.some.inj hf).symm
      | fail code => exact fun f hf => (Option.some.inj hf).symm
      | _ => rintro f ⟨⟩
    · cases self with
      | start => exact fun _ => rfl
      | _ => rintro ⟨⟩
    · cases self with
      | succeed => exact fun _ => rfl
      | fail code => exact fun _ => rfl
      | _ => rintro (⟨⟨⟩⟩ | ⟨⟨⟩⟩)

theorem apply_eq_error_iff {self : IngestionJobOperation} {job : IngestionJob T} {now : T}
    (htimed : job.Timed) :
  (∃ e, self.apply job now = .error e) ↔ self.Rejects job now ∨ now < job.createdAt
  := by
  rw [exists_eq_error_iff, apply_isOk_iff htimed, not_and_or, not_not, not_not]

end IngestionJobOperation

/-- The times of a job that are present, from its creation to its last change. -/
def IngestionJob.chronology (job : IngestionJob T) : List T :=
  job.createdAt :: (job.startedAt.toList ++ (job.finishedAt.toList ++ [job.updatedAt]))

/-- What holds of a job that was changed since it was created as `original`, `starts` times by
starting it. -/
structure IngestionJob.Sound (original : IngestionJob Datetime) (starts : ℕ)
    (job : IngestionJob Datetime) : Prop where
  id_eq : job.id = original.id
  documentId_eq : job.documentId = original.documentId
  createdAt_eq : job.createdAt = original.createdAt
  ordered : job.chronology.Pairwise (· ≤ ·)
  queued : job.status = .queued →
    job.startedAt = none ∧ job.finishedAt = none ∧ job.failureCode = none
  running : job.status = .running → job.startedAt.isSome = true ∧ job.finishedAt = none
  finished : job.status = .succeeded ∨ job.status = .failed → job.finishedAt = some job.updatedAt
  failureCode_iff : job.failureCode.isSome = true ↔ job.status = .failed
  attemptCount_eq : job.attemptCount = starts

namespace IngestionJob

/-- A job has a failure code when it failed. -/
theorem failureCode_iff (self : IngestionJob T) :
  self.failureCode.isSome = true ↔ self.status = .failed
  := by
  have hvalid := firstViolation_eq_none_iff.mp self.valid
  simp only [IngestionJobFields.checks, List.mem_cons, List.not_mem_nil, or_false,
    forall_eq_or_imp, forall_eq, Bool.and_eq_false_iff, decide_eq_false_iff_not] at hvalid
  obtain ⟨-, -, -, -, -, -, -, hfailed, hother⟩ := hvalid
  apply isSome_failureCode_iff hfailed hother

/-- The start of a job is not after its last change. -/
theorem updatedAt_not_lt_startedAt {job : IngestionJob T} (hirrefl : ∀ t : T, ¬ t < t)
    (htimed : job.Timed) {started : T} (h : started ∈ job.startedAt) :
  ¬ job.updatedAt < started
  := by
  have horder : ∀ finished ∈ job.finishedAt, ¬ finished < started := by
    intro finished hfinished
    have hvalid := firstViolation_eq_none_iff.mp job.valid
    simp only [IngestionJobFields.checks, List.mem_cons, List.not_mem_nil, or_false,
      forall_eq_or_imp, forall_eq, Option.mem_def.mp hfinished, Option.mem_def.mp h] at hvalid
    apply of_decide_eq_false hvalid.2.2.2.2.1
  cases hstatus : job.status with
  | queued =>
      rw [(htimed.queued hstatus).1] at h
      cases h
  | running =>
      rw [(htimed.running hstatus).1] at h
      cases h
      apply hirrefl
  | succeeded => apply horder _ (htimed.finished (Or.inl hstatus))
  | failed => apply horder _ (htimed.finished (Or.inr hstatus))

/-- A job that finished did so by its last change. -/
theorem finishedAt_eq {job : IngestionJob T} (htimed : job.Timed) {finished : T}
    (h : finished ∈ job.finishedAt) :
  finished = job.updatedAt
  := by
  cases hstatus : job.status with
  | queued =>
      rw [(htimed.queued hstatus).2] at h
      cases h
  | running =>
      rw [(htimed.running hstatus).2] at h
      cases h
  | succeeded =>
      rw [htimed.finished (Or.inl hstatus)] at h
      exact (Option.some.inj h).symm
  | failed =>
      rw [htimed.finished (Or.inr hstatus)] at h
      exact (Option.some.inj h).symm

/-- The times of a job that are present are in order. -/
theorem pairwise_chronology {job : IngestionJob T} (hirrefl : ∀ t : T, ¬ t < t)
    (htimed : job.Timed) :
  job.chronology.Pairwise fun a b => ¬ b < a
  := by
  obtain ⟨-, hupdated, hstarted⟩ := job.times_not_lt
  rw [chronology]
  cases hs : job.startedAt with
  | none =>
      cases hf : job.finishedAt with
      | none => simpa using hupdated
      | some finished =>
          rw [finishedAt_eq htimed hf]
          simp [hupdated, hirrefl]
  | some started =>
      rw [hs] at hstarted
      have hcreated : ¬ started < job.createdAt := of_decide_eq_false hstarted
      have hlast := updatedAt_not_lt_startedAt hirrefl htimed hs
      cases hf : job.finishedAt with
      | none => simp [hupdated, hcreated, hlast]
      | some finished =>
          rw [finishedAt_eq htimed hf]
          simp [hupdated, hcreated, hlast, hirrefl]

variable {original job : IngestionJob T} {steps : List (IngestionJobOperation × T)}

/-- The times of a job fit its status throughout its history. -/
theorem timed_run (hstart : (lifecycle T).Start original)
    (hrun : (lifecycle T).run original steps = some job) :
  job.Timed
  := by
  obtain ⟨documentId, id, now, hcreate⟩ := hstart
  apply Machine.attempting_invariant (I := Timed) _ (timed_of_create hcreate) hrun
  intro job step job' _ hstep
  apply IngestionJobOperation.timed_of_apply hstep

/-- The last change of a job was made at a time of its history. -/
theorem updatedAt_mem (hrun : (lifecycle T).run original steps = some job) :
  job.updatedAt ∈ original.updatedAt :: steps.map Prod.snd
  := by
  apply Machine.attempting_mem _ hrun
  intro job step job' h
  rw [(IngestionJobOperation.apply_eq_ok_iff.mp h).2]

/-- What identifies a job does not change. -/
theorem identity_run (hrun : (lifecycle T).run original steps = some job) :
  job.id = original.id ∧ job.documentId = original.documentId
    ∧ job.createdAt = original.createdAt
  := by
  apply Machine.attempting_invariant (I := fun job : IngestionJob T => job.id = original.id
    ∧ job.documentId = original.documentId ∧ job.createdAt = original.createdAt) _
    ⟨rfl, rfl, rfl⟩ hrun
  intro job step job' h hstep
  rw [(IngestionJobOperation.apply_eq_ok_iff.mp hstep).2]
  apply h

/-- The attempts of a job are the operations that started it. -/
theorem attemptCount_run (hstart : (lifecycle T).Start original)
    (hrun : (lifecycle T).run original steps = some job) :
  job.attemptCount = original.startsIn steps
  := by
  obtain ⟨documentId, id, now, hcreate⟩ := hstart
  have hzero : original.attemptCount = 0 := by
    rw [IngestionJob.construct_eq_ok_iff.mp hcreate]
  rw [Machine.attempting_count (f := fun job : IngestionJob T => job.attemptCount) _ hrun, hzero,
    Int.zero_add, startsIn]
  intro job step job' hstep
  rw [(IngestionJobOperation.apply_eq_ok_iff.mp hstep).2]
  obtain ⟨operation, now⟩ := step
  cases operation with
  | start => rfl
  | _ => exact (Int.add_zero _).symm

/-- A job is sound throughout its history. -/
theorem sound_run {original job : IngestionJob Datetime}
    {steps : List (IngestionJobOperation × Datetime)}
    (hstart : (lifecycle Datetime).Start original)
    (hrun : (lifecycle Datetime).run original steps = some job) :
  Sound original (original.startsIn steps) job
  := by
  have htimed := timed_run hstart hrun
  obtain ⟨hid, hdocumentId, hcreatedAt⟩ := identity_run hrun
  have hcode : job.status = .queued → job.failureCode = none := by
    intro hstatus
    rw [← Option.not_isSome_iff_eq_none, failureCode_iff, hstatus]
    rintro ⟨⟩
  refine ⟨hid, hdocumentId, hcreatedAt, ?_, ?_, ?_, htimed.finished, job.failureCode_iff,
    attemptCount_run hstart hrun⟩
  · apply (pairwise_chronology Datetime.lt_irrefl htimed).imp
    intro a b hab
    apply Datetime.not_lt.mp hab
  · intro hstatus
    exact ⟨(htimed.queued hstatus).1, (htimed.queued hstatus).2, hcode hstatus⟩
  · intro hstatus
    rw [(htimed.running hstatus).1, (htimed.running hstatus).2]
    exact ⟨rfl, rfl⟩

/-- A time that is not before the last change of a job is not before its creation when the times of
its history are compared as moments. -/
theorem createdAt_not_lt {original job : IngestionJob Datetime}
    {steps : List (IngestionJobOperation × Datetime)} {now : Datetime}
    (hstart : original.updatedAt = original.createdAt)
    (hrun : (lifecycle Datetime).run original steps = some job)
    (htimes : Datetime.AsMoments (now :: original.createdAt :: steps.map Prod.snd))
    (hnow : ¬ now < job.updatedAt) :
  ¬ now < job.createdAt
  := by
  have hupdated := updatedAt_mem hrun
  have hle := job.times_not_lt.2.1
  rw [(identity_run hrun).2.2] at hle ⊢
  rw [hstart] at hupdated
  apply Datetime.not_lt_createdAt htimes hupdated hle hnow

end IngestionJob

/-! ### Main result -/

/-- The histories of documents and jobs are sound, and an operation raises when its checks do or
its time is before the creation. The latter does not occur to what the checks let pass when the
times of the history are compared as moments. -/
theorem lifecycles_sound :
  (∀ original steps document, (Document.lifecycle Datetime).Start original →
    (Document.lifecycle Datetime).run original steps = some document →
      Document.Sound original document
        ∧ ∀ (operation : DocumentOperation) (now : Datetime),
          ((∃ e, operation.apply document now = .error e)
            ↔ operation.Rejects document now ∨ now < document.createdAt)
          ∧ ((∃ e, operation.apply document now = .error e) →
            (Document.lifecycle Datetime).run original (steps ++ [(operation, now)])
              = some document)
          ∧ (Datetime.AsMoments (now :: original.createdAt :: steps.map Prod.snd) →
            ((∃ e, operation.apply document now = .error e) ↔ operation.Rejects document now)))
  ∧ ∀ original steps job, (IngestionJob.lifecycle Datetime).Start original →
    (IngestionJob.lifecycle Datetime).run original steps = some job →
      IngestionJob.Sound original (original.startsIn steps) job
        ∧ ∀ (operation : IngestionJobOperation) (now : Datetime),
          ((∃ e, operation.apply job now = .error e)
            ↔ operation.Rejects job now ∨ now < job.createdAt)
          ∧ ((∃ e, operation.apply job now = .error e) →
            (IngestionJob.lifecycle Datetime).run original (steps ++ [(operation, now)]) = some job)
          ∧ (Datetime.AsMoments (now :: original.createdAt :: steps.map Prod.snd) →
            ((∃ e, operation.apply job now = .error e) ↔ operation.Rejects job now))
  := by
  constructor
  · intro original steps document hstart hrun
    use Document.sound_run hrun
    intro operation now
    have hcreated : original.updatedAt = original.createdAt := by
      obtain ⟨id, originalFilename, storageKey, mediaType, sha256, sizeBytes, created, h⟩ := hstart
      rw [Document.construct_eq_ok_iff.mp h]
    use DocumentOperation.apply_eq_error_iff
    constructor
    · apply Machine.run_concat_of_eq_error (e := (operation, now)) hrun
    · intro htimes
      rw [DocumentOperation.apply_eq_error_iff, or_iff_left_iff_imp]
      intro hlt
      by_contra hrejects
      rw [DocumentOperation.Rejects, not_or, not_or] at hrejects
      apply Document.createdAt_not_lt hcreated hrun htimes hrejects.2.2 hlt
  · intro original steps job hstart hrun
    use IngestionJob.sound_run hstart hrun
    intro operation now
    have htimed := IngestionJob.timed_run hstart hrun
    have hcreated : original.updatedAt = original.createdAt := by
      obtain ⟨documentId, id, created, h⟩ := hstart
      rw [IngestionJob.construct_eq_ok_iff.mp h]
    use IngestionJobOperation.apply_eq_error_iff htimed
    constructor
    · apply Machine.run_concat_of_eq_error (e := (operation, now)) hrun
    · intro htimes
      rw [IngestionJobOperation.apply_eq_error_iff htimed, or_iff_left_iff_imp]
      intro hlt
      by_contra hrejects
      rw [IngestionJobOperation.Rejects, not_or, not_or] at hrejects
      apply IngestionJob.createdAt_not_lt hcreated hrun htimes hrejects.2.2 hlt

/-- Three successive moments in the night in which a zone sets its clocks back from two to one: ten
minutes before it, seen in the zone, five minutes later, seen in coordinated universal time, and ten
minutes after it, seen in the zone. -/
def Datetime.samples : Datetime × Datetime × Datetime :=
  (⟨6600000000, 1, -14400000000⟩, ⟨21300000000, 0, 0⟩, ⟨4200000000, 1, -18000000000⟩)

/-- A document that was created at the first of these moments. -/
def Document.sampleCreated : Document Datetime :=
  ⟨{ id := 1
     originalFilename := ['a']
     storageKey := ['b']
     mediaType := .text
     sha256 := List.replicate 64 'c'
     sizeBytes := 1
     status := .uploaded
     createdAt := Datetime.samples.1
     updatedAt := Datetime.samples.1
     failureCode := none }, by decide⟩

/-- The document, queued at the second of them. -/
def Document.sampleQueued : Document Datetime :=
  ⟨{ Document.sampleCreated.toDocumentFields with
     status := .queued
     updatedAt := Datetime.samples.2.1 }, by decide⟩

theorem Document.start_sampleCreated :
  (Document.lifecycle Datetime).Start Document.sampleCreated
  := ⟨1, ['a'], ['b'], .text, List.replicate 64 'c', 1, Datetime.samples.1, by decide⟩

theorem Document.run_sampleQueued :
  (Document.lifecycle Datetime).run Document.sampleCreated [(.queue, Datetime.samples.2.1)]
    = some Document.sampleQueued
  := by decide

/-- A job that was created at the second of the moments. -/
def IngestionJob.sampleCreated : IngestionJob Datetime :=
  ⟨{ id := 2
     documentId := 1
     status := .queued
     attemptCount := 0
     createdAt := Datetime.samples.2.1
     updatedAt := Datetime.samples.2.1
     startedAt := none
     finishedAt := none
     failureCode := none }, by decide⟩

theorem lifecycles_sound_sample :
  Document.Sound Document.sampleCreated Document.sampleQueued
    ∧ ((∃ e, DocumentOperation.startProcessing.apply Document.sampleQueued Datetime.samples.2.1
        = .error e)
      ↔ DocumentOperation.startProcessing.Rejects Document.sampleQueued Datetime.samples.2.1)
    ∧ ∀ job, (IngestionJob.lifecycle Datetime).run IngestionJob.sampleCreated
        [(.start, Datetime.samples.2.1), (.fail ['e'], Datetime.samples.2.1),
          (.requeue, Datetime.samples.2.1), (.start, Datetime.samples.2.1)] = some job →
      job.attemptCount = 2
  := by
  obtain ⟨hsound, hraises⟩ := lifecycles_sound.1 _ _ _ Document.start_sampleCreated
    Document.run_sampleQueued
  refine ⟨hsound, (hraises .startProcessing Datetime.samples.2.1).2.2 ?_, ?_⟩
  · apply Datetime.asMoments_of_utcoffset
    decide
  · intro job hrun
    rw [(lifecycles_sound.2 _ _ _ ⟨1, 2, Datetime.samples.2.1, by decide⟩ hrun).1.attemptCount_eq]
    decide

/-- The constructor rejects what the checks of an operation let pass: a time after the last change
that the clock of its zone shows as one before the creation. -/
theorem not_rejects_of_error_sample :
  (Document.lifecycle Datetime).Start Document.sampleCreated
    ∧ (Document.lifecycle Datetime).run Document.sampleCreated [(.queue, Datetime.samples.2.1)]
      = some Document.sampleQueued
    ∧ ¬ DocumentOperation.startProcessing.Rejects Document.sampleQueued Datetime.samples.2.2
    ∧ DocumentOperation.startProcessing.apply Document.sampleQueued Datetime.samples.2.2
      = .error (.validation "updated_at must not precede created_at")
  := ⟨Document.start_sampleCreated, Document.run_sampleQueued, by decide, by decide⟩

end KnowledgeSearch

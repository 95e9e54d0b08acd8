import KnowledgeSearch.System.Withdrawal

/-!
# Submission, all or nothing

A call of `submit` on its own, from its start to its end. `AllOrNothing` says what it may leave in
the three stores: a queued document, its job, its file and its message; nothing; or a failed
document and job with the file, and an error that names them. `System.submission_allOrNothing`
says which calls do: those that do not raise between the storing of the file and the guarded
region that removes it, and whose queue raises no other error than that of a failed dispatch.
-/

namespace KnowledgeSearch

open Database

/-! ### The rows that are built -/

/-- A valid filename is not blank. -/
theorem validateFilename_not_blank {filename safeFilename : Text}
    (h : validateFilename filename = .ok safeFilename) :
  blank filename = false
  := by
  unfold validateFilename at h
  split at h
  · cases h
  · rename_i hvalid
    simp only [Bool.or_eq_true, not_or, Bool.not_eq_true, decide_eq_true_eq, ne_eq,
      not_not] at hvalid
    obtain ⟨⟨⟨⟨⟨hempty, -⟩, hstrip⟩, -⟩, -⟩, -⟩ := hvalid
    rw [blank, ← hstrip]
    apply hempty

/-- A generated storage key is not blank. -/
theorem storageKey_not_blank (id : Uuid) (mediaType : DocumentMediaType) :
  blank (storageKey id mediaType) = false
  := by
  have hmem : '/' ∈ storageKey id mediaType := by
    simp [storageKey]
  by_contra hblank
  have hspace := blank_iff.mp (Bool.of_not_eq_false hblank) '/' hmem
  simp [isSpace] at hspace

/-- The document and the job of a stored upload are built when the clock does not go back between
the creation of the document and its transition to the queue. -/
theorem buildSubmission_isOk_iff {clock : Clock} {t : Ticket} {filename : Text}
    {stored : StoredDocument} (hname : blank filename = false)
    (hkey : stored.storageKey = storageKey t.documentId t.mediaType)
    (hsha : isSha256 stored.sha256 = true) :
  (∃ rows, buildSubmission clock t filename stored = .ok rows) ↔ clock 0 ≤ clock 1
  := by
  obtain ⟨document, hcreate⟩ : ∃ document, Document.create t.documentId filename
      stored.storageKey t.mediaType stored.sha256 stored.sizeBytes (clock 0) = .ok document := by
    have hvalid : firstViolation ({
        id := t.documentId, originalFilename := filename, storageKey := stored.storageKey
        mediaType := t.mediaType, sha256 := stored.sha256, sizeBytes := stored.sizeBytes
        status := .uploaded, createdAt := clock 0, updatedAt := clock 0
        failureCode := none } : DocumentFields).checks = none := by
      apply firstViolation_eq_none_iff.mpr
      have hblank := storageKey_not_blank t.documentId t.mediaType
      rw [← hkey] at hblank
      simp [DocumentFields.checks, hname, hblank, hsha]
    use ⟨_, hvalid⟩
    apply Document.construct_eq_ok_iff.mpr
    rfl
  have hfields := Document.construct_eq_ok_iff.mp hcreate
  have hstatus : document.status = .uploaded := congrArg DocumentFields.status hfields
  have htime : document.updatedAt = clock 0 := congrArg DocumentFields.updatedAt hfields
  constructor
  · rintro ⟨rows, hbuild⟩
    obtain ⟨document₁, hcreate₁, hbuild⟩ := bind_eq_ok_iff.mp hbuild
    obtain ⟨document₂, hqueue, -⟩ := bind_eq_ok_iff.mp hbuild
    rw [hcreate] at hcreate₁
    cases hcreate₁
    obtain ⟨-, hle, -⟩ := Document.transition_eq_ok_iff.mp (liftDomain_eq_ok_iff.mp hqueue)
    rw [← htime]
    apply hle
  · intro hle
    obtain ⟨queued, hqueue⟩ : ∃ queued, document.queue (clock 1) = .ok queued := by
      apply Document.transition_isOk
      · simp [hstatus, documentTransitions]
      · rw [htime]
        apply hle
      · rfl
    obtain ⟨job, hjob⟩ : ∃ job, IngestionJob.create queued.id t.jobId (clock 2) = .ok job := by
      have hvalid : firstViolation ({
          id := t.jobId, documentId := queued.id, status := .queued, attemptCount := 0
          createdAt := clock 2, updatedAt := clock 2, startedAt := none, finishedAt := none
          failureCode := none } : IngestionJobFields).checks = none := by
        apply firstViolation_eq_none_iff.mpr
        simp [IngestionJobFields.checks, precedes]
      use ⟨_, hvalid⟩
      apply IngestionJob.construct_eq_ok_iff.mpr
      rfl
    use (queued, job)
    simp only [buildSubmission, bind_of_eq_ok (liftDomain_eq_ok_iff.mpr hcreate),
      bind_of_eq_ok (liftDomain_eq_ok_iff.mpr hqueue), bind_of_eq_ok (liftDomain_eq_ok_iff.mpr hjob)]

/-! ### What a call may leave -/

/-- No row and no message is there for the identifiers of a document and its job. -/
structure Stores.Unlisted (s : Stores) (documentId jobId : Uuid) : Prop where
  documents : ∀ document ∈ s.db.documents, document.id ≠ documentId
  jobs : ∀ job ∈ s.db.jobs, job.documentId ≠ documentId ∧ job.id ≠ jobId
  messages : jobId ∉ s.queue

/-- No row, no message and no file is there for the identifiers of a document and its job. -/
structure Stores.Absent (s : Stores) (documentId jobId : Uuid) : Prop
    extends s.Unlisted documentId jobId where
  unfiled : s.Unfiled documentId

/-- The rows of the document and its job are those of a phase, and the file holds the content. -/
def Stores.Persisted (S : Services) (s : Stores) (p : Phase) (content : Bytes)
    (document : Document) (job : IngestionJob) : Prop :=
  s.db.At document.id p document job ∧ s.fs.read S.root document.storageKey = .ok content

/-- What a call of `submit` may have done when it ends: it returns, and the document, its job, its
file and a message are there; or it raises, and either nothing is there, or the document and its
job have failed, with their file, and the error names them. -/
def Submission.AllOrNothing (S : Services) (s : Stores) (documentId jobId : Uuid)
    (content : Bytes) : Submission → Prop
  | returned document job =>
      document.id = documentId ∧ job.id = jobId ∧ s.Persisted S .queued content document job
        ∧ s.queue.count jobId = 1
  | raised error =>
      Xor (s.Absent documentId jobId)
        (∃ message document job,
          error = .queueDispatch message (some documentId) (some jobId)
          ∧ document.id = documentId ∧ job.id = jobId
          ∧ s.Persisted S .failed content document job
          ∧ document.failureCode = some "queue_unavailable".toList
          ∧ job.failureCode = some "queue_unavailable".toList)
  | _ => False

/-- The event begins a call. -/
def SubmissionEvent.IsBegin : SubmissionEvent → Prop
  | begin _ _ _ _ _ => True
  | _ => False

/-- The step does not raise where the call does not clean up: between the creation of the document
and its transition to the queue the clock does not go back, and the queue raises no error but that
of a failed dispatch. -/
def SubmissionEvent.Guarded : SubmissionEvent → Prop
  | build clock => clock 0 ≤ clock 1
  | enqueue outcome => ∀ error delivered, outcome ≠ .raised error delivered
  | _ => True

/-- The compensating calls of a call of `submit` succeed, a queue that raises has delivered
nothing, and the process does not die. -/
def Submission.Compensates (s : Stores) (submission : Submission) : SubmissionEvent → Prop
  | .removeFile fault => fault = none
  | .markDispatchFailed clock fault => ∀ document job message,
      submission = .undelivered document job message →
        ∃ db, transaction fault (markDispatchFailed clock document.id job.id s.db) = .ok db
  | .enqueue outcome => ∀ delivered,
      (∃ message, outcome = .rejected message delivered)
        ∨ (∃ error, outcome = .raised error delivered) → delivered = false
  | .crash => False
  | _ => True

/-! ### The steps of a call on its own -/

namespace Submission

variable {S : Services} {s s' : Stores} {t : Ticket} {submission submission' : Submission}
  {event : SubmissionEvent} {tickets : List Ticket}

/-- A call that raises with nothing left. -/
theorem allOrNothing_of_absent {documentId jobId : Uuid} {content : Bytes} {error : AppError}
    (h : s.Absent documentId jobId) :
  (raised error).AllOrNothing S s documentId jobId content
  := by
  left
  use h
  rintro ⟨message, document, job, -, hid, -, ⟨hat, -⟩, -⟩
  apply h.documents document hat.document_mem hid

/-- A call that raises with its rows queued. -/
theorem not_allOrNothing_of_queued {documentId jobId : Uuid} {content : Bytes} {error : AppError}
    {document : Document} {job : IngestionJob} (h : s.db.At documentId .queued document job) :
  ¬ (raised error).AllOrNothing S s documentId jobId content
  := by
  rintro (⟨habsent, -⟩ | ⟨⟨_, document', job', -, rfl, -, ⟨hat, -⟩, -⟩, -⟩)
  · apply habsent.documents document h.document_mem h.document_id
  · obtain ⟨hphase, -⟩ := h.unique hat
    cases hphase

/-- A call that raises with its file stored and no rows. -/
theorem not_allOrNothing_of_unlisted {documentId jobId : Uuid} {content : Bytes}
    {error : AppError} (h : s.Unlisted documentId jobId) (hfiled : ¬ s.Unfiled documentId) :
  ¬ (raised error).AllOrNothing S s documentId jobId content
  := by
  rintro (⟨habsent, -⟩ | ⟨⟨_, document', job', -, hid, -, ⟨hat, -⟩, -⟩, -⟩)
  · apply hfiled habsent.unfiled
  · apply h.documents document' hat.document_mem hid

/-- A file that can be read is in the directory of its document. -/
theorem not_unfiled_of_read {content : Bytes}
    (h : s.fs.read S.root (storageKey t.documentId t.mediaType) = .ok content) :
  ¬ s.Unfiled t.documentId
  := by
  intro hunfiled
  obtain ⟨file, hfile, -⟩ := FileSystem.read_eq_ok_iff.mp h
  obtain ⟨hmem, hpath⟩ := Table.get_eq_some_iff.mp hfile
  apply hunfiled file hmem
  rw [hpath]
  rfl

/-- Where a call of `submit` stands that is under way, and what it has left so far. -/
inductive Underway (S : Services) (s : Stores) (t : Ticket) : Submission → Prop
  | accepted {filename : Text} {source : List Bytes} (hname : blank filename = false)
      (hcontent : t.content = sourceBytes source) (h : s.Absent t.documentId t.jobId) :
      Underway S s t (.accepted t filename source)
  | saved {filename : Text} {stored : StoredDocument} (hname : blank filename = false)
      (hkey : stored.storageKey = storageKey t.documentId t.mediaType)
      (hsha : isSha256 stored.sha256 = true) (h : s.Unlisted t.documentId t.jobId)
      (hread : s.fs.read S.root (storageKey t.documentId t.mediaType) = .ok t.content) :
      Underway S s t (.saved t filename stored)
  | stored {document : Document} {job : IngestionJob} {submission : Submission}
      (hstands : submission = .built document job ∨ submission = .conflicted document job
        ∨ ∃ error, submission = .compensating document job error)
      (hnames : t.Names document) (hjob : job.id = t.jobId)
      (h : s.Unlisted t.documentId t.jobId)
      (hread : s.fs.read S.root (storageKey t.documentId t.mediaType) = .ok t.content) :
      Underway S s t submission
  | lookingUp {document : Document} {job : IngestionJob} (h : s.Absent t.documentId t.jobId) :
      Underway S s t (.lookingUp document job)
  | persisted {document : Document} {job : IngestionJob} {submission : Submission}
      (hstands : submission = .inserted document job
        ∨ ∃ message, submission = .undelivered document job message)
      (hnames : t.Names document) (hjob : job.id = t.jobId)
      (h : s.Persisted S .queued t.content document job) (hmessages : t.jobId ∉ s.queue) :
      Underway S s t submission

/-- What a step leads to: the call goes on and the step was guarded, or the call ends, and it was
all or nothing exactly when the step was guarded. -/
def Advances (S : Services) (s' : Stores) (t : Ticket) (event : SubmissionEvent)
    (submission' : Submission) : Prop :=
  (submission'.Underway S s' t ∧ event.Guarded)
    ∨ submission'.ids = none
      ∧ (submission'.AllOrNothing S s' t.documentId t.jobId t.content ↔ event.Guarded)

/-- A guarded step after which the call has ended with nothing left. -/
theorem Advances.absent {error : AppError} (hguarded : event.Guarded)
    (h : s'.Absent t.documentId t.jobId) :
  Advances S s' t event (raised error)
  := by
  right
  use rfl
  apply iff_of_true (allOrNothing_of_absent h) hguarded

namespace Underway

/-- Storing the file. -/
theorem save {filename : Text} {source : List Bytes} {fault : Option SaveFault}
    (hname : blank filename = false) (hcontent : t.content = sourceBytes source)
    (h : s.Absent t.documentId t.jobId)
    (hstep : (Submission.accepted t filename source).step S s (.save fault) = some (s', submission')) :
  Advances S s' t (.save fault) submission'
  := by
  simp only [step] at hstep
  split at hstep
  · rename_i fs e hsave
    cases hstep
    obtain ⟨-, ⟨_, -, hfiles⟩ | ⟨hok, -⟩⟩ := FileSystem.save_spec hsave
    · apply Advances.absent
      · trivial
      constructor
      · use h.documents, h.jobs, h.messages
      · intro f hf
        rw [hfiles] at hf
        apply h.unfiled f hf
    · cases hok
  · rename_i fs stored hsave
    cases hstep
    obtain ⟨-, ⟨_, herror, -⟩ | ⟨hok, hfiles⟩⟩ := FileSystem.save_spec hsave
    · cases herror
    · obtain rfl := Except.ok.inj hok
      have hunlisted : ({ s with fs } : Stores).Unlisted t.documentId t.jobId := by
        use h.documents, h.jobs, h.messages
      have hread : ({ s with fs } : Stores).fs.read S.root (storageKey t.documentId t.mediaType)
          = .ok t.content := by
        apply FileSystem.read_eq_ok_iff.mpr
        use ⟨[t.documentId.text, sourceName t.mediaType], sourceBytes source⟩
        rw [hfiles, Table.get_put, if_pos rfl]
        use rfl, hcontent.symm
      left
      exact ⟨Underway.saved hname rfl (S.isSha256_sha256 _) hunlisted hread, trivial⟩

/-- Building the rows. -/
theorem build {filename : Text} {stored : StoredDocument} {clock : Clock}
    (hname : blank filename = false)
    (hkey : stored.storageKey = storageKey t.documentId t.mediaType)
    (hsha : isSha256 stored.sha256 = true) (h : s.Unlisted t.documentId t.jobId)
    (hread : s.fs.read S.root (storageKey t.documentId t.mediaType) = .ok t.content)
    (hstep : (Submission.saved t filename stored).step S s (.build clock) = some (s', submission')) :
  Advances S s' t (.build clock) submission'
  := by
  have hisOk : (∃ rows, buildSubmission clock t filename stored = .ok rows) ↔ clock 0 ≤ clock 1 :=
    buildSubmission_isOk_iff hname hkey hsha
  simp only [step] at hstep
  split at hstep
  · rename_i e hbuild
    cases hstep
    right
    use rfl
    apply iff_of_false
    · apply not_allOrNothing_of_unlisted h (not_unfiled_of_read hread)
    · -- the clock went back
      intro hguarded
      obtain ⟨rows, hok⟩ := hisOk.mpr hguarded
      rw [hok] at hbuild
      cases hbuild
  · rename_i document job hbuild
    cases hstep
    obtain ⟨-, hid, hmedia, hdocumentKey, -, -, -, hjobId, -⟩ := buildSubmission_spec hbuild
    left
    constructor
    · apply Underway.stored (Or.inl rfl) _ hjobId h hread
      use hid, hmedia
      rw [hdocumentKey, hkey]
    · apply hisOk.mp ⟨_, hbuild⟩

/-- Inserting the rows. -/
theorem insert {document : Document} {job : IngestionJob} {fault : Option AppError}
    (hdb : s.db.Coherent) (hfollows : (built document job).Follows tickets)
    (hnames : t.Names document) (hjob : job.id = t.jobId) (h : s.Unlisted t.documentId t.jobId)
    (hread : s.fs.read S.root (storageKey t.documentId t.mediaType) = .ok t.content)
    (hstep : (built document job).step S s (.insert fault) = some (s', submission')) :
  Advances S s' t (.insert fault) submission'
  := by
  obtain ⟨u, -, hnames', hjobDocument, -, hqueued, hjobQueued, hcount⟩ := hfollows
  simp only [step] at hstep
  split at hstep
  · cases hstep
    left
    use Underway.stored (Or.inr (Or.inl rfl)) hnames hjob h hread
    trivial
  · cases hstep
    left
    use Underway.stored (Or.inr (Or.inr ⟨_, rfl⟩)) hnames hjob h hread
    trivial
  · rename_i db hinsert
    cases hstep
    have hinserted := insertSubmission_eq_ok hqueued hjobQueued hcount
      (hjobDocument.trans hnames'.id_eq.symm) (transaction_eq_ok_iff.mp hinsert).2
    have hpersisted : ({ s with db } : Stores).Persisted S .queued t.content document job := by
      use hinserted.at_self hdb
      rw [hnames.storageKey_eq]
      apply hread
    left
    exact ⟨Underway.persisted (Or.inl rfl) hnames hjob hpersisted h.messages, trivial⟩

/-- Removing the file once the rows could not be inserted. -/
theorem remove {document : Document} (hs : s.Follows tickets) (hdistinct : Distinct tickets)
    (ht : t ∈ tickets) (hnames : t.Names document) (h : s.Unlisted t.documentId t.jobId) :
  ∃ fs, s.fs.delete S.root document.storageKey = .ok fs
    ∧ ({ s with fs } : Stores).Absent t.documentId t.jobId
  := by
  rw [hnames.storageKey_eq]
  obtain ⟨fs, hdelete⟩ : ∃ fs, s.fs.delete S.root (storageKey t.documentId t.mediaType) = .ok fs := by
    apply FileSystem.delete_isOk hs.shallow
    intro f hf
    obtain ⟨u, -, rfl⟩ := hs.files f hf
    rfl
  use fs, hdelete
  constructor
  · use h.documents, h.jobs, h.messages
  · apply hs.unfiled_delete hdistinct ht hdelete

/-- Sending the message. -/
theorem enqueue {document : Document} {job : IngestionJob} {outcome : EnqueueOutcome}
    (hnames : t.Names document) (hjob : job.id = t.jobId)
    (h : s.Persisted S .queued t.content document job) (hmessages : t.jobId ∉ s.queue)
    (hcompensates : (inserted document job).Compensates s (.enqueue outcome))
    (hstep : (inserted document job).step S s (.enqueue outcome) = some (s', submission')) :
  Advances S s' t (.enqueue outcome) submission'
  := by
  cases outcome with
  | accepted =>
      cases hstep
      right
      use rfl
      apply iff_of_true
      · use hnames.id_eq, hjob, h
        simp [Stores.deliver, hjob, List.count_append, List.count_eq_zero_of_not_mem hmessages]
      · intro error delivered houtcome
        cases houtcome
  | rejected message delivered =>
      obtain rfl := hcompensates delivered (Or.inl ⟨message, rfl⟩)
      cases hstep
      left
      constructor
      · exact Underway.persisted (Or.inr ⟨message, rfl⟩) hnames hjob h hmessages
      · intro error delivered houtcome
        cases houtcome
  | raised error delivered =>
      obtain rfl := hcompensates delivered (Or.inr ⟨error, rfl⟩)
      cases hstep
      right
      use rfl
      apply iff_of_false
      · have hat := h.1
        rw [hnames.id_eq] at hat
        apply not_allOrNothing_of_queued hat
      · intro hguarded
        apply hguarded error false rfl

/-- Recording that the message was not sent. -/
theorem fail {document : Document} {job : IngestionJob} {message : String} {clock : Clock}
    {fault : Option AppError} (hdb : s.db.Coherent) (hlinked : s.db.Linked document.id job.id)
    (hnames : t.Names document) (hjob : job.id = t.jobId)
    (h : s.Persisted S .queued t.content document job)
    (hcompensates : (undelivered document job message).Compensates s
      (.markDispatchFailed clock fault))
    (hstep : (undelivered document job message).step S s (.markDispatchFailed clock fault)
      = some (s', submission')) :
  Advances S s' t (.markDispatchFailed clock fault) submission'
  := by
  obtain ⟨hat, hread⟩ := h
  obtain ⟨db, hmark⟩ := hcompensates document job message rfl
  simp only [Submission.step, hmark] at hstep
  cases hstep
  right
  use rfl
  rcases markDispatchFailed_eq_ok hlinked hdb (transaction_eq_ok_iff.mp hmark).2
    with ⟨-, hnone⟩ | ⟨row, document', job₁, job', hid, hmoved, hcode, hjobCode⟩
  · rw [getDocument, hat.get_document] at hnone
    cases hnone
  · obtain rfl := Table.eq_of_key_eq hmoved.document_mem hat.document_mem hid
    obtain rfl := hat.job_unique job₁ hmoved.job_mem hmoved.job_document
    obtain ⟨q, hnext, hat'⟩ := hmoved.at_self hat
    cases hnext
    have hid' : document'.id = row.id := hmoved.document_revises.id_eq
    have hpersisted : ({ s with db } : Stores).Persisted S .failed t.content document' job' := by
      rw [← hid'] at hat'
      use hat'
      rw [hmoved.document_revises.storageKey_eq]
      apply hread
    apply iff_of_true
    · right
      constructor
      · use message, document', job'
        rw [hnames.id_eq, hjob]
        use rfl, hid'.trans hnames.id_eq, hmoved.job_revises.1.trans hjob
      · intro habsent
        apply habsent.documents document' hat'.document_mem (hid'.trans hnames.id_eq)
    · trivial

/-- The steps of a call on its own. -/
theorem step (hs : s.Follows tickets) (hdistinct : Distinct tickets) (ht : t ∈ tickets)
    (hdb : s.db.Coherent)
    (hlinked : ∀ ids, submission.ids = some ids → s.db.Linked ids.1 ids.2)
    (hfollows : submission.Follows tickets) (h : submission.Underway S s t)
    (hcompensates : submission.Compensates s event)
    (hstep : submission.step S s event = some (s', submission')) :
  Advances S s' t event submission'
  := by
  cases h with
  | accepted hname hcontent habsent =>
      cases event with
      | save fault => apply save hname hcontent habsent hstep
      | crash => cases hcompensates
      | _ => cases hstep
  | saved hname hkey hsha hunlisted hread =>
      cases event with
      | build clock => apply build hname hkey hsha hunlisted hread hstep
      | crash => cases hcompensates
      | _ => cases hstep
  | @stored document job submission hstands hnames hjob hunlisted hread =>
      obtain ⟨fs, hdelete, habsent⟩ := remove (S := S) hs hdistinct ht hnames hunlisted
      rcases hstands with rfl | rfl | ⟨error, rfl⟩
      · cases event with
        | insert fault => apply insert hdb hfollows hnames hjob hunlisted hread hstep
        | crash => cases hcompensates
        | _ => cases hstep
      · cases event with
        | removeFile fault =>
            obtain rfl : fault = none := hcompensates
            simp only [Submission.step, transaction_none, hdelete] at hstep
            cases hstep
            left
            exact ⟨Underway.lookingUp habsent, trivial⟩
        | crash => cases hcompensates
        | _ => cases hstep
      · cases event with
        | removeFile fault =>
            obtain rfl : fault = none := hcompensates
            simp only [Submission.step, transaction_none, hdelete] at hstep
            cases hstep
            exact Advances.absent trivial habsent
        | crash => cases hcompensates
        | _ => cases hstep
  | lookingUp habsent =>
      cases event with
      | lookUp fault =>
          simp only [Submission.step] at hstep
          split at hstep <;> cases hstep <;> exact Advances.absent trivial habsent
      | crash => cases hcompensates
      | _ => cases hstep
  | @persisted document job submission hstands hnames hjob hpersisted hmessages =>
      rcases hstands with rfl | ⟨message, rfl⟩
      · cases event with
        | enqueue outcome => apply enqueue hnames hjob hpersisted hmessages hcompensates hstep
        | crash => cases hcompensates
        | _ => cases hstep
      · cases event with
        | markDispatchFailed clock fault =>
            apply fail hdb (hlinked _ rfl) hnames hjob hpersisted hcompensates hstep
        | crash => cases hcompensates
        | _ => cases hstep

/-- A call that is under way has not ended. -/
theorem ids_ne_none (h : submission.Underway S s t) :
  submission.ids ≠ none
  := by
  cases h with
  | stored hstands => rcases hstands with rfl | rfl | ⟨_, rfl⟩ <;> simp [Submission.ids]
  | persisted hstands => rcases hstands with rfl | ⟨_, rfl⟩ <;> simp [Submission.ids]
  | _ => simp [Submission.ids]

end Underway

/-- The start of a call with new identifiers: the upload is accepted, or refused with nothing
left. -/
theorem begin_cases {filename : Text} {contentType : Option Text} {source : List Bytes}
    {documentId jobId : Uuid} (h : s.Absent documentId jobId)
    (hstep : submission.step S s (.begin filename contentType source documentId jobId)
      = some (s', submission')) :
  (∃ t : Ticket, t.documentId = documentId ∧ t.jobId = jobId ∧ t.content = sourceBytes source
      ∧ (∀ {issued issued'}, issue issued submission' = some issued' → t ∈ issued')
      ∧ submission'.Underway S s' t)
    ∨ submission'.ids = none
      ∧ submission'.AllOrNothing S s' documentId jobId (sourceBytes source)
  := by
  simp only [step] at hstep
  split at hstep
  · cases hstep
  split at hstep
  · cases hstep
    right
    use rfl
    apply allOrNothing_of_absent h
  rename_i safeFilename hname
  split at hstep
  · cases hstep
    right
    use rfl
    apply allOrNothing_of_absent h
  · rename_i mediaType hmedia
    cases hstep
    left
    use ⟨documentId, jobId, mediaType, sourceBytes source⟩, rfl, rfl, rfl
    constructor
    · intro issued issued' hissue
      simp only [issue] at hissue
      split at hissue
      · obtain rfl := Option.some.inj hissue
        apply List.mem_cons_self
      · cases hissue
    · have hblank := validateFilename_not_blank hname
      rw [validateFilename_eq_ok hname] at hblank
      apply Underway.accepted hblank rfl h

/-- A call that has ended takes no further step. -/
theorem step_of_ended (hended : submission.ids = none) (hevent : ¬ event.IsBegin) :
  submission.step S s event ≠ some (s', submission')
  := by
  intro h
  cases event with
  | begin => exact hevent trivial
  | crash => simp [step, hended] at h
  | _ => cases submission <;> first | (cases hended; done) | cases h

end Submission

/-! ### Messages -/

/-- A submission sends a message for its own job only. -/
theorem Submission.mem_queue_of_step {S : Services} {s s' : Stores}
    {submission submission' : Submission} {event : SubmissionEvent}
    (h : submission.step S s event = some (s', submission')) {id : Uuid} (hid : id ∈ s'.queue) :
  id ∈ s.queue ∨ ∃ document job, submission = .inserted document job ∧ job.id = id
  := by
  cases event with
  | enqueue outcome =>
      cases submission with
      | inserted document job =>
          have hdeliver : ∀ delivered, id ∈ (s.deliver delivered job.id).queue →
              id ∈ s.queue ∨ job.id = id := by
            intro delivered hmem
            cases delivered with
            | false => apply Or.inl hmem
            | true =>
                rcases List.mem_append.mp hmem with hold | hnew
                · apply Or.inl hold
                · apply Or.inr (List.mem_singleton.mp hnew).symm
          have hmem : ∃ delivered, id ∈ (s.deliver delivered job.id).queue := by
            simp only [step] at h
            split at h <;> cases h <;> exact ⟨_, hid⟩
          obtain ⟨delivered, hmem⟩ := hmem
          rcases hdeliver delivered hmem with hold | hnew
          · apply Or.inl hold
          · right
            use document, job
      | _ => cases h
  | begin filename contentType source documentId jobId =>
      left
      simp only [step] at h
      split at h
      · cases h
      split at h
      · cases h
        apply hid
      split at h <;> cases h <;> exact hid
  | save fault =>
      left
      cases submission with
      | accepted t filename source =>
          simp only [step] at h
          split at h <;> cases h <;> exact hid
      | _ => cases h
  | build clock =>
      left
      cases submission with
      | saved t filename stored =>
          simp only [step] at h
          split at h <;> cases h <;> exact hid
      | _ => cases h
  | insert fault =>
      left
      cases submission with
      | built document job =>
          simp only [step] at h
          split at h <;> cases h <;> exact hid
      | _ => cases h
  | removeFile fault =>
      left
      cases submission with
      | conflicted document job | compensating document job error =>
          simp only [step] at h
          split at h <;> cases h <;> exact hid
      | _ => cases h
  | lookUp fault =>
      left
      cases submission with
      | lookingUp document job =>
          simp only [step] at h
          split at h <;> cases h <;> exact hid
      | _ => cases h
  | markDispatchFailed clock fault =>
      left
      cases submission with
      | undelivered document job message =>
          simp only [step] at h
          split at h <;> cases h <;> exact hid
      | _ => cases h
  | crash =>
      left
      simp only [step] at h
      split at h <;> cases h
      exact hid

/-- A deletion sends no messages. -/
theorem Deletion.mem_queue_of_step {S : Services} {s s' : Stores} {deletion deletion' : Deletion}
    {event : DeletionEvent} (h : deletion.step S s event = some (s', deletion')) {id : Uuid}
    (hid : id ∈ s'.queue) :
  id ∈ s.queue
  := by
  cases event with
  | cancel fault =>
      cases deletion with
      | cancelling document jobIds =>
          cases jobIds with
          | nil => cases h
          | cons jobId jobIds =>
              simp only [step] at h
              split at h
              · cases h
                apply hid
              · cases h
                apply List.mem_of_mem_filter hid
      | _ => cases h
  | mark documentId clock fault =>
      simp only [step] at h
      split at h
      · cases h
      split at h <;> cases h <;> exact hid
  | clear fault =>
      cases deletion with
      | clearing document =>
          simp only [step] at h
          split at h <;> cases h <;> exact hid
      | _ => cases h
  | removeFile fault =>
      cases deletion with
      | removing document =>
          simp only [step] at h
          split at h <;> cases h <;> exact hid
      | _ => cases h
  | finish fault =>
      cases deletion with
      | finishing document =>
          simp only [step] at h
          split at h <;> cases h <;> exact hid
      | _ => cases h
  | crash =>
      simp only [step] at h
      split at h <;> cases h
      exact hid

/-- A delivery sends no messages. -/
theorem Delivery.Steps.queue_eq {S : Services} {s s' : Stores} {delivery delivery' : Delivery}
    {event : DeliveryEvent} (h : Delivery.Steps S s delivery event s' delivery') :
  s'.queue = s.queue
  := by
  cases h <;> rfl

namespace System

variable {S : Services} {s s' : System} {i : ℕ} {t : Ticket} {documentId jobId : Uuid}

/-- The messages are for jobs of tickets. -/
def Posted (s : System) : Prop :=
  ∀ id ∈ s.stores.queue, ∃ t ∈ s.issued, t.jobId = id

/-- Every step preserves that the messages are for jobs of tickets. -/
theorem Posted.step {e : Event} (h : s.Posted) (hs : s.Sound S)
    (hstep : System.step S s e = some s') :
  s'.Posted
  := by
  intro id hid
  rcases step_eq_some hstep with ⟨i, event, stores, submission, issued, -, hsub, hissue, rfl⟩
    | ⟨i, event, stores, delivery, -, hdel, rfl⟩ | ⟨i, event, stores, deletion, -, hdel, rfl⟩
  · have hissued : ∃ t ∈ s.issued, t.jobId = id := by
      rcases Submission.mem_queue_of_step hsub hid with hold | ⟨document, job, hi, rfl⟩
      · apply h id hold
      · have hfollows := hs.submissions i
        rw [hi] at hfollows
        obtain ⟨t, ht, -, -, hjobId, -⟩ := hfollows
        use t, ht, hjobId.symm
    obtain ⟨t, ht, hjobId⟩ := hissued
    use t, subset_of_issue hissue ht
  · have hqueue : stores.queue = s.stores.queue := (hs.delivery_steps hdel).queue_eq
    apply h id
    rw [← hqueue]
    apply hid
  · apply h id (Deletion.mem_queue_of_step hdel hid)

theorem Posted.of_reachable (h : (machine S).Reachable s) :
  s.Posted
  := by
  have hboth : s.Sound S ∧ s.Posted := by
    apply h.induction
    · rintro s rfl
      use Sound.initial
      simp [Posted, initial, Stores.initial]
    · rintro s e s' ⟨hs, hposted⟩ hstep
      use hs.step hstep, hposted.step hs hstep
  apply hboth.2

/-! ### The run of a call on its own -/

/-- No submission has drawn the identifiers. -/
def Fresh (s : System) (documentId jobId : Uuid) : Prop :=
  ∀ u ∈ s.issued, u.documentId ≠ documentId ∧ u.jobId ≠ jobId

/-- Nothing is there for identifiers that no submission drew. -/
theorem Fresh.absent (h : s.Fresh documentId jobId) (hs : s.Sound S) (hposted : s.Posted) :
  s.stores.Absent documentId jobId
  := by
  constructor
  · constructor
    · rintro document hdocument hid
      obtain ⟨u, hu, hnames⟩ := hs.ticket hdocument
      apply (h u hu).1
      rw [← hnames.id_eq, hid]
    · intro job hjob
      obtain ⟨u, hu, hdocument, hid⟩ := hs.stores.jobs job hjob
      rw [hdocument, hid]
      apply h u hu
    · intro hmem
      obtain ⟨u, hu, hid⟩ := hposted jobId hmem
      apply (h u hu).2 hid
  · intro f hf hhead
    obtain ⟨u, hu, rfl⟩ := hs.stores.files f hf
    apply (h u hu).1
    apply Uuid.text_injective
    apply Option.some.inj hhead

/-- The compensating calls of the submissions succeed. -/
def Compensates (s : System) : Event → Prop
  | .submission i event => (s.submissions i).Compensates s.stores event
  | _ => True

/-- A step of a submission. -/
theorem step_submission {event : SubmissionEvent}
    (h : step S s (.submission i event) = some s') :
  (s.submissions i).step S s.stores event = some (s'.stores, s'.submissions i)
    ∧ issue s.issued (s'.submissions i) = some s'.issued
  := by
  rcases step_eq_some h with ⟨_, _, stores, submission, issued, heq, hstep, hissue, rfl⟩
    | ⟨_, _, _, _, heq, -⟩ | ⟨_, _, _, _, heq, -⟩
  · cases heq
    simp only [Function.update_self]
    use hstep, hissue
  · cases heq
  · cases heq

/-- Once it is under way, a call of `submit` on its own is all or nothing exactly when its steps
are guarded. -/
theorem allOrNothing_of_underway : ∀ {es : List SubmissionEvent} {s : System}, s.Sound S →
    t ∈ s.issued → (s.submissions i).Underway S s.stores t →
    (machine S).run s (es.map (.submission i)) = some s' →
    (machine S).Meets Compensates s (es.map (.submission i)) →
    (∀ event ∈ es, ¬ event.IsBegin) → (s'.submissions i).ids = none →
    ((s'.submissions i).AllOrNothing S s'.stores t.documentId t.jobId t.content
      ↔ ∀ event ∈ es, event.Guarded)
  | [], s, _, _, h, hrun, _, _, hended => by
      obtain rfl := Option.some.inj hrun
      exact absurd hended h.ids_ne_none
  | event :: es, s, hs, ht, h, hrun, hmeets, hcall, hended => by
      obtain ⟨s₁, hstep, hrun⟩ := (machine S).run_cons_iff.mp hrun
      obtain ⟨hcompensates, hmeets⟩ := hmeets
      have hrest : ∀ event ∈ es, ¬ event.IsBegin := by
        intro event' hevent'
        apply hcall event' (List.mem_cons_of_mem event hevent')
      obtain ⟨hsub, hissue⟩ := step_submission hstep
      have hs₁ : s₁.Sound S := hs.step (e := .submission i event) hstep
      rw [List.forall_mem_cons]
      rcases Submission.Underway.step hs.stores hs.distinct ht hs.coherent
        (fun ids hids => hs.linked_submission hids) (hs.submissions i) h hcompensates hsub
        with ⟨hunderway, hguarded⟩ | ⟨hended₁, hiff⟩
      · rw [and_iff_right hguarded]
        apply allOrNothing_of_underway hs₁ (subset_of_issue hissue ht) hunderway hrun
          (hmeets s₁ hstep) hrest hended
      · -- the call has ended, so that no events are left
        cases es with
        | nil =>
            obtain rfl := Option.some.inj hrun
            rw [hiff, and_iff_left]
            simp
        | cons event' es =>
            obtain ⟨s₂, hstep₂, -⟩ := (machine S).run_cons_iff.mp hrun
            obtain ⟨hsub₂, -⟩ := step_submission hstep₂
            exact absurd hsub₂ (Submission.step_of_ended hended₁ (hrest event' List.mem_cons_self))

/-- A call of `submit` on its own whose compensating calls succeed is all or nothing, whatever
else raises, exactly when it does not raise where it does not clean up. -/
theorem submission_allOrNothing {filename : Text} {contentType : Option Text} {source : List Bytes}
    {es : List SubmissionEvent} (hreachable : (machine S).Reachable s)
    (hfresh : s.Fresh documentId jobId)
    (hrun : (machine S).run s ((.begin filename contentType source documentId jobId :: es).map
      (.submission i)) = some s')
    (hcompensates : (machine S).Meets Compensates s
      ((.begin filename contentType source documentId jobId :: es).map (.submission i)))
    (hcall : ∀ event ∈ es, ¬ event.IsBegin) (hended : (s'.submissions i).ids = none) :
  (s'.submissions i).AllOrNothing S s'.stores documentId jobId (sourceBytes source)
    ↔ ∀ event ∈ es, event.Guarded
  := by
  have hs := Sound.of_reachable hreachable
  have habsent := hfresh.absent hs (Posted.of_reachable hreachable)
  obtain ⟨s₁, hstep, hrest⟩ := (machine S).run_cons_iff.mp hrun
  obtain ⟨hsub, hissue⟩ := step_submission hstep
  rcases Submission.begin_cases habsent hsub
    with ⟨t, rfl, rfl, hcontent, hmem, hunderway⟩ | ⟨hended₁, hall⟩
  · rw [← hcontent]
    have hs₁ : s₁.Sound S := hs.step (e := .submission i _) hstep
    apply allOrNothing_of_underway hs₁ (hmem hissue) hunderway hrest (hcompensates.2 s₁ hstep) hcall
      hended
  · cases es with
    | nil =>
        obtain rfl := Option.some.inj hrest
        apply iff_of_true hall
        simp
    | cons event es =>
        obtain ⟨s₂, hstep₂, -⟩ := (machine S).run_cons_iff.mp hrest
        obtain ⟨hsub₂, -⟩ := step_submission hstep₂
        exact absurd hsub₂ (Submission.step_of_ended hended₁ (hcall event List.mem_cons_self))

/-- The steps of the upload of the sample document after its start. -/
def sampleSubmission (clock : Clock) : List SubmissionEvent :=
  [.save none, .build clock, .insert none, .enqueue .accepted]

/-- Nothing raises in the upload of the sample document, and the upload is all or nothing. -/
theorem submission_allOrNothing_sample :
  ((sampleAfter sampleUpload).submissions 0).AllOrNothing .sample (sampleAfter sampleUpload).stores
    Services.sampleDocumentId sampleJobId (sourceBytes [Services.sampleContent])
  := by
  have hreachable : (machine .sample).Reachable initial := ⟨initial, [], rfl, rfl⟩
  have hfresh : initial.Fresh Services.sampleDocumentId sampleJobId := by
    simp [Fresh, initial]
  have hrun : (machine .sample).run initial
      ((.begin "alpha.txt".toList (some "text/plain".toList) [Services.sampleContent]
        Services.sampleDocumentId sampleJobId :: sampleSubmission (clockFrom 0)).map
        (.submission 0)) = some (sampleAfter sampleUpload) :=
    run_sampleAfter [] _ (by decide +kernel)
  apply (submission_allOrNothing hreachable hfresh hrun _ _ _).mpr
  · simp [sampleSubmission, SubmissionEvent.Guarded, clockFrom]
  · apply Machine.meets_of_forall
    simp [sampleSubmission, Compensates, Submission.Compensates]
  · simp [sampleSubmission, SubmissionEvent.IsBegin]
  · decide +kernel

/-- The clock goes back between the creation of the sample document and its transition to the
queue. -/
def sampleClockBack : List Event :=
  (.begin "alpha.txt".toList (some "text/plain".toList) [Services.sampleContent]
    Services.sampleDocumentId sampleJobId :: [.save none, .build fun n => 10 - n]).map
    (.submission 0)

/-- A call whose clock goes back leaves its file. -/
theorem not_allOrNothing_sampleClockBack :
  ¬ ∀ S s s' i filename contentType source documentId jobId es,
    (machine S).Reachable s → s.Fresh documentId jobId →
    (machine S).run s ((SubmissionEvent.begin filename contentType source documentId jobId :: es).map
      (.submission i)) = some s' →
    (machine S).Meets Compensates s
      ((SubmissionEvent.begin filename contentType source documentId jobId :: es).map
        (.submission i)) →
    (∀ event ∈ es, ¬ event.IsBegin) → (s'.submissions i).ids = none →
    (s'.submissions i).AllOrNothing S s'.stores documentId jobId (sourceBytes source)
  := by
  intro hall
  have hrun : (machine .sample).run initial sampleClockBack = some (sampleAfter sampleClockBack) :=
    run_sampleAfter [] _ (by decide +kernel)
  have hraised : (sampleAfter sampleClockBack).submissions 0
      = .raised (.domain (.validation "document transition time must not move backwards")) := by
    decide +kernel
  have hfiles : (sampleAfter sampleClockBack).stores.fs.files.rows.any
      (fun f => f.path.head? = some Services.sampleDocumentId.text) = true := by
    decide +kernel
  have hcall := hall .sample initial _ 0 _ _ _ _ _ _ ⟨initial, [], rfl, rfl⟩
    (by simp [Fresh, initial]) hrun
    (by
      apply Machine.meets_of_forall
      simp [Compensates, Submission.Compensates])
    (by simp [SubmissionEvent.IsBegin])
    (by
      rw [hraised]
      rfl)
  rw [hraised] at hcall
  rcases hcall with ⟨habsent, -⟩ | ⟨⟨_, _, _, herror, -⟩, -⟩
  · obtain ⟨f, hf, hhead⟩ := List.any_eq_true.mp hfiles
    apply habsent.unfiled f hf (of_decide_eq_true hhead)
  · cases herror

end System

end KnowledgeSearch

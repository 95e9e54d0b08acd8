import KnowledgeSearch.Persistence.Constraints
import KnowledgeSearch.System.Soundness

/-!
# The rows of the tables

In every reachable state the tables of documents and of jobs take the rows as they are when these are
inserted, so that nothing is cut off or refused by a column or a constraint: `System.rows_accepted`. A
document that failed and its job say why in the same words, as transactions are atomic.
-/

namespace KnowledgeSearch

open Database

/-! ### Rows that fit -/

theorem Document.Revises.originalFilename_eq {a b : Document} (h : a.Revises b) :
  a.originalFilename = b.originalFilename
  := by
  have hfield := congrArg DocumentFields.originalFilename h
  apply hfield

theorem Document.Revises.sha256_eq {a b : Document} (h : a.Revises b) :
  a.sha256 = b.sha256
  := by
  have hfield := congrArg DocumentFields.sha256 h
  apply hfield

/-- The names of documents were accepted, no two documents share a storage key or a content hash, the
codes of failures are those of the application, and a failed document has the code of its job. -/
structure Database.Fitting (db : Database) : Prop where
  filename : ∀ document ∈ db.documents,
    validateFilename document.originalFilename = .ok document.originalFilename
  apart : ∀ a ∈ db.documents, ∀ b ∈ db.documents,
    a.storageKey = b.storageKey ∨ a.sha256 = b.sha256 → a.id = b.id
  code : ∀ job ∈ db.jobs, ∀ code ∈ job.failureCode, IsFailureCode code
  same : ∀ document ∈ db.documents, ∀ job ∈ db.jobs, job.documentId = document.id →
    document.status = .failed → document.failureCode = job.failureCode

namespace Database.Fitting

variable {db db' : Database} {document document' : Document} {job job' : IngestionJob}

theorem initial :
  Database.initial.Fitting
  where
  filename := by simp [Database.initial]
  apart := by simp [Database.initial]
  code := by simp [Database.initial]
  same := by simp [Database.initial]

/-- A move keeps rows that fit when the job it saves has a code of the application, and the document has the
same one in case it failed. -/
theorem moved {move : Move} {added : List Chunk} (h : db.Fitting) (hdb : db.Coherent)
    (hmoved : Moved move db db' document document' job job' added)
    (hcode : ∀ code ∈ job'.failureCode, IsFailureCode code)
    (hsame : document'.status = .failed → document'.failureCode = job'.failureCode) :
  db'.Fitting
  where
  filename := by
    intro row hrow
    rcases (hmoved.mem_documents row).mp hrow with rfl | ⟨hrow, -⟩
    · rw [hmoved.document_revises.originalFilename_eq]
      apply h.filename document hmoved.document_mem
    · apply h.filename row hrow
  apart := by
    -- every row revises one with the same storage key and the same content hash
    have hbefore : ∀ row ∈ db'.documents, ∃ row₀ ∈ db.documents, row.Revises row₀ := by
      intro row hrow
      rcases (hmoved.mem_documents row).mp hrow with rfl | ⟨hrow, -⟩
      · exact ⟨document, hmoved.document_mem, hmoved.document_revises⟩
      · exact ⟨row, hrow, Document.Revises.refl row⟩
    intro a ha b hb hshared
    obtain ⟨a₀, ha₀, harev⟩ := hbefore a ha
    obtain ⟨b₀, hb₀, hbrev⟩ := hbefore b hb
    rw [harev.storageKey_eq, hbrev.storageKey_eq, harev.sha256_eq, hbrev.sha256_eq] at hshared
    rw [harev.id_eq, hbrev.id_eq]
    apply h.apart a₀ ha₀ b₀ hb₀ hshared
  code := by
    intro j hj
    rcases (hmoved.mem_jobs j).mp hj with rfl | ⟨hj, -⟩
    · apply hcode
    · apply h.code j hj
  same := by
    intro row hrow j hj hjdocument hfailed
    rcases (hmoved.mem_documents row).mp hrow with rfl | ⟨hrow, hne⟩
    · rcases (hmoved.mem_jobs j).mp hj with rfl | ⟨hj, hne⟩
      · apply hsame hfailed
      · -- the document has no other job
        obtain ⟨p, job₀, hat⟩ := hdb.documents document hmoved.document_mem
        rw [hmoved.document_revises.id_eq] at hjdocument
        rw [hat.job_unique j hj hjdocument,
          hat.job_unique job hmoved.job_mem hmoved.job_document] at hne
        exact absurd rfl hne
    · rcases (hmoved.mem_jobs j).mp hj with rfl | ⟨hj, -⟩
      · rw [hmoved.job_revises.2, hmoved.job_document] at hjdocument
        exact absurd hjdocument.symm hne
      · apply h.same row hrow j hj hjdocument hfailed

/-- A move to a document that has not failed keeps rows that fit. -/
theorem moved_of_ne_failed {move : Move} {added : List Chunk} (h : db.Fitting) (hdb : db.Coherent)
    (hmoved : Moved move db db' document document' job job' added)
    (hdocument : document'.status ≠ .failed) (hjob : job'.status ≠ .failed) :
  db'.Fitting
  := by
  apply h.moved hdb hmoved
  · intro code hcode
    have hsome : job'.failureCode.isSome = true := by
      rw [hcode]
      rfl
    exact absurd (job'.failureCode_iff.mp hsome) hjob
  · intro hfailed
    exact absurd hfailed hdocument

theorem inserted (h : db.Fitting) (hinserted : Inserted db db' document job)
    (hname : validateFilename document.originalFilename = .ok document.originalFilename)
    (hnew : ∀ row ∈ db.documents,
      row.storageKey ≠ document.storageKey ∧ row.sha256 ≠ document.sha256) :
  db'.Fitting
  where
  filename := by
    intro row hrow
    rcases (hinserted.mem_documents row).mp hrow with hrow | rfl
    · apply h.filename row hrow
    · apply hname
  apart := by
    intro a ha b hb hshared
    rcases (hinserted.mem_documents a).mp ha with ha | rfl <;>
      rcases (hinserted.mem_documents b).mp hb with hb | rfl
    · apply h.apart a ha b hb hshared
    · obtain ⟨hkey, hhash⟩ := hnew a ha
      exact absurd hshared (not_or.mpr ⟨hkey, hhash⟩)
    · obtain ⟨hkey, hhash⟩ := hnew b hb
      exact absurd hshared (not_or.mpr ⟨hkey.symm, hhash.symm⟩)
    · rfl
  code := by
    intro j hj code hcode
    rcases (hinserted.mem_jobs j).mp hj with hj | rfl
    · apply h.code j hj code hcode
    · have hsome : j.failureCode.isSome = true := by
        rw [hcode]
        rfl
      have hfailed := j.failureCode_iff.mp hsome
      rw [hinserted.job_status] at hfailed
      cases hfailed
  same := by
    intro row hrow j hj hjdocument hfailed
    rcases (hinserted.mem_documents row).mp hrow with hrow | rfl
    · rcases (hinserted.mem_jobs j).mp hj with hj | rfl
      · apply h.same row hrow j hj hjdocument hfailed
      · rw [hinserted.job_document] at hjdocument
        exact absurd hjdocument.symm (hinserted.document_new row hrow)
    · rw [hinserted.document_status] at hfailed
      cases hfailed

theorem removed {d : Uuid} (h : db.Fitting) (hremoved : Removed db db' d) :
  db'.Fitting
  where
  filename row hrow := h.filename row ((hremoved.mem_documents row).mp hrow).1
  apart a ha b hb :=
    h.apart a ((hremoved.mem_documents a).mp ha).1 b ((hremoved.mem_documents b).mp hb).1
  code j hj := h.code j ((hremoved.mem_jobs j).mp hj).1
  same row hrow j hj :=
    h.same row ((hremoved.mem_documents row).mp hrow).1 j ((hremoved.mem_jobs j).mp hj).1

end Database.Fitting

/-! ### The codes a transaction records -/

/-- The inserted document has a storage key and a content hash of its own. -/
theorem insertSubmission_new {db db' : Database} {document : Document} {job : IngestionJob}
    (h : insertSubmission document job db = .ok db') :
  ∀ row ∈ db.documents, row.storageKey ≠ document.storageKey ∧ row.sha256 ≠ document.sha256
  := by
  unfold insertSubmission at h
  split at h
  · cases h
  obtain ⟨db₁, hadd, -⟩ := bind_eq_ok_iff.mp h
  unfold addDocument at hadd
  split at hadd
  · cases hadd
  rename_i hnew
  simp only [List.any_eq_true, Bool.or_eq_true, decide_eq_true_eq, not_exists, not_and,
    not_or] at hnew
  apply hnew

/-- A saved document has the code `_mark_failed` was given. -/
theorem failDocument_code {clock : Clock} {code : Text} {document document' : Document}
    (h : failDocument clock code (some document) = .ok (some document')) :
  document'.failureCode = some code
  := by
  simp only [failDocument] at h
  split at h
  · obtain ⟨_, hfail, h⟩ := bind_eq_ok_iff.mp h
    cases h
    obtain ⟨-, -, -, hcode⟩ := Document.markFailed_spec (liftDomain_eq_ok_iff.mp hfail)
    apply hcode
  · cases h

theorem failJob_code {clock : Clock} {code : Text} {job job' : IngestionJob}
    (h : failJob clock code (some job) = .ok (some job')) :
  job'.failureCode = some code
  := by
  simp only [failJob] at h
  split at h
  · obtain ⟨_, hfail, h⟩ := bind_eq_ok_iff.mp h
    cases h
    obtain ⟨-, -, -, -, hcode⟩ := IngestionJob.fail_spec (liftDomain_eq_ok_iff.mp hfail)
    apply hcode
  · cases h

/-- `_mark_failed` records its code in the rows it saves. -/
theorem markFailed_codes {clock : Clock} {documentId jobId : Uuid} {code : Text} {db db' : Database}
    (h : markFailed clock documentId jobId code db = .ok db') :
  (∀ document ∈ db'.documents, document ∈ db.documents ∨ document.failureCode = some code)
    ∧ ∀ job ∈ db'.jobs, job ∈ db.jobs ∨ job.failureCode = some code
  := by
  obtain ⟨document?, hdocument, h⟩ := bind_eq_ok_iff.mp h
  obtain ⟨db₁, hsave, h⟩ := bind_eq_ok_iff.mp h
  obtain ⟨job?, hjob, h⟩ := bind_eq_ok_iff.mp h
  have hdocuments : (∀ document ∈ db₁.documents,
      document ∈ db.documents ∨ document.failureCode = some code) ∧ db₁.jobs = db.jobs := by
    cases document? with
    | none =>
        cases hsave
        exact ⟨fun document hmem => Or.inl hmem, rfl⟩
    | some document' =>
        obtain ⟨-, rfl⟩ := saveDocument_eq_ok_iff.mp hsave
        refine ⟨?_, rfl⟩
        intro document hmem
        rcases Table.mem_replace.mp hmem with ⟨rfl, -⟩ | ⟨hmem, -⟩
        · right
          cases hget : db.getDocument documentId with
          | none =>
              rw [hget] at hdocument
              cases hdocument
          | some row =>
              rw [hget] at hdocument
              apply failDocument_code hdocument
        · apply Or.inl hmem
  cases job? with
  | none =>
      cases h
      exact ⟨hdocuments.1, fun job hmem => Or.inl (hdocuments.2 ▸ hmem)⟩
  | some job' =>
      obtain ⟨-, rfl⟩ := saveJob_eq_ok_iff.mp h
      refine ⟨hdocuments.1, ?_⟩
      intro job hmem
      rcases Table.mem_replace.mp hmem with ⟨rfl, -⟩ | ⟨hmem, -⟩
      · right
        cases hget : db.getJob jobId with
        | none =>
            rw [hget] at hjob
            cases hjob
        | some row =>
            rw [hget] at hjob
            apply failJob_code hjob
      · apply Or.inl (hdocuments.2 ▸ hmem)

/-! ### The steps of the calls -/

/-- The name a submission is going to store was accepted. -/
def Submission.Named : Submission → Prop
  | accepted _ filename _ | saved _ filename _ => validateFilename filename = .ok filename
  | built document _ =>
      validateFilename document.originalFilename = .ok document.originalFilename
  | _ => True

theorem buildSubmission_filename {clock : Clock} {ticket : Ticket} {filename : Text}
    {stored : StoredDocument} {document : Document} {job : IngestionJob}
    (h : buildSubmission clock ticket filename stored = .ok (document, job)) :
  document.originalFilename = filename
  := by
  obtain ⟨document₁, hcreate, h⟩ := bind_eq_ok_iff.mp h
  obtain ⟨document₂, hqueue, h⟩ := bind_eq_ok_iff.mp h
  obtain ⟨job₁, hjob, h⟩ := bind_eq_ok_iff.mp h
  cases h
  have hcreated := Document.construct_eq_ok_iff.mp (liftDomain_eq_ok_iff.mp hcreate)
  obtain ⟨-, -, hrevises⟩ := Document.transition_spec (liftDomain_eq_ok_iff.mp hqueue)
  rw [hrevises.originalFilename_eq, hcreated]

/-- A submission stores no other name than one that was accepted. -/
theorem Submission.Named.step {S : Services} {s s' : Stores} {submission submission' : Submission}
    {event : SubmissionEvent} (h : submission.Named)
    (hstep : submission.step S s event = some (s', submission')) :
  submission'.Named
  := by
  cases event with
  | begin filename contentType source documentId jobId =>
      simp only [Submission.step] at hstep
      split at hstep
      · cases hstep
      split at hstep
      · cases hstep
        trivial
      · rename_i safeFilename hfilename
        obtain rfl := validateFilename_eq_ok hfilename
        split at hstep
        · cases hstep
          trivial
        · cases hstep
          apply hfilename
  | save fault =>
      cases submission with
      | accepted t filename source =>
          simp only [Submission.step] at hstep
          split at hstep
          · cases hstep
            trivial
          · cases hstep
            apply h
      | _ => cases hstep
  | build clock =>
      cases submission with
      | saved t filename stored =>
          simp only [Submission.step] at hstep
          split at hstep
          · cases hstep
            trivial
          · rename_i document job hbuild
            cases hstep
            rw [Named, buildSubmission_filename hbuild]
            apply h
      | _ => cases hstep
  | insert fault =>
      cases submission with
      | built document job =>
          simp only [Submission.step] at hstep
          split at hstep <;> cases hstep <;> trivial
      | _ => cases hstep
  | removeFile fault =>
      cases submission with
      | conflicted document job | compensating document job error =>
          simp only [Submission.step] at hstep
          split at hstep <;> cases hstep <;> trivial
      | _ => cases hstep
  | lookUp fault =>
      cases submission with
      | lookingUp document job =>
          simp only [Submission.step] at hstep
          split at hstep <;> cases hstep <;> trivial
      | _ => cases hstep
  | enqueue outcome =>
      cases submission with
      | inserted document job =>
          simp only [Submission.step] at hstep
          split at hstep <;> cases hstep <;> trivial
      | _ => cases hstep
  | markDispatchFailed clock fault =>
      cases submission with
      | undelivered document job message =>
          simp only [Submission.step] at hstep
          split at hstep <;> cases hstep <;> trivial
      | _ => cases hstep
  | crash =>
      simp only [Submission.step] at hstep
      split at hstep <;> cases hstep
      trivial

section Steps

variable {S : Services} {s s' : Stores}

/-- Steps of `submit` keep rows that fit. -/
theorem Submission.Steps.fitting {submission submission' : Submission} {event : SubmissionEvent}
    {tickets : List Ticket} (h : Submission.Steps s submission event s' submission')
    (hstep : submission.step S s event = some (s', submission')) (hdb : s.db.Coherent)
    (hlinked : ∀ ids, submission.ids = some ids → s.db.Linked ids.1 ids.2)
    (hfollows : submission.Follows tickets) (hnamed : submission.Named) (hfitting : s.db.Fitting) :
  s'.db.Fitting
  := by
  cases h with
  | insert hinsert =>
      obtain ⟨t, -, hnames, hjobdocument, -, hdocument, hjob, hcount⟩ := hfollows
      have hinserted := insertSubmission_eq_ok hdocument hjob hcount
        (hjobdocument.trans hnames.id_eq.symm) hinsert
      apply hfitting.inserted hinserted hnamed (insertSubmission_new hinsert)
  | @failDispatch _ document row row' job job₁ job' message error db hid hmoved =>
      cases event with
      | markDispatchFailed clock fault =>
          simp only [Submission.step] at hstep
          split at hstep
          · have hsame := congrArg Stores.db (Prod.mk.inj (Option.some.inj hstep)).1
            change db.Fitting
            rw [← show s.db = db from hsame]
            apply hfitting
          · rename_i db' hmark
            have hsame := congrArg Stores.db (Prod.mk.inj (Option.some.inj hstep)).1
            change db.Fitting
            rw [← show db' = db from hsame]
            rcases markDispatchFailed_eq_ok (hlinked _ rfl) hdb (transaction_eq_ok_iff.mp hmark).2
              with ⟨rfl, -⟩ | ⟨_, _, _, _, -, hmoved, hdocument, hjob⟩
            · apply hfitting
            · apply hfitting.moved hdb hmoved
              · intro code hcode
                rw [hjob] at hcode
                obtain rfl := Option.some.inj hcode
                apply Or.inl rfl
              · intro _
                rw [hdocument, hjob]
      | crash => cases (Prod.mk.inj (Option.some.inj hstep)).2
      | _ => cases hstep
  | _ => apply hfitting

/-- Steps of `process` keep rows that fit. -/
theorem Delivery.Steps.fitting {delivery delivery' : Delivery} {event : DeliveryEvent}
    (h : Delivery.Steps S s delivery event s' delivery')
    (hstep : delivery.step S s event = some (s', delivery')) (hdb : s.db.Coherent)
    (hfitting : s.db.Fitting) :
  s'.db.Fitting
  := by
  cases h with
  | start hidle hcount hmoved =>
      obtain ⟨p, q, hnext, -, -, hdocument, hjob⟩ := hmoved.next
      obtain rfl := Phase.next_start hnext
      apply hfitting.moved_of_ne_failed hdb hmoved
      · simp [hdocument, Phase.document]
      · simp [hjob, Phase.job]
  | finalise hid hcount hnone hrows hmoved =>
      obtain ⟨p, q, hnext, -, -, hdocument, hjob⟩ := hmoved.next
      apply hfitting.moved_of_ne_failed hdb hmoved
      · rw [hdocument]
        cases p <;> cases hnext
        simp [Phase.document]
      · rw [hjob]
        cases p <;> cases hnext
        simp [Phase.job]
  | @record a error clock fault db document document' job job' hid hcount hstatus hmoved =>
      have hmark : markFailed clock a.documentId a.jobId (failureCode error) s.db = .ok db := by
        simp only [Delivery.step] at hstep
        split at hstep
        · cases (Prod.mk.inj (Option.some.inj hstep)).2
        · rename_i db' hmark
          have hsame := congrArg Stores.db (Prod.mk.inj (Option.some.inj hstep)).1
          rw [← show db' = db from hsame]
          apply (transaction_eq_ok_iff.mp hmark).2
      obtain ⟨hdocuments, hjobs⟩ := markFailed_codes hmark
      obtain ⟨p, q, hnext, hfrom, hjobfrom, hto, hjobto⟩ := hmoved.next
      -- the saved rows are not the ones they replace, whose statuses differ
      have hcode : document'.failureCode = some (failureCode error) := by
        apply (hdocuments document' ((hmoved.mem_documents _).mpr (Or.inl rfl))).resolve_left
        intro hmem
        have heq := Table.eq_of_key_eq hmem hmoved.document_mem hmoved.document_revises.id_eq
        rw [heq, hfrom] at hto
        cases p <;> cases hnext <;> cases hto
      have hjobcode : job'.failureCode = some (failureCode error) := by
        apply (hjobs job' ((hmoved.mem_jobs _).mpr (Or.inl rfl))).resolve_left
        intro hmem
        have heq := Table.eq_of_key_eq hmem hmoved.job_mem hmoved.job_revises.1
        rw [heq, hjobfrom] at hjobto
        cases p <;> cases hnext <;> cases hjobto
      apply hfitting.moved hdb hmoved
      · intro code hmem
        rw [hjobcode] at hmem
        obtain rfl := Option.some.inj hmem
        exact Or.inr ⟨error, rfl⟩
      · intro _
        rw [hcode, hjobcode]
  | _ => apply hfitting

/-- Steps of `delete` keep rows that fit. -/
theorem Deletion.Steps.fitting {deletion deletion' : Deletion} {event : DeletionEvent}
    (h : Deletion.Steps S s deletion event s' deletion') (hdb : s.db.Coherent)
    (hfitting : s.db.Fitting) :
  s'.db.Fitting
  := by
  cases h with
  | mark hidle hmem hstatus hmoved =>
      apply hfitting.moved hdb hmoved (hfitting.code _ hmoved.job_mem)
      intro hfailed
      rw [hstatus] at hfailed
      cases hfailed
  | finish => apply hfitting.removed (deleteDocument_removed hdb _)
  | _ => apply hfitting

end Steps

/-! ### Runs -/

/-- The rows of a document table. -/
def Database.documentRecords (db : Database) : Table DocumentRecord.id where
  rows := db.documents.rows.map documentToRecord
  nodup := by
    rw [List.map_map]
    apply db.documents.nodup

/-- The rows of the table of jobs. -/
def Database.jobRecords (db : Database) : Table IngestionJobRecord.id where
  rows := db.jobs.rows.map jobToRecord
  nodup := by
    rw [List.map_map]
    apply db.jobs.nodup

namespace System

/-- The rows fit their tables, and so do those that are going to be inserted. -/
structure Fitting (s : System) : Prop where
  rows : s.stores.db.Fitting
  named : ∀ i, (s.submissions i).Named

variable {S : Services} {s s' : System}

theorem Fitting.step {e : Event} (h : s.Fitting) (hsound : s.Sound S)
    (hstep : System.step S s e = some s') :
  s'.Fitting
  := by
  rcases step_eq_some hstep with ⟨i, event, stores, submission, issued, -, hsub, -, rfl⟩
    | ⟨i, event, stores, delivery, -, hdel, rfl⟩ | ⟨i, event, stores, deletion, -, hdel, rfl⟩
  · constructor
    · apply (hsound.submission_steps hsub).fitting hsub hsound.coherent _ (hsound.submissions i)
        (h.named i) h.rows
      intro ids hids
      apply hsound.linked_submission hids
    · apply (Function.forall_update_iff s.submissions fun _ d => d.Named).mpr
      use (h.named i).step hsub
      intro j _
      apply h.named j
  · exact ⟨(hsound.delivery_steps hdel).fitting hdel hsound.coherent h.rows, h.named⟩
  · exact ⟨(hsound.deletion_steps hdel).fitting hsound.coherent h.rows, h.named⟩

theorem Fitting.of_reachable (h : (machine S).Reachable s) :
  s.Fitting
  := by
  have hboth : s.Sound S ∧ s.Fitting := by
    apply h.induction
    · rintro s rfl
      exact ⟨Sound.initial, Database.Fitting.initial, fun _ => trivial⟩
    · rintro s e s' ⟨hsound, hfitting⟩ hstep
      exact ⟨hsound.step hstep, hfitting.step hsound hstep⟩
  apply hboth.2


/-- Another document has another storage key and another content hash. -/
theorem Fitting.taken_eq_false (h : s.Fitting) {document : Document}
    (hmem : document ∈ s.stores.db.documents) :
  (documentToRecord document).taken s.stores.db.documentRecords = false
  := by
  rw [← Bool.not_eq_true]
  intro htaken
  obtain ⟨record, hrecord, hshared⟩ := List.any_eq_true.mp htaken
  obtain ⟨row, hrow, rfl⟩ := List.mem_map.mp hrecord
  simp only [documentToRecord, Bool.and_eq_true, Bool.or_eq_true] at hshared
  obtain ⟨hne, hshared⟩ := hshared
  apply of_decide_eq_true hne
  apply h.rows.apart row hrow document hmem (hshared.imp of_decide_eq_true of_decide_eq_true)

/-- In every reachable state the table of documents keeps each row as it is when it is inserted beside the
others, constraints included, unless the file is too large for its column, and so does the table of jobs
unless a job was attempted too often. A document that failed and its job have the same code, one the
application gives. -/
theorem rows_accepted (hreachable : (machine S).Reachable s) :
  (∀ document ∈ s.stores.db.documents,
      DocumentRecord.store s.stores.db.documentRecords (documentToRecord document)
          = .ok (documentToRecord document)
        ↔ document.sizeBytes < 2 ^ 63)
    ∧ (∀ job ∈ s.stores.db.jobs,
      IngestionJobRecord.store s.stores.db.jobRecords (jobToRecord job) = .ok (jobToRecord job)
        ↔ job.attemptCount < 2 ^ 31)
    ∧ ∀ document ∈ s.stores.db.documents, ∀ job ∈ s.stores.db.jobs, job.documentId = document.id →
      document.status = .failed →
      ∃ code, IsFailureCode code ∧ document.failureCode = some code ∧ job.failureCode = some code
  := by
  have hsound := Sound.of_reachable hreachable
  have hfitting := Fitting.of_reachable hreachable
  -- a failed document has a code, and so does its job
  have hcodes : ∀ document ∈ s.stores.db.documents, document.status = .failed →
      ∀ job ∈ s.stores.db.jobs, job.documentId = document.id →
      ∃ code, IsFailureCode code ∧ document.failureCode = some code ∧ job.failureCode = some code := by
    intro document hdocument hfailed job hjob hid
    have hsame := hfitting.rows.same document hdocument job hjob hid hfailed
    obtain ⟨code, hcode⟩ := Option.isSome_iff_exists.mp (document.failureCode_iff.mpr hfailed)
    rw [hcode] at hsame
    exact ⟨code, hfitting.rows.code job hjob code hsame.symm, hcode, hsame.symm⟩
  refine ⟨?_, ?_, fun document hdocument job hjob hid hfailed =>
    hcodes document hdocument hfailed job hjob hid⟩
  · intro document hdocument
    obtain ⟨t, -, hnames⟩ := hsound.ticket hdocument
    rw [store_documentToRecord_iff (hfitting.rows.filename document hdocument) hnames.storageKey_eq,
      hfitting.taken_eq_false hdocument]
    · simp
    · intro code hcode
      have hsome : document.failureCode.isSome = true := by
        rw [hcode]
        rfl
      obtain ⟨p, job, hat⟩ := hsound.coherent.documents document hdocument
      obtain ⟨code', hknown, hcode', -⟩ := hcodes document hdocument
        (document.failureCode_iff.mp hsome) job hat.job_mem hat.job_document
      rw [hcode] at hcode'
      rw [Option.some.inj hcode']
      apply hknown
  · intro job hjob
    apply store_jobToRecord_iff (hfitting.rows.code job hjob)

/-- The first step of a delivery fails. -/
def sampleUnread : List Event :=
  sampleUpload ++ [.delivery 0 (.start sampleJobId (clockFrom 10) none),
    .delivery 0 (.load (some .database)), .delivery 0 (.markFailed (clockFrom 20) none)]

/-- The document that could not be read and its job have the same code. -/
theorem rows_accepted_sample :
  ∃ document ∈ (sampleAfter sampleUnread).stores.db.documents,
    ∃ job ∈ (sampleAfter sampleUnread).stores.db.jobs, document.status = .failed
      ∧ ∃ code, IsFailureCode code ∧ document.failureCode = some code ∧ job.failureCode = some code
  := by
  have hcheck : ((sampleAfter sampleUnread).stores.db.documents.rows.any fun document =>
      document.status = .failed
        && (sampleAfter sampleUnread).stores.db.jobs.rows.any fun job =>
          job.documentId = document.id) = true := by
    decide +kernel
  obtain ⟨document, hdocument, hjobs⟩ := List.any_eq_true.mp hcheck
  simp only [Bool.and_eq_true, decide_eq_true_eq, List.any_eq_true] at hjobs
  obtain ⟨hfailed, job, hjob, hid⟩ := hjobs
  have hreachable : (machine .sample).Reachable (sampleAfter sampleUnread) := by
    apply reachable_sampleAfter
    decide +kernel
  obtain ⟨-, -, hcodes⟩ := rows_accepted hreachable
  exact ⟨document, hdocument, job, hjob, hfailed, hcodes document hdocument job hjob hid hfailed⟩

end System

end KnowledgeSearch

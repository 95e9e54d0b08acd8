import KnowledgeSearch.System.Soundness

/-!
# Clocks that are not behind

The transitions of documents and jobs refuse times before the last one stored. Here is what the
transactions of `process` do when the clock is not behind the stored times: they succeed on rows in
the right phase, and what they store is before the times the clock shows later.
-/

namespace KnowledgeSearch

/-- The code of an error is not blank. -/
theorem failureCode_not_blank (error : AppError) :
  blank (failureCode error) = false
  := by
  cases error with
  | ingestion code message => cases code <;> rfl
  | _ => rfl

/-- What `_start_job` saves is stamped with the readings of the clock. -/
theorem startRows_times {clock : Clock} {job job' : IngestionJob} {document document' : Document}
    (h : startRows clock job document = .ok (some (document', job'))) :
  document'.updatedAt = clock 2 ∧ job'.updatedAt = clock 3 ∧ job'.startedAt = some (clock 3)
  := by
  unfold startRows at h
  split at h
  · cases h
  split at h
  · cases h
  obtain ⟨rows, -, h⟩ := bind_eq_ok_iff.mp h
  unfold beginRows at h
  split at h
  · cases h
  obtain ⟨document₁, hdocument, h⟩ := bind_eq_ok_iff.mp h
  obtain ⟨job₁, hjob, h⟩ := bind_eq_ok_iff.mp h
  cases h
  obtain ⟨-, -, hfields⟩ := Document.transition_eq_ok_iff.mp (liftDomain_eq_ok_iff.mp hdocument)
  obtain ⟨-, -, hjobFields⟩ := IngestionJob.transition_eq_ok_iff.mp (liftDomain_eq_ok_iff.mp hjob)
  use congrArg DocumentFields.updatedAt hfields, congrArg IngestionJobFields.updatedAt hjobFields,
    congrArg IngestionJobFields.startedAt hjobFields

/-- What the finalising transaction saves is stamped with the readings of the clock. -/
theorem finaliseRows_times {clock : Clock} {job job' : IngestionJob}
    {document document' : Document} (h : finaliseRows clock job document = .ok (document', job')) :
  document'.updatedAt = clock 0 ∧ job'.updatedAt = clock 1 ∧ job'.startedAt = job.startedAt
  := by
  obtain ⟨document₁, hdocument, h⟩ := bind_eq_ok_iff.mp h
  obtain ⟨job₁, hjob, h⟩ := bind_eq_ok_iff.mp h
  cases h
  obtain ⟨-, -, hfields⟩ := Document.transition_eq_ok_iff.mp (liftDomain_eq_ok_iff.mp hdocument)
  obtain ⟨-, -, hjobFields⟩ := IngestionJob.transition_eq_ok_iff.mp (liftDomain_eq_ok_iff.mp hjob)
  have hstarted := congrArg IngestionJobFields.startedAt hjobFields
  use congrArg DocumentFields.updatedAt hfields, congrArg IngestionJobFields.updatedAt hjobFields

theorem Document.markFailed_time {document document' : Document} {code : Text} {now : Timestamp}
    (h : document.markFailed code now = .ok document') :
  document'.updatedAt = now
  := by
  unfold markFailed at h
  split at h
  · cases h
  obtain ⟨-, -, hfields⟩ := transition_eq_ok_iff.mp h
  apply congrArg DocumentFields.updatedAt hfields

theorem Document.markDeleting_time {document document' : Document} {now : Timestamp}
    (h : document.markDeleting now = .ok document') :
  document'.updatedAt = now
  := by
  obtain ⟨-, -, hfields⟩ := transition_eq_ok_iff.mp h
  apply congrArg DocumentFields.updatedAt hfields

theorem IngestionJob.fail_times {job job' : IngestionJob} {code : Text} {now : Timestamp}
    (h : job.fail code now = .ok job') :
  job'.updatedAt = now ∧ job'.startedAt = job.startedAt
  := by
  unfold fail at h
  split at h
  · cases h
  obtain ⟨-, -, hfields⟩ := transition_eq_ok_iff.mp h
  have hstarted := congrArg IngestionJobFields.startedAt hfields
  use congrArg IngestionJobFields.updatedAt hfields

/-- What `_mark_failed` saves of a document is stamped with the reading of the clock. -/
theorem failDocument_times {clock : Clock} {code : Text} {document? : Option Document}
    {document' : Document} (h : failDocument clock code document? = .ok (some document')) :
  document'.updatedAt = clock 0
  := by
  unfold failDocument at h
  split at h
  · cases h
  split at h
  · obtain ⟨document₁, hfail, h⟩ := bind_eq_ok_iff.mp h
    cases h
    apply Document.markFailed_time (liftDomain_eq_ok_iff.mp hfail)
  · cases h

/-- What `_mark_failed` saves of a job is stamped with the reading of the clock. -/
theorem failJob_times {clock : Clock} {code : Text} {job? : Option IngestionJob}
    {job' : IngestionJob} (h : failJob clock code job? = .ok (some job')) :
  ∃ job, job? = some job ∧ job'.updatedAt = clock 1 ∧ job'.startedAt = job.startedAt
    ∧ job'.Revises job
  := by
  unfold failJob at h
  split at h
  · cases h
  rename_i job
  split at h
  · obtain ⟨job₁, hfail, h⟩ := bind_eq_ok_iff.mp h
    cases h
    have hfail := liftDomain_eq_ok_iff.mp hfail
    obtain ⟨-, -, hrevises, -⟩ := IngestionJob.fail_spec hfail
    obtain ⟨hupdated, hstarted⟩ := IngestionJob.fail_times hfail
    use job, rfl, hupdated, hstarted
  · cases h

/-- What the first transaction of `delete` saves is stamped with the reading of the clock. -/
theorem markRows_time {clock : Clock} {document document' : Document}
    (h : markRows clock document = .ok (some document')) :
  document'.updatedAt = clock 0
  := by
  unfold markRows at h
  split at h
  · cases h
  split at h
  · cases h
  obtain ⟨document₁, hmark, h⟩ := bind_eq_ok_iff.mp h
  cases h
  apply Document.markDeleting_time (liftDomain_eq_ok_iff.mp hmark)

namespace Database

/-- The times stored for the document `d` are before `now`. -/
structure StoredBefore (db : Database) (d : Uuid) (now : Timestamp) : Prop where
  documents : ∀ document ∈ db.documents, document.id = d → document.updatedAt < now
  jobs : ∀ job ∈ db.jobs, job.documentId = d → job.updatedAt < now
    ∧ ∀ started ∈ job.startedAt, started < now

variable {db db' : Database} {d : Uuid} {now : Timestamp} {document : Document}
  {job : IngestionJob} {clock : Clock}

namespace StoredBefore

theorem mono (h : db.StoredBefore d now) {now' : Timestamp} (hnow : now ≤ now') :
  db.StoredBefore d now'
  where
  documents row hrow hid := lt_of_lt_of_le (h.documents row hrow hid) hnow
  jobs job hjob hid := by
    obtain ⟨hupdated, hstarted⟩ := h.jobs job hjob hid
    use lt_of_lt_of_le hupdated hnow
    intro started hs
    apply lt_of_lt_of_le (hstarted started hs) hnow

theorem saveDocument (h : db.StoredBefore d now) (hnow : document.updatedAt < now)
    (hsave : db.saveDocument document = .ok db') :
  db'.StoredBefore d now
  := by
  obtain ⟨-, rfl⟩ := saveDocument_eq_ok_iff.mp hsave
  constructor
  · intro row hrow hid
    rcases Table.mem_replace.mp hrow with ⟨rfl, -⟩ | ⟨hrow, -⟩
    · apply hnow
    · apply h.documents row hrow hid
  · apply h.jobs

theorem saveJob (h : db.StoredBefore d now) (hnow : job.updatedAt < now)
    (hstarted : ∀ started ∈ job.startedAt, job.documentId = d → started < now)
    (hsave : db.saveJob job = .ok db') :
  db'.StoredBefore d now
  := by
  obtain ⟨-, rfl⟩ := saveJob_eq_ok_iff.mp hsave
  constructor
  · apply h.documents
  · intro row hrow hid
    rcases Table.mem_replace.mp hrow with ⟨rfl, -⟩ | ⟨hrow, -⟩
    · use hnow
      intro started hs
      apply hstarted started hs hid
    · apply h.jobs row hrow hid

/-- `_start_job` stores times of the clock. -/
theorem startJob (h : db.StoredBefore d now) (hclock : ∀ n, clock n < now) {jobId : Uuid}
    {result : Option Uuid} (hstart : startJob clock jobId db = .ok (result, db')) :
  db'.StoredBefore d now
  := by
  unfold KnowledgeSearch.startJob at hstart
  split at hstart
  · cases hstart
  split at hstart
  · cases hstart
  obtain ⟨rows, hrows, hstart⟩ := bind_eq_ok_iff.mp hstart
  split at hstart
  · cases hstart
    apply h
  · obtain ⟨db₁, hsave, hstart⟩ := bind_eq_ok_iff.mp hstart
    obtain ⟨db₂, hsaveJob, hstart⟩ := bind_eq_ok_iff.mp hstart
    cases hstart
    obtain ⟨hdocument, hjob, hstarted⟩ := startRows_times hrows
    have h₁ : db₁.StoredBefore d now := by
      apply h.saveDocument _ hsave
      rw [hdocument]
      apply hclock
    apply h₁.saveJob _ _ hsaveJob
    · rw [hjob]
      apply hclock
    · intro started hs _
      rw [hstarted] at hs
      obtain rfl := Option.some.inj hs
      apply hclock

/-- The finalising transaction stores times of the clock. -/
theorem finalise (h : db.StoredBefore d now) (hclock : ∀ n, clock n < now) {documentId jobId : Uuid}
    {chunks : List Chunk} (hfinalise : finalise clock documentId jobId chunks db = .ok db') :
  db'.StoredBefore d now
  := by
  unfold KnowledgeSearch.finalise at hfinalise
  split at hfinalise
  · cases hfinalise
  · cases hfinalise
  rename_i document job hdocument hjob
  obtain ⟨⟨document', job'⟩, hrows, hfinalise⟩ := bind_eq_ok_iff.mp hfinalise
  obtain ⟨db₁, hadd, hfinalise⟩ := bind_eq_ok_iff.mp hfinalise
  obtain ⟨db₂, hsave, hfinalise⟩ := bind_eq_ok_iff.mp hfinalise
  obtain ⟨db₃, hsaveJob, hfinalise⟩ := bind_eq_ok_iff.mp hfinalise
  cases hfinalise
  obtain ⟨hdocumentTime, hjobTime, hstarted⟩ := finaliseRows_times hrows
  obtain ⟨-, -, -, -, -, hrevises, -⟩ := finaliseRows_spec hrows
  obtain ⟨-, rows, -, rfl⟩ := addChunks_eq_ok hadd
  have h₂ : db₂.StoredBefore d now := by
    apply StoredBefore.saveDocument _ _ hsave
    · use h.documents, h.jobs
    · rw [hdocumentTime]
      apply hclock
  have h₃ : db₃.StoredBefore d now := by
    apply h₂.saveJob _ _ hsaveJob
    · rw [hjobTime]
      apply hclock
    · intro started hs hid
      rw [hstarted] at hs
      rw [hrevises.2] at hid
      apply (h.jobs job (Table.mem_of_get hjob) hid).2 started hs
  use h₃.documents, h₃.jobs

/-- `_mark_failed` stores times of the clock. -/
theorem markFailed (h : db.StoredBefore d now) (hclock : ∀ n, clock n < now) {documentId jobId : Uuid}
    {code : Text} (hmark : markFailed clock documentId jobId code db = .ok db') :
  db'.StoredBefore d now
  := by
  obtain ⟨document?, hdocument, hmark⟩ := bind_eq_ok_iff.mp hmark
  obtain ⟨db₁, hsave, hmark⟩ := bind_eq_ok_iff.mp hmark
  obtain ⟨job?, hjob, hsaveJob⟩ := bind_eq_ok_iff.mp hmark
  have h₁ : db₁.StoredBefore d now := by
    cases document? with
    | none =>
        cases hsave
        apply h
    | some document' =>
        apply h.saveDocument _ hsave
        rw [failDocument_times hdocument]
        apply hclock
  cases job? with
  | none =>
      cases hsaveJob
      apply h₁
  | some job' =>
      obtain ⟨job, hget, htime, hstarted, hrevises⟩ := failJob_times hjob
      apply h₁.saveJob _ _ hsaveJob
      · rw [htime]
        apply hclock
      · intro started hs hid
        rw [hstarted] at hs
        rw [hrevises.2] at hid
        apply (h.jobs job (Table.mem_of_get hget) hid).2 started hs

end StoredBefore

/-! ### Transactions that succeed -/

/-- A queued document is started. -/
theorem At.startJob_isOk (h : db.At d .queued document job)
    (hdocument : document.updatedAt ≤ clock 2) (hjob : job.updatedAt ≤ clock 3) :
  ∃ db', startJob clock job.id db = .ok (some d, db')
  := by
  have hds : document.status = .queued := h.document_status
  have hjs : job.status = .queued := h.job_status
  obtain ⟨document', hprocess⟩ : ∃ document', document.startProcessing (clock 2) = .ok document' := by
    apply Document.transition_isOk _ hdocument rfl
    simp [hds, documentTransitions]
  obtain ⟨job', hstart⟩ : ∃ job', job.start (clock 3) = .ok job' := by
    apply IngestionJob.start_isOk _ hjob
    simp [hjs, jobTransitions]
  obtain ⟨-, -, hrevises⟩ := Document.transition_spec hprocess
  obtain ⟨-, -, hjobRevises, -⟩ := IngestionJob.transition_spec hstart
  have hrows : startRows clock job document = .ok (some (document', job')) := by
    simp [startRows, hds, hjs, requeueRows, beginRows, hprocess, hstart, liftDomain, bind,
      Except.bind]
  have hget : db.getDocument job.documentId = some document := by
    rw [h.job_document]
    apply h.get_document
  have hsave : db.saveDocument document'
      = .ok { db with documents := db.documents.replace document' } := by
    apply saveDocument_eq_ok_iff.mpr
    rw [hrevises.id_eq]
    use ⟨document, Table.get_key h.document_mem⟩
  have hsaveJob : ({ db with documents := db.documents.replace document' } : Database).saveJob job'
      = .ok { db with
          documents := db.documents.replace document', jobs := db.jobs.replace job' } := by
    apply saveJob_eq_ok_iff.mpr
    rw [hjobRevises.1]
    use ⟨job, Table.get_key h.job_mem⟩
  have hgetJob : db.getJob job.id = some job := h.get_job
  simp only [startJob, hgetJob, hget, bind_of_eq_ok hrows, bind_of_eq_ok hsave,
    bind_of_eq_ok hsaveJob]
  rw [hrevises.id_eq, h.document_id]
  exact ⟨_, rfl⟩

/-- The failure of an attempt at a processing document is recorded. -/
theorem At.markFailed_isOk (h : db.At d .processing document job)
    (hdocument : document.updatedAt ≤ clock 0) (hjob : job.updatedAt ≤ clock 1)
    (hstarted : ∀ started ∈ job.startedAt, started ≤ clock 1) (error : AppError) :
  ∃ db', markFailed clock d job.id (failureCode error) db = .ok db'
  := by
  have hds : document.status = .processing := h.document_status
  have hjs : job.status = .running := h.job_status
  have hcode := failureCode_not_blank error
  obtain ⟨document', hfail⟩ : ∃ document',
      document.markFailed (failureCode error) (clock 0) = .ok document' := by
    apply Document.markFailed_isOk _ hdocument hcode
    simp [hds, documentTransitions]
  obtain ⟨job', hjobFail⟩ : ∃ job', job.fail (failureCode error) (clock 1) = .ok job' := by
    apply IngestionJob.fail_isOk _ hjob hstarted hcode
    simp [hjs, jobTransitions]
  obtain ⟨-, -, hrevises, -⟩ := Document.markFailed_spec hfail
  obtain ⟨-, -, hjobRevises, -⟩ := IngestionJob.fail_spec hjobFail
  have hrow : failDocument clock (failureCode error) (db.getDocument d) = .ok (some document') := by
    rw [getDocument, h.get_document]
    simp [failDocument, hds, hfail, liftDomain, bind, Except.bind]
  have hsave : db.saveDocument? (some document')
      = .ok { db with documents := db.documents.replace document' } := by
    apply saveDocument_eq_ok_iff.mpr
    rw [hrevises.id_eq]
    use ⟨document, Table.get_key h.document_mem⟩
  have hjobRow : failJob clock (failureCode error) (db.getJob job.id) = .ok (some job') := by
    rw [getJob, h.get_job]
    simp [failJob, hjs, hjobFail, liftDomain, bind, Except.bind]
  have hsaveJob :
      ({ db with documents := db.documents.replace document' } : Database).saveJob? (some job')
        = .ok { db with
            documents := db.documents.replace document', jobs := db.jobs.replace job' } := by
    apply saveJob_eq_ok_iff.mpr
    rw [hjobRevises.1]
    use ⟨job, Table.get_key h.job_mem⟩
  simp only [markFailed, bind_of_eq_ok hrow, bind_of_eq_ok hsave, bind_of_eq_ok hjobRow, hsaveJob]
  exact ⟨_, rfl⟩

end Database

end KnowledgeSearch

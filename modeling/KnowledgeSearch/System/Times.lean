import KnowledgeSearch.System.Clocks

/-!
# Times of the last change

A save that changes a row and leaves its `updated_at` as it is stores the clock of the database in this
column, `Mapper.save`, where `Database.saveDocument` and `Database.saveJob` store what they are given. So
a step of the system is one of the program when every row it changes gets a new `updated_at`,
`Database.Restamps`. `System.Timed` are the steps in which the readings of the clock make it so, and
`System.timed` is the machine of these steps.
-/

namespace KnowledgeSearch

namespace Database

variable {db db' : Database} {d documentId jobId : Uuid} {clock : Clock}

/-! ### Rows that change -/

/-- Each row that changes gets a new `updated_at`. -/
structure Restamps (db db' : Database) : Prop where
  documents : ∀ row ∈ db.documents, ∀ row' ∈ db'.documents, row'.id = row.id →
    row' = row ∨ row'.updatedAt ≠ row.updatedAt
  jobs : ∀ row ∈ db.jobs, ∀ row' ∈ db'.jobs, row'.id = row.id →
    row' = row ∨ row'.updatedAt ≠ row.updatedAt

/-- A database with rows of another one, and new rows. -/
theorem Restamps.of_mem
    (hdocuments : ∀ row ∈ db'.documents, row ∈ db.documents ∨ ∀ row' ∈ db.documents, row'.id ≠ row.id)
    (hjobs : ∀ row ∈ db'.jobs, row ∈ db.jobs ∨ ∀ row' ∈ db.jobs, row'.id ≠ row.id) :
  db.Restamps db'
  where
  documents row hrow row' hrow' hid := by
    rcases hdocuments row' hrow' with hold | hnew
    · apply Or.inl (Table.eq_of_key_eq hold hrow hid)
    · exact absurd hid.symm (hnew row hrow)
  jobs row hrow row' hrow' hid := by
    rcases hjobs row' hrow' with hold | hnew
    · apply Or.inl (Table.eq_of_key_eq hold hrow hid)
    · exact absurd hid.symm (hnew row hrow)

theorem Restamps.refl (db : Database) :
  db.Restamps db
  := .of_mem (fun _ => Or.inl) fun _ => Or.inl

/-- A row of a table in which one row is replaced by one with another stamp. -/
theorem eq_or_stamp_ne {κ ρ : Type} [DecidableEq κ] {key : ρ → κ} (stamp : ρ → Timestamp) {t : Table key}
    {new row row' : ρ} (hnew : ∀ r ∈ t, key r = key new → stamp r ≠ stamp new) (hrow : row ∈ t)
    (hrow' : row' ∈ t.replace new) (hkey : key row' = key row) :
  row' = row ∨ stamp row' ≠ stamp row
  := by
  rcases Table.mem_replace.mp hrow' with ⟨rfl, -⟩ | ⟨hold, -⟩
  · apply Or.inr (hnew row hrow hkey.symm).symm
  · apply Or.inl (Table.eq_of_key_eq hold hrow hkey)

/-- The database after a document and a job are saved, if there are such. -/
theorem Restamps.of_save {document? : Option Document} {job? : Option IngestionJob} {db₁ : Database}
    (hdocument : ∀ document ∈ document?, ∀ row ∈ db.documents, row.id = document.id →
      row.updatedAt ≠ document.updatedAt)
    (hjob : ∀ job ∈ job?, ∀ row ∈ db.jobs, row.id = job.id → row.updatedAt ≠ job.updatedAt)
    (hsave : db.saveDocument? document? = .ok db₁) (hsaveJob : db₁.saveJob? job? = .ok db') :
  db.Restamps db'
  := by
  have hdocuments : ∀ row ∈ db.documents, ∀ row' ∈ db₁.documents, row'.id = row.id →
      row' = row ∨ row'.updatedAt ≠ row.updatedAt := by
    intro row hrow row' hrow' hid
    cases document? with
    | none =>
        cases hsave
        apply Or.inl (Table.eq_of_key_eq hrow' hrow hid)
    | some document =>
        obtain ⟨-, rfl⟩ := saveDocument_eq_ok_iff.mp hsave
        apply eq_or_stamp_ne (fun row => row.updatedAt) (hdocument document rfl) hrow hrow' hid
  have hjobs₁ : db₁.jobs = db.jobs := by
    cases document? with
    | none =>
        cases hsave
        rfl
    | some document =>
        obtain ⟨-, rfl⟩ := saveDocument_eq_ok_iff.mp hsave
        rfl
  cases job? with
  | none =>
      cases hsaveJob
      use hdocuments
      intro row hrow row' hrow' hid
      rw [hjobs₁] at hrow'
      apply Or.inl (Table.eq_of_key_eq hrow' hrow hid)
  | some job =>
      obtain ⟨-, rfl⟩ := saveJob_eq_ok_iff.mp hsaveJob
      use hdocuments
      intro row hrow row' hrow' hid
      simp only [hjobs₁] at hrow'
      apply eq_or_stamp_ne (fun row => row.updatedAt) (hjob job rfl) hrow hrow' hid

/-! ### New times -/

/-- The moment is not that of the last change of the document `d`, if its status is one of these. -/
def NewDocumentTime (db : Database) (d : Uuid) (statuses : List DocumentStatus) (now : Timestamp) : Prop :=
  ∀ document ∈ db.documents, document.id = d → document.status ∈ statuses → document.updatedAt ≠ now

/-- The moment is not that of the last change of a job of the document `d` with one of these statuses. -/
def NewJobTime (db : Database) (d : Uuid) (statuses : List IngestionJobStatus) (now : Timestamp) : Prop :=
  ∀ job ∈ db.jobs, job.documentId = d → job.status ∈ statuses → job.updatedAt ≠ now

instance decidableNewDocumentTime (statuses : List DocumentStatus) (now : Timestamp) :
    Decidable (db.NewDocumentTime d statuses now) :=
  inferInstanceAs (Decidable (∀ document ∈ db.documents,
    document.id = d → document.status ∈ statuses → document.updatedAt ≠ now))

instance decidableNewJobTime (statuses : List IngestionJobStatus) (now : Timestamp) :
    Decidable (db.NewJobTime d statuses now) :=
  inferInstanceAs (Decidable (∀ job ∈ db.jobs,
    job.documentId = d → job.status ∈ statuses → job.updatedAt ≠ now))

/-- A document that is saved at a new time has another `updated_at` than its row. -/
theorem NewDocumentTime.ne {statuses : List DocumentStatus} {now : Timestamp} {document document' : Document}
    (h : db.NewDocumentTime d statuses now) (hget : db.getDocument d = some document)
    (hstatus : document.status ∈ statuses) (hrevises : document'.Revises document)
    (htime : document'.updatedAt = now) :
  ∀ row ∈ db.documents, row.id = document'.id → row.updatedAt ≠ document'.updatedAt
  := by
  intro row hrow hid
  obtain ⟨hmem, hdocument⟩ := Table.get_eq_some_iff.mp hget
  rw [Table.eq_of_key_eq hrow hmem (hid.trans hrevises.id_eq), htime]
  apply h document hmem hdocument hstatus

/-- A job that is saved at a new time has another `updated_at` than its row. -/
theorem NewJobTime.ne {statuses : List IngestionJobStatus} {now : Timestamp} {job job' : IngestionJob}
    (h : db.NewJobTime d statuses now) (hget : db.getJob jobId = some job) (hd : job.documentId = d)
    (hstatus : job.status ∈ statuses) (hrevises : job'.Revises job) (htime : job'.updatedAt = now) :
  ∀ row ∈ db.jobs, row.id = job'.id → row.updatedAt ≠ job'.updatedAt
  := by
  intro row hrow hid
  obtain ⟨hmem, -⟩ := Table.get_eq_some_iff.mp hget
  rw [Table.eq_of_key_eq hrow hmem (hid.trans hrevises.1), htime]
  apply h job hmem hd hstatus

/-- The document of the job of a linked pair. -/
theorem Linked.documentId_eq {job : IngestionJob} (h : db.Linked documentId jobId)
    (hget : db.getJob jobId = some job) :
  job.documentId = documentId
  := by
  obtain ⟨hmem, hid⟩ := Table.get_eq_some_iff.mp hget
  apply (h job hmem).mpr hid

/-- A moment after the stored times of a document is new to it and its job. -/
theorem StoredBefore.new {now now' : Timestamp} (h : db.StoredBefore d now) (hnow : now ≤ now')
    (statuses : List DocumentStatus) (jobStatuses : List IngestionJobStatus) {jobTime : Timestamp}
    (hjobTime : now ≤ jobTime) :
  db.NewDocumentTime d statuses now' ∧ db.NewJobTime d jobStatuses jobTime
  := by
  constructor
  · intro document hdocument hid _
    apply (lt_of_lt_of_le (h.documents document hdocument hid) hnow).ne
  · intro job hjob hid _
    apply (lt_of_lt_of_le (h.jobs job hjob hid).1 hjobTime).ne

/-! ### The transactions -/

theorem startJob_restamps {result : Option Uuid}
    (hnew : ∀ job ∈ db.jobs, job.id = jobId →
      db.NewDocumentTime job.documentId [.queued, .failed] (clock 2)
        ∧ db.NewJobTime job.documentId [.queued, .failed] (clock 3))
    (h : startJob clock jobId db = .ok (result, db')) :
  db.Restamps db'
  := by
  unfold startJob at h
  split at h
  · cases h
  rename_i job hjob
  split at h
  · cases h
  rename_i document hdocument
  obtain ⟨rows, hrows, h⟩ := bind_eq_ok_iff.mp h
  rcases startRows_spec hrows with ⟨rfl, -⟩
    | ⟨document', job', rfl, hfrom, -, hrevises, -, hjobRevises, -⟩
  · cases h
    apply Restamps.refl
  obtain ⟨db₁, hsave, h⟩ := bind_eq_ok_iff.mp h
  obtain ⟨db₂, hsaveJob, h⟩ := bind_eq_ok_iff.mp h
  cases h
  obtain ⟨htime, hjobTime, -⟩ := startRows_times hrows
  obtain ⟨hnewDocument, hnewJob⟩ := hnew job (Table.mem_of_get hjob) (Table.get_eq_some_iff.mp hjob).2
  replace hsave : db.saveDocument? (some document') = .ok db₁ := hsave
  replace hsaveJob : db₁.saveJob? (some job') = .ok db' := hsaveJob
  apply Restamps.of_save _ _ hsave hsaveJob
  · rintro _ ⟨⟩
    apply hnewDocument.ne hdocument _ hrevises htime
    rcases hfrom with ⟨-, hstatus⟩ | ⟨-, hstatus⟩ <;> simp [hstatus]
  · rintro _ ⟨⟩
    apply hnewJob.ne hjob rfl _ hjobRevises hjobTime
    rcases hfrom with ⟨hstatus, -⟩ | ⟨hstatus, -⟩ <;> simp [hstatus]

theorem finalise_restamps {chunks : List Chunk} (hlinked : db.Linked documentId jobId)
    (hdocument : db.NewDocumentTime documentId [.processing] (clock 0))
    (hjob : db.NewJobTime documentId [.running] (clock 1))
    (h : finalise clock documentId jobId chunks db = .ok db') :
  db.Restamps db'
  := by
  unfold finalise at h
  split at h
  · cases h
  · cases h
  rename_i document job hget hgetJob
  obtain ⟨⟨document', job'⟩, hrows, h⟩ := bind_eq_ok_iff.mp h
  obtain ⟨db₁, hadd, h⟩ := bind_eq_ok_iff.mp h
  obtain ⟨db₂, hsave, h⟩ := bind_eq_ok_iff.mp h
  obtain ⟨db₃, hsaveJob, h⟩ := bind_eq_ok_iff.mp h
  cases h
  obtain ⟨htime, hjobTime, -⟩ := finaliseRows_times hrows
  obtain ⟨hstatus, hjobStatus, -, hrevises, -, hjobRevises, -⟩ := finaliseRows_spec hrows
  obtain ⟨-, rows, -, rfl⟩ := addChunks_eq_ok hadd
  have hrestamps : Restamps { db with chunks := rows } db₃ := by
    replace hsave : ({ db with chunks := rows } : Database).saveDocument? (some document') = .ok db₂ := hsave
    replace hsaveJob : db₂.saveJob? (some job') = .ok db₃ := hsaveJob
    apply Restamps.of_save _ _ hsave hsaveJob
    · rintro _ ⟨⟩
      apply hdocument.ne hget (by simp [hstatus]) hrevises htime
    · rintro _ ⟨⟩
      apply hjob.ne hgetJob (hlinked.documentId_eq hgetJob) (by simp [hjobStatus]) hjobRevises hjobTime
  use hrestamps.documents, hrestamps.jobs

theorem markFailed_restamps {code : Text} (hlinked : db.Linked documentId jobId)
    (hdocument : db.NewDocumentTime documentId [.processing] (clock 0))
    (hjob : db.NewJobTime documentId [.running] (clock 1))
    (h : markFailed clock documentId jobId code db = .ok db') :
  db.Restamps db'
  := by
  obtain ⟨document?, hfail, h⟩ := bind_eq_ok_iff.mp h
  obtain ⟨db₁, hsave, h⟩ := bind_eq_ok_iff.mp h
  obtain ⟨job?, hfailJob, hsaveJob⟩ := bind_eq_ok_iff.mp h
  apply Restamps.of_save _ _ hsave hsaveJob
  · rintro document' ⟨⟩
    cases hget : db.getDocument documentId with
    | none =>
        rw [hget] at hfail
        cases hfail
    | some document =>
        have htime := failDocument_times hfail
        rw [hget] at hfail
        rcases failDocument_spec hfail with ⟨-, hnone⟩ | ⟨_, hsome, hstatus, -, hrevises⟩
        · cases hnone
        · cases hsome
          apply hdocument.ne hget (by simp [hstatus]) hrevises htime
  · rintro job' ⟨⟩
    obtain ⟨job, hgetJob, htime, -, hrevises⟩ := failJob_times hfailJob
    rw [hgetJob] at hfailJob
    rcases failJob_spec hfailJob with ⟨-, hnone⟩ | ⟨_, -, hstatus, -⟩
    · cases hnone
    · apply hjob.ne hgetJob (hlinked.documentId_eq hgetJob) (by simp [hstatus]) hrevises htime

theorem markDispatchFailed_restamps (hlinked : db.Linked documentId jobId)
    (hdocument : db.NewDocumentTime documentId [.queued, .processing] (clock 0))
    (hjob : db.NewJobTime documentId [.queued, .running] (clock 1))
    (h : markDispatchFailed clock documentId jobId db = .ok db') :
  db.Restamps db'
  := by
  unfold markDispatchFailed at h
  split at h
  · rename_i document job hget hgetJob
    obtain ⟨document', hfail, h⟩ := bind_eq_ok_iff.mp h
    obtain ⟨db₁, hsave, h⟩ := bind_eq_ok_iff.mp h
    obtain ⟨job', hfailJob, hsaveJob⟩ := bind_eq_ok_iff.mp h
    obtain ⟨hfrom, -, hrevises, -⟩ := Document.markFailed_spec (liftDomain_eq_ok_iff.mp hfail)
    obtain ⟨hjobFrom, -, hjobRevises, -⟩ := IngestionJob.fail_spec (liftDomain_eq_ok_iff.mp hfailJob)
    replace hsave : db.saveDocument? (some document') = .ok db₁ := hsave
    replace hsaveJob : db₁.saveJob? (some job') = .ok db' := hsaveJob
    apply Restamps.of_save _ _ hsave hsaveJob
    · rintro _ ⟨⟩
      apply hdocument.ne hget _ hrevises (Document.markFailed_time (liftDomain_eq_ok_iff.mp hfail))
      cases hstatus : document.status <;> simp [hstatus, documentTransitions] at hfrom ⊢
    · rintro _ ⟨⟩
      apply hjob.ne hgetJob (hlinked.documentId_eq hgetJob) _ hjobRevises (IngestionJob.fail_times (liftDomain_eq_ok_iff.mp hfailJob)).1
      cases hstatus : job.status <;> simp [hstatus, jobTransitions] at hjobFrom ⊢
  · cases h
    apply Restamps.refl

theorem markDeleting_restamps {result : Document × List Uuid}
    (hdocument : db.NewDocumentTime documentId [.ready, .failed] (clock 0))
    (h : markDeleting clock documentId db = .ok (result, db')) :
  db.Restamps db'
  := by
  unfold markDeleting at h
  split at h
  · cases h
  rename_i document hget
  obtain ⟨row, hrow, h⟩ := bind_eq_ok_iff.mp h
  rcases markRows_spec hrow with ⟨rfl, -⟩ | ⟨document', rfl, hstatus, -, hrevises⟩
  · cases h
    apply Restamps.refl
  obtain ⟨db₁, hsave, h⟩ := bind_eq_ok_iff.mp h
  cases h
  have hrestamps : db.Restamps db₁ := by
    replace hsave : db.saveDocument? (some document') = .ok db₁ := hsave
    apply Restamps.of_save _ _ hsave (rfl : db₁.saveJob? none = .ok db₁)
    · rintro _ ⟨⟩
      apply hdocument.ne hget hstatus hrevises (markRows_time hrow)
    · rintro _ ⟨⟩
  use hrestamps.documents, hrestamps.jobs

theorem insertSubmission_restamps {document : Document} {job : IngestionJob}
    (h : insertSubmission document job db = .ok db') :
  db.Restamps db'
  := by
  unfold insertSubmission at h
  split at h
  · cases h
  obtain ⟨db₁, hadd, h⟩ := bind_eq_ok_iff.mp h
  obtain ⟨documents, hdocuments, rfl⟩ := addDocument_eq_ok hadd
  obtain ⟨-, jobs, hjobs, rfl⟩ := addJob_eq_ok h
  apply Restamps.of_mem
  · intro row hrow
    rcases (Table.mem_insert? hdocuments).mp hrow with hold | rfl
    · apply Or.inl hold
    · apply Or.inr (Table.get_eq_none_iff.mp (Table.insert?_eq_some_iff.mp hdocuments).1)
  · intro row hrow
    rcases (Table.mem_insert? hjobs).mp hrow with hold | rfl
    · apply Or.inl hold
    · apply Or.inr (Table.get_eq_none_iff.mp (Table.insert?_eq_some_iff.mp hjobs).1)

/-- Removal changes no row. -/
theorem Removed.restamps (h : Removed db db' d) :
  db.Restamps db'
  := .of_mem (fun row hrow => Or.inl ((h.mem_documents row).mp hrow).1)
      fun row hrow => Or.inl ((h.mem_jobs row).mp hrow).1

end Database

namespace System

variable {S : Services} {s s' : System}

/-- The rows the transaction of a step stamps, and the readings of the clock it stamps them with: those of
a document and of its job, when they have certain statuses. -/
structure Stamping where
  documentId : Uuid
  documentStatuses : List DocumentStatus
  documentTime : Timestamp
  jobStatuses : List IngestionJobStatus
  jobTime : Timestamp

def stamping (s : System) : Event → Option Stamping
  | .submission i (.markDispatchFailed clock _) =>
      (s.submissions i).ids.map fun ids =>
        ⟨ids.1, [.queued, .processing], clock 0, [.queued, .running], clock 1⟩
  | .delivery _ (.start jobId clock _) =>
      (s.stores.db.getJob jobId).map fun job =>
        ⟨job.documentId, [.queued, .failed], clock 2, [.queued, .failed], clock 3⟩
  | .delivery i (.finalise clock _) | .delivery i (.markFailed clock _) =>
      (s.deliveries i).running.map fun a =>
        ⟨a.documentId, [.processing], clock 0, [.running], clock 1⟩
  | .deletion _ (.mark documentId clock _) =>
      some ⟨documentId, [.ready, .failed], clock 0, [], clock 0⟩
  | _ => none

/-- The step stamps rows with new times. -/
def Timed (s : System) (e : Event) : Prop :=
  ∀ stamping ∈ s.stamping e,
    s.stores.db.NewDocumentTime stamping.documentId stamping.documentStatuses stamping.documentTime
      ∧ s.stores.db.NewJobTime stamping.documentId stamping.jobStatuses stamping.jobTime

instance decidableTimed (s : System) (e : Event) :
    Decidable (s.Timed e) :=
  inferInstanceAs (Decidable (∀ stamping ∈ s.stamping e,
    s.stores.db.NewDocumentTime stamping.documentId stamping.documentStatuses stamping.documentTime
      ∧ s.stores.db.NewJobTime stamping.documentId stamping.jobStatuses stamping.jobTime))

/-- The times of the final or failure transaction of an attempt are new to its document and its job. -/
theorem Timed.new_of_running {i : ℕ} {event : DeliveryEvent} {a : Attempt} {clock : Clock}
    {fault : Option AppError} (h : s.Timed (.delivery i event)) (ha : (s.deliveries i).running = some a)
    (hevent : event = .finalise clock fault ∨ event = .markFailed clock fault) :
  s.stores.db.NewDocumentTime a.documentId [.processing] (clock 0)
    ∧ s.stores.db.NewJobTime a.documentId [.running] (clock 1)
  := by
  rcases hevent with rfl | rfl
  · apply h _ (Option.map_eq_some_iff.mpr ⟨a, ha, rfl⟩)
  · apply h _ (Option.map_eq_some_iff.mpr ⟨a, ha, rfl⟩)

/-- A timed step of a call of `submit`. -/
theorem Timed.restamps_submission {i : ℕ} {event : SubmissionEvent} {stores : Stores}
    {submission : Submission} (h : s.Timed (.submission i event)) (hs : s.Sound S)
    (hstep : (s.submissions i).step S s.stores event = some (stores, submission)) :
  s.stores.db.Restamps stores.db
  := by
  cases event with
  | markDispatchFailed clock fault =>
      cases hi : s.submissions i with
      | undelivered document job message =>
          have hids : (s.submissions i).ids = some (document.id, job.id) := by
            rw [hi]
            rfl
          obtain ⟨hdocument, hjob⟩ := h _ (Option.map_eq_some_iff.mpr ⟨_, hids, rfl⟩)
          rw [hi] at hstep
          simp only [Submission.step] at hstep
          split at hstep
          · cases hstep
            apply Database.Restamps.refl
          · rename_i hmark
            cases hstep
            apply Database.markDispatchFailed_restamps (hs.linked_submission hids) hdocument hjob
              (transaction_eq_ok_iff.mp hmark).2
      | _ =>
          rw [hi] at hstep
          cases hstep
  | _ =>
      have hsteps := hs.submission_steps hstep
      generalize s.submissions i = before at hstep hsteps
      cases hsteps with
      | insert hinsert => apply Database.insertSubmission_restamps hinsert
      | failDispatch => simp [Submission.step, Submission.ids] at hstep
      | _ => apply Database.Restamps.refl

/-- A timed step of a call of `process`. -/
theorem Timed.restamps_delivery {i : ℕ} {event : DeliveryEvent} {stores : Stores} {delivery : Delivery}
    (h : s.Timed (.delivery i event)) (hs : s.Sound S)
    (hstep : (s.deliveries i).step S s.stores event = some (stores, delivery)) :
  s.stores.db.Restamps stores.db
  := by
  cases event with
  | start jobId clock fault =>
      have hnew : ∀ job ∈ s.stores.db.jobs, job.id = jobId →
          s.stores.db.NewDocumentTime job.documentId [.queued, .failed] (clock 2)
            ∧ s.stores.db.NewJobTime job.documentId [.queued, .failed] (clock 3) := by
        intro job hjob hid
        apply h _ (Option.map_eq_some_iff.mpr ⟨job, Table.get_eq_some_iff.mpr ⟨hjob, hid⟩, rfl⟩)
      simp only [Delivery.step] at hstep
      split at hstep
      · cases hstep
      split at hstep
      · cases hstep
        apply Database.Restamps.refl
      all_goals
        rename_i hstart
        cases hstep
        apply Database.startJob_restamps hnew (transaction_eq_ok_iff.mp hstart).2
  | finalise clock fault =>
      cases hi : s.deliveries i with
      | upserted a chunks =>
          have ha : (s.deliveries i).running = some a := by
            rw [hi]
            rfl
          obtain ⟨hdocument, hjob⟩ := h.new_of_running ha (Or.inl rfl)
          rw [hi] at hstep
          simp only [Delivery.step] at hstep
          split at hstep
          · cases hstep
            apply Database.Restamps.refl
          · rename_i hfinalise
            cases hstep
            apply Database.finalise_restamps (hs.linked_delivery (Delivery.attempt_of_running ha))
              hdocument hjob (transaction_eq_ok_iff.mp hfinalise).2
      | _ =>
          rw [hi] at hstep
          cases hstep
  | markFailed clock fault =>
      cases hi : s.deliveries i with
      | failing a error =>
          have ha : (s.deliveries i).running = some a := by
            rw [hi]
            rfl
          obtain ⟨hdocument, hjob⟩ := h.new_of_running ha (Or.inr rfl)
          rw [hi] at hstep
          simp only [Delivery.step] at hstep
          split at hstep
          · cases hstep
            apply Database.Restamps.refl
          · rename_i hmark
            cases hstep
            apply Database.markFailed_restamps (hs.linked_delivery (Delivery.attempt_of_running ha))
              hdocument hjob (transaction_eq_ok_iff.mp hmark).2
      | _ =>
          rw [hi] at hstep
          cases hstep
  | _ =>
      have hsteps := hs.delivery_steps hstep
      generalize s.deliveries i = before at hsteps
      cases hsteps <;> apply Database.Restamps.refl

/-- A timed step of a call of `delete`. -/
theorem Timed.restamps_deletion {i : ℕ} {event : DeletionEvent} {stores : Stores} {deletion : Deletion}
    (h : s.Timed (.deletion i event)) (hs : s.Sound S)
    (hstep : (s.deletions i).step S s.stores event = some (stores, deletion)) :
  s.stores.db.Restamps stores.db
  := by
  cases event with
  | mark documentId clock fault =>
      obtain ⟨hdocument, -⟩ := h _ rfl
      simp only [Deletion.step] at hstep
      split at hstep
      · cases hstep
      split at hstep
      · cases hstep
        apply Database.Restamps.refl
      · rename_i hmark
        cases hstep
        apply Database.markDeleting_restamps hdocument (transaction_eq_ok_iff.mp hmark).2
  | finish fault =>
      have hsteps := hs.deletion_steps hstep
      generalize s.deletions i = before at hsteps
      cases hsteps with
      | finish => apply (deleteDocument_removed hs.coherent _).restamps
      | interrupt => apply Database.Restamps.refl
  | _ =>
      have hsteps := hs.deletion_steps hstep
      generalize s.deletions i = before at hsteps
      cases hsteps <;> apply Database.Restamps.refl

/-- In a timed step each row that changes gets a new `updated_at`. -/
theorem Timed.restamps {e : Event} (h : s.Timed e) (hs : s.Sound S) (hstep : step S s e = some s') :
  s.stores.db.Restamps s'.stores.db
  := by
  rcases step_eq_some hstep with ⟨i, event, stores, submission, issued, rfl, hsub, -, rfl⟩
    | ⟨i, event, stores, delivery, rfl, hdel, rfl⟩ | ⟨i, event, stores, deletion, rfl, hdel, rfl⟩
  · apply h.restamps_submission hs hsub
  · apply h.restamps_delivery hs hdel
  · apply h.restamps_deletion hs hdel

/-- The machine of the timed steps. -/
def timed (S : Services) : Machine System Event :=
  (machine S).restrict Timed

theorem step_timed_iff {e : Event} :
  (timed S).step s e = some s' ↔ s.Timed e ∧ step S s e = some s'
  := (machine S).step_restrict_iff Timed

theorem run_timed_iff {es : List Event} :
  (timed S).run s es = some s' ↔ (machine S).run s es = some s' ∧ (machine S).Meets Timed s es
  := (machine S).run_restrict_iff Timed

theorem reachable_of_timed (h : (timed S).Reachable s) :
  (machine S).Reachable s
  := h.of_restrict

end System

end KnowledgeSearch

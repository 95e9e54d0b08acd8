import KnowledgeSearch.System.Keeping

/-!
# What the responses to uploads say

A client of `POST /documents` learns from the status what has become of the upload, whatever other calls do
meanwhile and afterwards: `System.submit_answers`.
-/

namespace KnowledgeSearch

open Database

/-! ### The errors of a call of `submit` -/

/-- The services raise errors of their own kind. -/
def SubmissionEvent.Genuine : SubmissionEvent → Prop
  | insert fault | lookUp fault | markDispatchFailed _ fault =>
      ∀ e ∈ fault, e = .integrity ∨ e = .database
  | removeFile fault => ∀ e ∈ fault, e = .os
  | enqueue outcome => ∀ e delivered, outcome = .raised e delivered → e.Unhandled
  | begin _ _ _ _ _ | save _ | build _ | crash => True

theorem AppError.unhandled_of_database {e : AppError} (h : e = .integrity ∨ e = .database) :
  e.Unhandled
  := by
  rcases h with rfl | rfl
  · trivial
  · trivial

/-- The errors of the copy loop and of what is around it. -/
theorem copyBlocks_eq_error {maxBytes : ℕ} {fault : Option SaveFault} {source : List Bytes} :
    ∀ {count : ℕ} {written : Bytes} {e : AppError},
      copyBlocks maxBytes fault count written source = .error e →
        e = .os ∨ ∃ code message, e = .ingestion code message
  := by
  induction source with
  | nil =>
      intro count written e h
      rw [copyBlocks] at h
      split at h
      · cases h
        exact Or.inl rfl
      · cases h
  | cons block source ih =>
      intro count written e h
      rw [copyBlocks] at h
      split at h
      · cases h
        exact Or.inl rfl
      split at h
      · cases h
      split at h
      · cases h
        exact Or.inr ⟨_, _, rfl⟩
      split at h
      · cases h
        exact Or.inl rfl
      · apply ih h

theorem guardedSave_eq_error {maxBytes : ℕ} {fault : Option SaveFault} {source : List Bytes}
    {e : AppError} (h : guardedSave maxBytes fault source = .error e) :
  e = .os ∨ ∃ code message, e = .ingestion code message
  := by
  unfold guardedSave at h
  split at h
  · cases h
    exact Or.inl rfl
  split at h
  · rename_i hcopy
    cases h
    apply copyBlocks_eq_error hcopy
  split at h
  · cases h
    exact Or.inl rfl
  split at h
  · cases h
    exact Or.inr ⟨_, _, rfl⟩
  split at h
  · cases h
    exact Or.inl rfl
  · cases h

theorem save_eq_error {fs fs' : FileSystem} {root : List Text} {sha256 : Bytes → Text} {id : Uuid}
    {mediaType : DocumentMediaType} {source : List Bytes} {maxBytes : ℕ} {fault : Option SaveFault}
    {e : AppError} (h : fs.save root sha256 id mediaType source maxBytes fault = (fs', .error e)) :
  e = .os ∨ ∃ code message, e = .ingestion code message
  := by
  unfold FileSystem.save at h
  rw [resolveKey_storageKey] at h
  simp only at h
  split at h
  · cases (Prod.mk.inj h).2
    exact Or.inr ⟨_, _, rfl⟩
  split at h
  · cases (Prod.mk.inj h).2
    exact Or.inl rfl
  split at h
  · cases (Prod.mk.inj h).2
    exact Or.inl rfl
  split at h
  · rename_i hguarded
    cases (Prod.mk.inj h).2
    apply guardedSave_eq_error hguarded
  · cases (Prod.mk.inj h).2

/-- The rows cannot be built for a reason of the domain. -/
theorem buildSubmission_eq_error {clock : Clock} {t : Ticket} {filename : Text}
    {stored : StoredDocument} {e : AppError}
    (h : buildSubmission clock t filename stored = .error e) :
  e.Unhandled
  := by
  have hdomain : ∀ {α : Type} {x : Except DomainError α}, liftDomain x = .error e → e.Unhandled := by
    intro α x hx
    obtain ⟨_, rfl⟩ := liftDomain_eq_error hx
    trivial
  rcases bind_eq_error_iff.mp h with hcreate | ⟨_, -, h⟩
  · apply hdomain hcreate
  rcases bind_eq_error_iff.mp h with hqueue | ⟨_, -, h⟩
  · apply hdomain hqueue
  rcases bind_eq_error_iff.mp h with hjob | ⟨_, -, h⟩
  · apply hdomain hjob
  · cases h

/-- The rows cannot be inserted because there is a document with the content, or because of the
constraints. -/
theorem insertSubmission_eq_error {document : Document} {job : IngestionJob} {db : Database}
    {e : AppError} (h : insertSubmission document job db = .error e) :
  (∃ row ∈ db.documents, row.sha256 = document.sha256 ∧ e = .duplicateDocument row.id)
    ∨ e = .integrity
  := by
  unfold insertSubmission at h
  split at h
  · rename_i row hrow
    cases h
    left
    refine ⟨row, List.mem_of_find?_eq_some hrow, ?_, rfl⟩
    simpa using List.find?_some hrow
  · right
    rcases bind_eq_error_iff.mp h with hadd | ⟨db₁, -, hadd⟩
    · unfold addDocument at hadd
      split at hadd
      · cases hadd
        rfl
      split at hadd
      · cases hadd
        rfl
      · cases hadd
    · unfold addJob at hadd
      split at hadd
      · cases hadd
      · cases hadd
        rfl

theorem markDispatchFailed_eq_error {clock : Clock} {documentId jobId : Uuid} {db : Database}
    {e : AppError} (h : markDispatchFailed clock documentId jobId db = .error e) :
  e.Unhandled
  := by
  have hdomain : ∀ {α : Type} {x : Except DomainError α}, liftDomain x = .error e → e.Unhandled := by
    intro α x hx
    obtain ⟨_, rfl⟩ := liftDomain_eq_error hx
    trivial
  unfold markDispatchFailed at h
  split at h
  · rcases bind_eq_error_iff.mp h with hfail | ⟨_, -, h⟩
    · apply hdomain hfail
    rcases bind_eq_error_iff.mp h with hsave | ⟨_, -, h⟩
    · rw [saveDocument_eq_error hsave]
      trivial
    rcases bind_eq_error_iff.mp h with hfail | ⟨_, -, h⟩
    · apply hdomain hfail
    · rw [saveJob_eq_error h]
      trivial
  · cases h

namespace System

variable {S : Services} {s s' : System} {i : ℕ} {t : Ticket} {filename : Text}

/-! ### A call of `submit` -/

/-- The errors for which a call of `submit` refuses an upload: it is not valid, or there is a document
with its content, or they are errors without a handler. -/
inductive Refuses (S : Services) (s : System) (t : Ticket) : AppError → Prop
  | ingestion {code : IngestionErrorCode} {message : String} : Refuses S s t (.ingestion code message)
  | duplicate {u : Ticket} (hu : u ∈ s.issued) (hne : u.documentId ≠ t.documentId)
      (hsha : S.sha256 u.content = S.sha256 t.content) : Refuses S s t (.duplicateDocument u.documentId)
  | unhandled {error : AppError} (h : error.Unhandled) : Refuses S s t error

theorem Refuses.mono {error : AppError} (h : s.Refuses S t error) (hissued : s.issued ⊆ s'.issued) :
  s'.Refuses S t error
  := by
  cases h with
  | ingestion => exact Refuses.ingestion
  | duplicate hu hne hsha => exact Refuses.duplicate (hissued hu) hne hsha
  | unhandled h => exact Refuses.unhandled h

/-- What is true of the upload of a ticket where its call of `submit` stands. -/
inductive Receiving (S : Services) (s : System) (t : Ticket) (filename : Text) : Submission → Prop
  | accepted {source : List Bytes} (hcontent : t.content = sourceBytes source)
      (habsent : s.stores.Absent t.documentId t.jobId) :
      Receiving S s t filename (.accepted t filename source)
  | saved {stored : StoredDocument} (hunlisted : s.stores.Unlisted t.documentId t.jobId)
      (hfile : ⟨t.path, t.content⟩ ∈ s.stores.fs.files) :
      Receiving S s t filename (.saved t filename stored)
  | built {document : Document} {job : IngestionJob} (hnames : t.Names document)
      (hfilename : document.originalFilename = filename) (hjob : job.id = t.jobId)
      (hunlisted : s.stores.Unlisted t.documentId t.jobId)
      (hfile : ⟨t.path, t.content⟩ ∈ s.stores.fs.files) :
      Receiving S s t filename (.built document job)
  | rejected {document : Document} {job : IngestionJob} {submission : Submission}
      (hstands : submission = .conflicted document job
        ∨ ∃ error, submission = .compensating document job error ∧ s.Refuses S t error)
      (hnames : t.Names document) (hunlisted : s.stores.Unlisted t.documentId t.jobId) :
      Receiving S s t filename submission
  | lookingUp {document : Document} {job : IngestionJob} (hnames : t.Names document)
      (habsent : s.stores.Absent t.documentId t.jobId) :
      Receiving S s t filename (.lookingUp document job)
  | inserted {document : Document} {job : IngestionJob} {submission : Submission}
      (hstands : submission = .inserted document job
        ∨ ∃ message, submission = .undelivered document job message)
      (hnames : t.Names document) (hfilename : document.originalFilename = filename)
      (hjob : job.id = t.jobId) (hkeeps : s.Keeps S t filename) : Receiving S s t filename submission
  | returned {document : Document} {job : IngestionJob} (hnames : t.Names document)
      (hfilename : document.originalFilename = filename) (hjob : job.id = t.jobId)
      (hkeeps : s.Keeps S t filename) (hqueues : s.Queues S t) :
      Receiving S s t filename (.returned document job)
  | unscheduled {message : String} (hkeeps : s.Keeps S t filename) :
      Receiving S s t filename (.raised (.queueDispatch message (some t.documentId) (some t.jobId)))
  | refused {error : AppError} (habsent : s.stores.Absent t.documentId t.jobId)
      (hrefuses : s.Refuses S t error) : Receiving S s t filename (.raised error)
  | unhandled {error : AppError} (h : error.Unhandled) : Receiving S s t filename (.raised error)
  | died : Receiving S s t filename .died

/-- Steps of other calls leave what is true of the upload as it is. -/
theorem Receiving.other {e : Event} (h : s.Receiving S t filename (s.submissions i)) (hs : s.Sound S)
    (hcancels : s.Cancels) (ht : t ∈ s.issued) (halone : s.Alone i t.documentId t.jobId)
    (hothers : Others i e) (hstep : System.step S s e = some s') :
  s'.Receiving S t filename (s.submissions i)
  := by
  have hissued := issued_subset_of_step hstep
  have hunlisted := halone.unlisted_step hs hothers hstep
  have habsent := halone.absent_step hs hothers hstep
  have hfree : ∀ k event, e = .submission k event →
      (s.submissions k).storing ≠ some t.documentId := by
    rintro k event rfl hstoring
    obtain ⟨jobId, hids⟩ := Submission.ids_of_storing hstoring
    exact (halone.ids_ne hothers hids).1 rfl
  have hkeeps : s.Keeps S t filename → s'.Keeps S t filename :=
    fun hkeeps => hkeeps.step hs hstep hfree
  have hfile : (s.submissions i).pending = some t.documentId →
      ⟨t.path, t.content⟩ ∈ s.stores.fs.files → ⟨t.path, t.content⟩ ∈ s'.stores.fs.files := by
    intro hpending hfile
    apply hs.file_step hstep hfile _ hfree
    intro k document hk hid
    apply hs.pending i _ hpending
    apply Known.deletion k document hk hid
  generalize s.submissions i = submission at h hfile
  cases h with
  | accepted hcontent h => exact Receiving.accepted hcontent (habsent h)
  | saved h hstored => exact Receiving.saved (hunlisted h) (hfile rfl hstored)
  | built hnames hfilename hjob h hstored =>
      apply Receiving.built hnames hfilename hjob (hunlisted h)
      apply hfile _ hstored
      simp only [Submission.pending, hnames.id_eq]
  | @rejected document job _ hstands hnames h =>
      have hstands' : submission = .conflicted document job
          ∨ ∃ error, submission = .compensating document job error ∧ s'.Refuses S t error := by
        rcases hstands with hstands | ⟨error, hstands, hrefuses⟩
        · exact Or.inl hstands
        · exact Or.inr ⟨error, hstands, hrefuses.mono hissued⟩
      exact Receiving.rejected hstands' hnames (hunlisted h)
  | lookingUp hnames h => exact Receiving.lookingUp hnames (habsent h)
  | inserted hstands hnames hfilename hjob h =>
      exact Receiving.inserted hstands hnames hfilename hjob (hkeeps h)
  | returned hnames hfilename hjob h hqueues =>
      exact Receiving.returned hnames hfilename hjob (hkeeps h) (hqueues.step hs hcancels ht hstep)
  | unscheduled h => exact Receiving.unscheduled (hkeeps h)
  | refused h hrefuses => exact Receiving.refused (habsent h) (hrefuses.mono hissued)
  | unhandled h => exact Receiving.unhandled h
  | died => exact Receiving.died

/-! ### The steps of the call -/

/-- The document whose row has the digest of an upload was uploaded with a content of that digest. -/
theorem Authentic.refuses (h : s.Authentic S) (hdistinct : Distinct s.issued) (ht : t ∈ s.issued)
    {document row : Document} (hnames : t.Names document) (hdocument : document.Authentic S s.issued)
    (hrow : row ∈ s.stores.db.documents) (hsha : row.sha256 = document.sha256)
    (hne : row.id ≠ t.documentId) :
  s.Refuses S t (.duplicateDocument row.id)
  := by
  obtain ⟨u, hu, hunames, husha, -⟩ := h.rows row hrow
  obtain ⟨v, hv, hvnames, hvsha, -⟩ := hdocument
  obtain rfl := hdistinct.documents v hv t ht (hvnames.id_eq.symm.trans hnames.id_eq)
  rw [hunames.id_eq] at hne ⊢
  apply Refuses.duplicate hu hne
  rw [← husha, hsha, hvsha]

/-- The removal of the file of an upload that is rejected. -/
theorem Sound.absent_of_delete (hs : s.Sound S) (ht : t ∈ s.issued) {document : Document}
    (hnames : t.Names document) (hunlisted : s.stores.Unlisted t.documentId t.jobId) {fs : FileSystem}
    (hdelete : s.stores.fs.delete S.root document.storageKey = .ok fs) :
  ({ s.stores with fs } : Stores).Absent t.documentId t.jobId
  := by
  rw [hnames.storageKey_eq] at hdelete
  constructor
  · use hunlisted.documents, hunlisted.jobs, hunlisted.messages
  · apply hs.stores.unfiled_delete hs.distinct ht hdelete

/-- A file that is to be removed can be, unless the call of the operating system fails. -/
theorem Sound.unhandled_of_delete (hs : s.Sound S) {document : Document} (hnames : t.Names document)
    {fault : Option AppError} (hgenuine : ∀ e ∈ fault, e = .os) {e : AppError}
    (h : transaction fault (s.stores.fs.delete S.root document.storageKey) = .error e) :
  e.Unhandled
  := by
  cases fault with
  | some e' =>
      obtain rfl := Except.error.inj h
      rw [hgenuine _ rfl]
      trivial
  | none =>
      rw [hnames.storageKey_eq] at h
      obtain ⟨fs, hok⟩ : ∃ fs, s.stores.fs.delete S.root (storageKey t.documentId t.mediaType)
          = .ok fs := by
        apply FileSystem.delete_isOk hs.stores.shallow
        intro f hf
        obtain ⟨u, -, rfl⟩ := hs.stores.files f hf
        rfl
      rw [transaction_none, hok] at h
      cases h

/-- Storing the file. -/
theorem Receiving.save {source : List Bytes} {fault : Option SaveFault}
    (hcontent : t.content = sourceBytes source) (habsent : s.stores.Absent t.documentId t.jobId)
    (hstep : (Submission.accepted t filename source).step S s.stores (.save fault)
      = some (s'.stores, s'.submissions i)) :
  s'.Receiving S t filename (s'.submissions i)
  := by
  simp only [Submission.step] at hstep
  split at hstep
  · rename_i fs e hsave
    obtain ⟨hstores, hsubmission⟩ := Prod.mk.inj (Option.some.inj hstep)
    obtain ⟨-, ⟨_, -, hfiles⟩ | ⟨hok, -⟩⟩ := FileSystem.save_spec hsave
    · rw [← hsubmission]
      apply Receiving.refused
      · rw [← hstores]
        constructor
        · use habsent.documents, habsent.jobs, habsent.messages
        · simp only [Stores.Unfiled, hfiles]
          apply habsent.unfiled
      · rcases save_eq_error hsave with rfl | ⟨code, message, rfl⟩
        · exact Refuses.unhandled trivial
        · exact Refuses.ingestion
    · cases hok
  · rename_i fs stored hsave
    obtain ⟨hstores, hsubmission⟩ := Prod.mk.inj (Option.some.inj hstep)
    obtain ⟨-, ⟨_, herror, -⟩ | ⟨-, hfiles⟩⟩ := FileSystem.save_spec hsave
    · cases herror
    · rw [← hsubmission]
      apply Receiving.saved
      · rw [← hstores]
        use habsent.documents, habsent.jobs, habsent.messages
      · rw [← hstores, hcontent]
        simp only [hfiles, Table.mem_put]
        exact Or.inl rfl

/-- Building the rows. -/
theorem Receiving.build {stored : StoredDocument} {clock : Clock}
    (hkey : stored.storageKey = storageKey t.documentId t.mediaType)
    (hunlisted : s.stores.Unlisted t.documentId t.jobId)
    (hfile : ⟨t.path, t.content⟩ ∈ s.stores.fs.files)
    (hstep : (Submission.saved t filename stored).step S s.stores (.build clock)
      = some (s'.stores, s'.submissions i)) :
  s'.Receiving S t filename (s'.submissions i)
  := by
  simp only [Submission.step] at hstep
  split at hstep
  · rename_i e hbuild
    rw [← (Prod.mk.inj (Option.some.inj hstep)).2]
    exact Receiving.unhandled (buildSubmission_eq_error hbuild)
  · rename_i document job hbuild
    obtain ⟨hstores, hsubmission⟩ := Prod.mk.inj (Option.some.inj hstep)
    obtain ⟨-, hid, hmedia, hdocumentKey, -, -, -, hjob, -⟩ := buildSubmission_spec hbuild
    rw [hstores] at hunlisted hfile
    rw [← hsubmission]
    exact Receiving.built ⟨hid, hmedia, hdocumentKey.trans hkey⟩ (buildSubmission_filename hbuild) hjob
      hunlisted hfile

/-- Inserting the rows. -/
theorem Receiving.insert {document : Document} {job : IngestionJob} {fault : Option AppError}
    (hs : s.Sound S) (hauthentic : s.Authentic S) (ht : t ∈ s.issued)
    (hi : s.submissions i = .built document job) (hnames : t.Names document)
    (hfilename : document.originalFilename = filename) (hjob : job.id = t.jobId)
    (hunlisted : s.stores.Unlisted t.documentId t.jobId)
    (hfile : ⟨t.path, t.content⟩ ∈ s.stores.fs.files)
    (hgenuine : ∀ e ∈ fault, e = .integrity ∨ e = .database)
    (hissued : s.issued ⊆ s'.issued)
    (hstep : (Submission.built document job).step S s.stores (.insert fault)
      = some (s'.stores, s'.submissions i)) :
  s'.Receiving S t filename (s'.submissions i)
  := by
  simp only [Submission.step] at hstep
  split at hstep
  · obtain ⟨hstores, hsubmission⟩ := Prod.mk.inj (Option.some.inj hstep)
    rw [hstores] at hunlisted
    rw [← hsubmission]
    exact Receiving.rejected (Or.inl rfl) hnames hunlisted
  · rename_i e hne herror
    obtain ⟨hstores, hsubmission⟩ := Prod.mk.inj (Option.some.inj hstep)
    have hrefuses : s'.Refuses S t e := by
      cases fault with
      | some e' =>
          obtain rfl := Except.error.inj herror
          exact Refuses.unhandled (AppError.unhandled_of_database (hgenuine _ rfl))
      | none =>
          rcases insertSubmission_eq_error herror with ⟨row, hrow, hsha, rfl⟩ | rfl
          · have hbuilt := hauthentic.submissions i
            rw [hi] at hbuilt
            apply Refuses.mono _ hissued
            apply hauthentic.refuses hs.distinct ht hnames hbuilt hrow hsha
              (hunlisted.documents row hrow)
          · exact Refuses.unhandled trivial
    rw [hstores] at hunlisted
    rw [← hsubmission]
    exact Receiving.rejected (Or.inr ⟨e, rfl, hrefuses⟩) hnames hunlisted
  · rename_i db hinsert
    obtain ⟨hstores, hsubmission⟩ := Prod.mk.inj (Option.some.inj hstep)
    have hfollows := hs.submissions i
    rw [hi] at hfollows
    obtain ⟨u, -, hunames, hjobdocument, -, hdocument, hjobstatus, hcount⟩ := hfollows
    have hinserted := insertSubmission_eq_ok hdocument hjobstatus hcount
      (hjobdocument.trans hunames.id_eq.symm) (transaction_eq_ok_iff.mp hinsert).2
    have hholds : s'.Holds t filename := by
      constructor
      · rw [← hstores]
        use document, (hinserted.mem_documents document).mpr (Or.inr rfl)
      · rw [← hstores]
        apply hfile
    rw [← hsubmission]
    exact Receiving.inserted (Or.inl rfl) hnames hfilename hjob (Or.inr hholds)

/-- Removing the file of an upload that is rejected. -/
theorem Receiving.remove {document : Document} {job : IngestionJob} {submission : Submission}
    {fault : Option AppError} (hs : s.Sound S) (ht : t ∈ s.issued)
    (hstands : submission = .conflicted document job
      ∨ ∃ error, submission = .compensating document job error ∧ s'.Refuses S t error)
    (hnames : t.Names document) (hunlisted : s.stores.Unlisted t.documentId t.jobId)
    (hgenuine : ∀ e ∈ fault, e = .os)
    (hstep : submission.step S s.stores (.removeFile fault) = some (s'.stores, s'.submissions i)) :
  s'.Receiving S t filename (s'.submissions i)
  := by
  rcases hstands with rfl | ⟨error, rfl, hrefuses⟩
  · simp only [Submission.step] at hstep
    split at hstep
    · rename_i e herror
      rw [← (Prod.mk.inj (Option.some.inj hstep)).2]
      exact Receiving.unhandled (hs.unhandled_of_delete hnames hgenuine herror)
    · rename_i fs hdelete
      obtain ⟨hstores, hsubmission⟩ := Prod.mk.inj (Option.some.inj hstep)
      have habsent := hs.absent_of_delete ht hnames hunlisted (transaction_eq_ok_iff.mp hdelete).2
      rw [hstores] at habsent
      rw [← hsubmission]
      exact Receiving.lookingUp hnames habsent
  · simp only [Submission.step] at hstep
    split at hstep
    · rename_i e herror
      rw [← (Prod.mk.inj (Option.some.inj hstep)).2]
      exact Receiving.unhandled (hs.unhandled_of_delete hnames hgenuine herror)
    · rename_i fs hdelete
      obtain ⟨hstores, hsubmission⟩ := Prod.mk.inj (Option.some.inj hstep)
      have habsent := hs.absent_of_delete ht hnames hunlisted (transaction_eq_ok_iff.mp hdelete).2
      rw [hstores] at habsent
      rw [← hsubmission]
      exact Receiving.refused habsent hrefuses

/-- Looking for the document that has the content. -/
theorem Receiving.lookUp {document : Document} {job : IngestionJob} {fault : Option AppError}
    (hs : s.Sound S) (hauthentic : s.Authentic S) (ht : t ∈ s.issued)
    (hi : s.submissions i = .lookingUp document job) (hnames : t.Names document)
    (habsent : s.stores.Absent t.documentId t.jobId)
    (hgenuine : ∀ e ∈ fault, e = .integrity ∨ e = .database) (hissued : s.issued ⊆ s'.issued)
    (hstep : (Submission.lookingUp document job).step S s.stores (.lookUp fault)
      = some (s'.stores, s'.submissions i)) :
  s'.Receiving S t filename (s'.submissions i)
  := by
  simp only [Submission.step] at hstep
  split at hstep
  · rename_i e herror
    rw [← (Prod.mk.inj (Option.some.inj hstep)).2]
    cases fault with
    | some e' =>
        obtain rfl := Except.error.inj herror
        exact Receiving.unhandled (AppError.unhandled_of_database (hgenuine _ rfl))
    | none => cases herror
  · rename_i row hlookup
    obtain ⟨hstores, hsubmission⟩ := Prod.mk.inj (Option.some.inj hstep)
    have hfound := Except.ok.inj (transaction_eq_ok_iff.mp hlookup).2
    have hrow : row ∈ s.stores.db.documents := List.mem_of_find?_eq_some hfound
    have hsha : row.sha256 = document.sha256 := by
      simpa using List.find?_some hfound
    have hlooking := hauthentic.submissions i
    rw [hi] at hlooking
    have hrefuses := hauthentic.refuses hs.distinct ht hnames hlooking hrow hsha
      (habsent.documents row hrow)
    rw [hstores] at habsent
    rw [← hsubmission]
    exact Receiving.refused habsent (hrefuses.mono hissued)
  · rw [← (Prod.mk.inj (Option.some.inj hstep)).2]
    exact Receiving.unhandled trivial

/-- Sending the message. -/
theorem Receiving.enqueue {document : Document} {job : IngestionJob} {outcome : EnqueueOutcome}
    (hnames : t.Names document) (hfilename : document.originalFilename = filename)
    (hjob : job.id = t.jobId) (hkeeps : s'.Keeps S t filename)
    (hgenuine : ∀ e delivered, outcome = .raised e delivered → e.Unhandled)
    (hstep : (Submission.inserted document job).step S s.stores (.enqueue outcome)
      = some (s'.stores, s'.submissions i)) :
  s'.Receiving S t filename (s'.submissions i)
  := by
  simp only [Submission.step] at hstep
  split at hstep
  · obtain ⟨hstores, hsubmission⟩ := Prod.mk.inj (Option.some.inj hstep)
    have hqueues : s'.Queues S t := by
      right
      rw [← hstores, ← hjob]
      exact List.mem_append_right _ (List.mem_singleton_self _)
    rw [← hsubmission]
    exact Receiving.returned hnames hfilename hjob hkeeps hqueues
  · rename_i message delivered
    rw [← (Prod.mk.inj (Option.some.inj hstep)).2]
    exact Receiving.inserted (Or.inr ⟨message, rfl⟩) hnames hfilename hjob hkeeps
  · rename_i e delivered
    rw [← (Prod.mk.inj (Option.some.inj hstep)).2]
    exact Receiving.unhandled (hgenuine e delivered rfl)

/-- Recording that the message was not sent. -/
theorem Receiving.fail {document : Document} {job : IngestionJob} {message : String} {clock : Clock}
    {fault : Option AppError} (hnames : t.Names document) (hjob : job.id = t.jobId)
    (hkeeps : s'.Keeps S t filename) (hgenuine : ∀ e ∈ fault, e = .integrity ∨ e = .database)
    (hstep : (Submission.undelivered document job message).step S s.stores
      (.markDispatchFailed clock fault) = some (s'.stores, s'.submissions i)) :
  s'.Receiving S t filename (s'.submissions i)
  := by
  simp only [Submission.step] at hstep
  split at hstep
  · rename_i e herror
    rw [← (Prod.mk.inj (Option.some.inj hstep)).2]
    cases fault with
    | some e' =>
        obtain rfl := Except.error.inj herror
        exact Receiving.unhandled (AppError.unhandled_of_database (hgenuine _ rfl))
    | none => exact Receiving.unhandled (markDispatchFailed_eq_error herror)
  · rw [← (Prod.mk.inj (Option.some.inj hstep)).2, hnames.id_eq, hjob]
    exact Receiving.unscheduled hkeeps

/-- The steps of the call itself, once its ticket is drawn. -/
theorem Receiving.own {event : SubmissionEvent} (h : s.Receiving S t filename (s.submissions i))
    (hs : s.Sound S) (hauthentic : s.Authentic S) (ht : t ∈ s.issued) (hgenuine : event.Genuine)
    (hcall : ¬ event.IsBegin) (hstep : System.step S s (.submission i event) = some s') :
  s'.Receiving S t filename (s'.submissions i)
  := by
  obtain ⟨hsub, -⟩ := step_submission hstep
  have hissued := issued_subset_of_step hstep
  have hfollows := hs.submissions i
  have hdied : event = .crash → s'.submissions i = .died := by
    rintro rfl
    simp only [Submission.step] at hsub
    split at hsub
    · exact (Prod.mk.inj (Option.some.inj hsub)).2.symm
    · cases hsub
  by_cases hcrash : event = .crash
  · rw [hdied hcrash]
    exact Receiving.died
  generalize hi : s.submissions i = submission at h hsub hfollows
  cases h with
  | accepted hcontent habsent =>
      cases event with
      | save fault => apply Receiving.save hcontent habsent hsub
      | crash => exact absurd rfl hcrash
      | _ => cases hsub
  | saved hunlisted hfile =>
      cases event with
      | build clock => apply Receiving.build hfollows.2 hunlisted hfile hsub
      | crash => exact absurd rfl hcrash
      | _ => cases hsub
  | built hnames hfilename hjob hunlisted hfile =>
      cases event with
      | insert fault =>
          apply Receiving.insert hs hauthentic ht hi hnames hfilename hjob hunlisted hfile hgenuine
            hissued hsub
      | crash => exact absurd rfl hcrash
      | _ => cases hsub
  | @rejected document job _ hstands hnames hunlisted =>
      cases event with
      | removeFile fault =>
          have hstands' : submission = .conflicted document job
              ∨ ∃ error, submission = .compensating document job error ∧ s'.Refuses S t error := by
            rcases hstands with hstands | ⟨error, hstands, hrefuses⟩
            · exact Or.inl hstands
            · exact Or.inr ⟨error, hstands, hrefuses.mono hissued⟩
          apply Receiving.remove hs ht hstands' hnames hunlisted hgenuine hsub
      | crash => exact absurd rfl hcrash
      | _ => rcases hstands with rfl | ⟨_, rfl, -⟩ <;> cases hsub
  | lookingUp hnames habsent =>
      cases event with
      | lookUp fault =>
          apply Receiving.lookUp hs hauthentic ht hi hnames habsent hgenuine hissued hsub
      | crash => exact absurd rfl hcrash
      | _ => cases hsub
  | @inserted document job _ hstands hnames hfilename hjob hkeeps =>
      have hkeeps' : s'.Keeps S t filename := by
        apply hkeeps.step hs hstep
        rintro k event' heq
        obtain ⟨rfl, -⟩ := Event.submission.inj heq
        rw [hi]
        rcases hstands with rfl | ⟨_, rfl⟩
        · exact fun hstoring => by cases hstoring
        · exact fun hstoring => by cases hstoring
      rcases hstands with rfl | ⟨message, rfl⟩
      · cases event with
        | enqueue outcome =>
            apply Receiving.enqueue hnames hfilename hjob hkeeps' hgenuine hsub
        | crash => exact absurd rfl hcrash
        | _ => cases hsub
      · cases event with
        | markDispatchFailed clock fault =>
            apply Receiving.fail hnames hjob hkeeps' hgenuine hsub
        | crash => exact absurd rfl hcrash
        | _ => cases hsub
  | returned | unscheduled | refused | unhandled | died =>
      exact absurd hsub (Submission.step_of_ended rfl hcall)

/-! ### The run of a call among others -/

/-- What a run asks of its events: the services raise errors of their own kind in the call, which begins
once, and no other call draws its identifiers. -/
def Event.Orderly (i : ℕ) (d j : Uuid) (e : Event) : Prop :=
  e.Avoids d j ∧ ∀ event, e = .submission i event → event.Genuine ∧ ¬ event.IsBegin

/-- The step that begins a call draws its ticket or refuses the upload. -/
theorem receiving_of_begin {contentType : Option Text} {source : List Bytes} {d j : Uuid}
    (hs : s.Sound S) (hposted : s.Posted) (hfresh : s.Fresh d j)
    (hstep : System.step S s (.submission i (.begin filename contentType source d j)) = some s') :
  (∃ t ∈ s'.issued, t.documentId = d ∧ t.jobId = j ∧ t.content = sourceBytes source
      ∧ validateMediaType filename contentType = .ok t.mediaType
      ∧ s'.Receiving S t filename (s'.submissions i))
    ∨ (∃ code message, s'.submissions i = .raised (.ingestion code message)) ∧ s'.stores.Absent d j
  := by
  have habsent := hfresh.absent hs hposted
  obtain ⟨hsub, hissue⟩ := step_submission hstep
  simp only [Submission.step] at hsub
  split at hsub
  · cases hsub
  split at hsub
  · rename_i e hname
    obtain ⟨hstores, hsubmission⟩ := Prod.mk.inj (Option.some.inj hsub)
    right
    rw [← hsubmission, ← hstores]
    unfold validateFilename at hname
    split at hname
    · cases hname
      exact ⟨⟨_, _, rfl⟩, habsent⟩
    · cases hname
  rename_i safeFilename hname
  obtain rfl := validateFilename_eq_ok hname
  split at hsub
  · rename_i e hmedia
    obtain ⟨hstores, hsubmission⟩ := Prod.mk.inj (Option.some.inj hsub)
    right
    rw [← hsubmission, ← hstores]
    simp only [validateMediaType] at hmedia
    split at hmedia
    · cases hmedia
      exact ⟨⟨_, _, rfl⟩, habsent⟩
    split at hmedia
    · cases hmedia
    · cases hmedia
      exact ⟨⟨_, _, rfl⟩, habsent⟩
  · rename_i mediaType hmedia
    obtain ⟨hstores, hsubmission⟩ := Prod.mk.inj (Option.some.inj hsub)
    rw [← hsubmission] at hissue ⊢
    left
    refine ⟨⟨d, j, mediaType, sourceBytes source⟩, ?_, rfl, rfl, rfl, hmedia, ?_⟩
    · simp only [issue] at hissue
      split at hissue
      · rw [← Option.some.inj hissue]
        apply List.mem_cons_self
      · cases hissue
    · apply Receiving.accepted rfl
      rw [← hstores]
      apply habsent

/-- The steps of a run that are not those of the call. -/
theorem others_of_ne {e : Event} (h : ¬ ∃ event, e = .submission i event) :
  Others i e
  := by
  intro event heq
  apply h ⟨event, heq⟩

theorem submissions_of_others {e : Event} (hothers : Others i e)
    (hstep : System.step S s e = some s') :
  s'.submissions i = s.submissions i
  := by
  rcases step_eq_some hstep with ⟨k, event, _, _, _, rfl, -, -, rfl⟩
    | ⟨_, _, _, _, -, -, rfl⟩ | ⟨_, _, _, _, -, -, rfl⟩
  · apply Function.update_of_ne
    rintro rfl
    apply hothers event rfl
  · rfl
  · rfl

/-- The upload of a ticket, among other calls and after them. -/
theorem Receiving.run {es : List Event} (h : s.Receiving S t filename (s.submissions i))
    (hreachable : (machine S).Reachable s) (ht : t ∈ s.issued)
    (halone : s.Alone i t.documentId t.jobId)
    (hes : ∀ e ∈ es, Event.Orderly i t.documentId t.jobId e)
    (hrun : (machine S).run s es = some s') :
  s'.Receiving S t filename (s'.submissions i)
  := by
  apply ((machine S).run_induction (C := fun _ e => Event.Orderly i t.documentId t.jobId e)
    (I := fun u => (machine S).Reachable u ∧ t ∈ u.issued ∧ u.Alone i t.documentId t.jobId
      ∧ u.Receiving S t filename (u.submissions i)) _ ⟨hreachable, ht, halone, h⟩
    ((machine S).meets_of_forall fun _ => hes) hrun).2.2.2
  rintro u e u' ⟨hreachable, ht, halone, h⟩ ⟨havoids, hown⟩ hstep
  have hs := Sound.of_reachable hreachable
  refine ⟨hreachable.step hstep, issued_subset_of_step hstep ht, halone.step hs havoids hstep, ?_⟩
  by_cases hevent : ∃ event, e = .submission i event
  · obtain ⟨event, rfl⟩ := hevent
    obtain ⟨hgenuine, hcall⟩ := hown event rfl
    apply h.own hs (Authentic.of_reachable hreachable) ht hgenuine hcall hstep
  · have hothers := others_of_ne hevent
    rw [submissions_of_others hothers hstep]
    apply h.other hs (sends_of_reachable hreachable).2 ht halone hothers hstep

/-- An upload that is refused at once leaves nothing. -/
theorem refused_run {d j : Uuid} {code : IngestionErrorCode} {message : String} {es : List Event}
    (hreachable : (machine S).Reachable s) (hi : s.submissions i = .raised (.ingestion code message))
    (habsent : s.stores.Absent d j) (halone : s.Alone i d j) (hes : ∀ e ∈ es, Event.Orderly i d j e)
    (hrun : (machine S).run s es = some s') :
  s'.submissions i = .raised (.ingestion code message) ∧ s'.stores.Absent d j
  := by
  apply ((machine S).run_induction (C := fun _ e => Event.Orderly i d j e)
    (I := fun u => ((machine S).Reachable u ∧ u.Alone i d j)
      ∧ u.submissions i = .raised (.ingestion code message) ∧ u.stores.Absent d j) _
    ⟨⟨hreachable, halone⟩, hi, habsent⟩ ((machine S).meets_of_forall fun _ => hes) hrun).2
  rintro u e u' ⟨⟨hreachable, halone⟩, hi, habsent⟩ ⟨havoids, hown⟩ hstep
  have hs := Sound.of_reachable hreachable
  use ⟨hreachable.step hstep, halone.step hs havoids hstep⟩
  by_cases hevent : ∃ event, e = .submission i event
  · obtain ⟨event, rfl⟩ := hevent
    obtain ⟨hsub, -⟩ := step_submission hstep
    rw [hi] at hsub
    exact absurd hsub (Submission.step_of_ended rfl (hown event rfl).2)
  · have hothers := others_of_ne hevent
    rw [submissions_of_others hothers hstep]
    exact ⟨hi, halone.absent_step hs hothers hstep habsent⟩

/-! ### The response -/

/-- What the status of a response to `POST /documents` says of an upload. -/
def SubmissionAnswer (S : Services) (s : System) (filename : Text) (contentType : Option Text)
    (content : Bytes) (documentId jobId : Uuid) (response : DocumentRouteResponse) : Prop :=
  match response.statusCode with
  | 202 => ∃ t ∈ s.issued, t.documentId = documentId ∧ t.jobId = jobId ∧ t.content = content
      ∧ validateMediaType filename contentType = .ok t.mediaType ∧ s.Keeps S t filename ∧ s.Queues S t
      ∧ ∃ document job, response = .submitted document job ∧ document.id = documentId ∧ job.id = jobId
  | 503 => ∃ t ∈ s.issued, t.documentId = documentId ∧ t.jobId = jobId ∧ t.content = content
      ∧ validateMediaType filename contentType = .ok t.mediaType ∧ s.Keeps S t filename
  | 409 => s.stores.Absent documentId jobId ∧ ∃ u ∈ s.issued, u.documentId ≠ documentId
      ∧ S.sha256 u.content = S.sha256 content
      ∧ (response.problem?.bind ProblemDetails.extensions)
        = some [("existing_document_id", .text (idText u.documentId))]
  | 400 | 413 | 415 => s.stores.Absent documentId jobId
  | statusCode => statusCode = 500

/-- The status of a rejected document. -/
theorem statusCode_ingestion (path : String) (code : IngestionErrorCode) (message : String) :
  (raisedResponse path (.ingestion code message)).statusCode ∈ [400, 413, 415]
  := by
  cases code <;> simp [raisedResponse, handleError, ingestionError, problemResponse,
    DocumentRouteResponse.statusCode]

theorem SubmissionAnswer.of_absent {contentType : Option Text} {content : Bytes} {d j : Uuid}
    {path : String} {code : IngestionErrorCode} {message : String} (h : s.stores.Absent d j) :
  SubmissionAnswer S s filename contentType content d j (raisedResponse path (.ingestion code message))
  := by
  have hstatus := statusCode_ingestion path code message
  unfold SubmissionAnswer
  generalize (raisedResponse path (.ingestion code message)).statusCode = statusCode at hstatus
  simp only [List.mem_cons, List.not_mem_nil, or_false] at hstatus
  rcases hstatus with rfl | rfl | rfl
  · exact h
  · exact h
  · exact h

theorem SubmissionAnswer.of_unhandled {contentType : Option Text} {content : Bytes} {d j : Uuid}
    {path : String} {error : AppError} (h : error.Unhandled) :
  SubmissionAnswer S s filename contentType content d j (raisedResponse path error)
  := by
  rw [h.statusCode]
  rfl

/-- A call of `POST /documents` answers with what has become of the upload, whatever other calls do until
the response is read and whatever fails. Accepted (202), it is stored under its name with its content and
its message is sent; accepted but not scheduled (503), it is stored; in both cases until a deletion of the
document begins. A duplicate (409) leaves nothing and names another document with the digest of the
content; a rejected document (400, 413, 415) leaves nothing. Any other answer is the status 500. -/
theorem submit_answers {contentType : Option Text} {source : List Bytes} {documentId jobId : Uuid}
    {es : List Event} {path : String} {response : DocumentRouteResponse}
    (hreachable : (machine S).Reachable s) (hfresh : s.Fresh documentId jobId)
    (hrun : (machine S).run s (.submission i (.begin filename contentType source documentId jobId) :: es)
      = some s')
    (hes : ∀ e ∈ es, Event.Orderly i documentId jobId e)
    (hresponse : DocumentRoutes.submitDocument path (s'.submissions i) = some response) :
  SubmissionAnswer S s' filename contentType (sourceBytes source) documentId jobId response
  := by
  obtain ⟨s₁, hbegin, hrest⟩ := (machine S).run_cons_iff.mp hrun
  have hs := Sound.of_reachable hreachable
  have hreachable₁ := hreachable.step hbegin
  have hstep : step S s (.submission i (.begin filename contentType source documentId jobId))
      = some s₁ := hbegin
  have halone : s₁.Alone i documentId jobId := by
    intro k hk ids hids
    have hsame : s₁.submissions k = s.submissions k := by
      apply submissions_of_others _ hstep
      rintro event heq
      obtain ⟨rfl, -⟩ := Event.submission.inj heq
      exact hk rfl
    rw [hsame] at hids
    apply hfresh.alone hs i k hk ids hids
  rcases receiving_of_begin hs (Posted.of_reachable hreachable) hfresh hstep
    with ⟨t, ht, rfl, rfl, hcontent, hmedia, hreceiving⟩ | ⟨⟨code, message, hi⟩, habsent⟩
  · have ht' := issued_subset_of_run hrest ht
    have hreceiving' := hreceiving.run hreachable₁ ht halone hes hrest
    rw [← hcontent]
    generalize s'.submissions i = submission at hreceiving' hresponse
    cases hreceiving' with
    | accepted | saved | built | lookingUp | died => cases hresponse
    | rejected hstands => rcases hstands with rfl | ⟨_, rfl, -⟩ <;> cases hresponse
    | inserted hstands => rcases hstands with rfl | ⟨_, rfl⟩ <;> cases hresponse
    | returned hnames hfilename hjob hkeeps hqueues =>
        cases hresponse
        exact ⟨t, ht', rfl, rfl, rfl, hmedia, hkeeps, hqueues, _, _, rfl, hnames.id_eq, hjob⟩
    | unscheduled hkeeps =>
        cases hresponse
        exact ⟨t, ht', rfl, rfl, rfl, hmedia, hkeeps⟩
    | refused habsent hrefuses =>
        cases hresponse
        cases hrefuses with
        | ingestion => exact SubmissionAnswer.of_absent habsent
        | duplicate hu hne hsha => exact ⟨habsent, _, hu, hne, hsha, rfl⟩
        | unhandled h => exact SubmissionAnswer.of_unhandled h
    | unhandled h =>
        cases hresponse
        exact SubmissionAnswer.of_unhandled h
  · obtain ⟨hi', habsent'⟩ := refused_run hreachable₁ hi habsent halone hes hrest
    rw [hi'] at hresponse
    cases hresponse
    exact SubmissionAnswer.of_absent habsent'

/-- The identifier that a second upload of the sample content draws. -/
def sampleSecondId : Uuid := 0x3333333333334333a333333333333333

/-- The beginning of a second upload of the sample content, under another name. -/
def sampleSecondUpload : Event :=
  .submission 1 (.begin "beta.txt".toList (some "text/plain".toList) [Services.sampleContent]
    sampleSecondId 0x4444444444444444a444444444444444)

/-- The rest of its call, in which nothing fails. -/
def sampleSecondSteps : List Event :=
  [.submission 1 (.save none), .submission 1 (.build (clockFrom 20)), .submission 1 (.insert none),
    .submission 1 (.removeFile none)]

/-- The second upload of the sample content is answered as a duplicate of the first. -/
theorem submit_answers_sample :
  SubmissionAnswer .sample (sampleAfter (sampleUpload ++ sampleSecondUpload :: sampleSecondSteps))
    "beta.txt".toList (some "text/plain".toList) (sourceBytes [Services.sampleContent]) sampleSecondId
    0x4444444444444444a444444444444444
    (raisedResponse "/api/v1/documents" (.duplicateDocument Services.sampleDocumentId))
  := by
  have hfresh : ((sampleAfter sampleUpload).issued.all fun u =>
      u.documentId ≠ sampleSecondId && u.jobId ≠ 0x4444444444444444a444444444444444) = true := by
    decide +kernel
  have hresponse : DocumentRoutes.submitDocument "/api/v1/documents"
      ((sampleAfter (sampleUpload ++ sampleSecondUpload :: sampleSecondSteps)).submissions 1)
        = some (raisedResponse "/api/v1/documents" (.duplicateDocument Services.sampleDocumentId)) := by
    decide +kernel
  apply submit_answers (reachable_sampleAfter (by decide +kernel)) _
    (run_sampleAfter sampleUpload (sampleSecondUpload :: sampleSecondSteps) (by decide +kernel)) _
    hresponse
  · intro u hu
    have hne := List.all_eq_true.mp hfresh u hu
    simpa using hne
  · intro e he
    simp only [sampleSecondSteps, List.mem_cons, List.not_mem_nil, or_false] at he
    rcases he with rfl | rfl | rfl | rfl <;>
      simp [Event.Orderly, Event.Avoids, SubmissionEvent.Genuine, SubmissionEvent.IsBegin]

end System

end KnowledgeSearch

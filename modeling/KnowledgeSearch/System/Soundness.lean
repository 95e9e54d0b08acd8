import KnowledgeSearch.System.Interleaving
import KnowledgeSearch.System.Steps

/-!
# The invariant of the interleaved calls

`System.Sound` holds in every reachable state: the rows are in step, the rows, the files and
the calls follow the tickets drawn so far, nothing refers to a document still to be inserted,
and a document is marked for as long as a call of `delete` is at work on it.
-/

namespace KnowledgeSearch

open Database

/-! ### Stores that follow tickets -/

namespace Stores.Follows

variable {tickets : List Ticket} {s s' : Stores}

/-- Stores with the same rows, and with no new file. -/
theorem same (h : s.Follows tickets) (hfs : s'.fs.Less s.fs)
    (hdb : s'.db = s.db) :
  s'.Follows tickets
  where
  documents := by
    rw [hdb]
    apply h.documents
  jobs := by
    rw [hdb]
    apply h.jobs
  files f hf := h.files f (hfs.files f hf)
  shallow := hfs.shallow h.shallow

theorem moved {move : Move} {document document' : Document} {job job' : IngestionJob}
    {added : List Chunk} (h : s.Follows tickets) (hfs : s'.fs.Less s.fs)
    (hmoved : Moved move s.db s'.db document document' job job' added) :
  s'.Follows tickets
  where
  documents := by
    intro d hd
    rcases (hmoved.mem_documents d).mp hd with rfl | ⟨hd, -⟩
    · obtain ⟨t, ht, hnames⟩ := h.documents document hmoved.document_mem
      use t, ht
      apply hnames.revises hmoved.document_revises
    · apply h.documents d hd
  jobs := by
    intro j hj
    rcases (hmoved.mem_jobs j).mp hj with rfl | ⟨hj, -⟩
    · rw [hmoved.job_revises.1, hmoved.job_revises.2]
      apply h.jobs job hmoved.job_mem
    · apply h.jobs j hj
  files f hf := h.files f (hfs.files f hf)
  shallow := hfs.shallow h.shallow

theorem inserted {document : Document} {job : IngestionJob} {t : Ticket} (h : s.Follows tickets)
    (hfs : s'.fs.Less s.fs) (ht : t ∈ tickets) (hnames : t.Names document)
    (hdocument : job.documentId = t.documentId) (hjob : job.id = t.jobId)
    (hinserted : Inserted s.db s'.db document job) :
  s'.Follows tickets
  where
  documents := by
    intro d hd
    rcases (hinserted.mem_documents d).mp hd with hd | rfl
    · apply h.documents d hd
    · use t
  jobs := by
    intro j hj
    rcases (hinserted.mem_jobs j).mp hj with hj | rfl
    · apply h.jobs j hj
    · use t
  files f hf := h.files f (hfs.files f hf)
  shallow := hfs.shallow h.shallow

theorem removed {d : Uuid} (h : s.Follows tickets) (hfs : s'.fs.Less s.fs)
    (hremoved : Removed s.db s'.db d) :
  s'.Follows tickets
  where
  documents document hdocument := h.documents document ((hremoved.mem_documents document).mp hdocument).1
  jobs job hjob := h.jobs job ((hremoved.mem_jobs job).mp hjob).1
  files f hf := h.files f (hfs.files f hf)
  shallow := hfs.shallow h.shallow

/-- Saving the file of a ticket. -/
theorem saved {t : Ticket} {fs : FileSystem} (h : s.Follows tickets) (ht : t ∈ tickets)
    (hfiles : fs.files = s.fs.files.put ⟨t.path, t.content⟩)
    (hshallow : s.fs.Shallow → fs.Shallow) :
  { s with fs }.Follows tickets
  where
  documents := h.documents
  jobs := h.jobs
  files := by
    intro f hf
    simp only [hfiles, Table.mem_put] at hf
    rcases hf with rfl | ⟨hf, -⟩
    · use t
    · apply h.files f hf
  shallow := hshallow h.shallow

end Stores.Follows

/-- A submission that is under way has the identifiers of a ticket. -/
theorem Submission.Follows.ids {tickets : List Ticket} {submission : Submission}
    (h : submission.Follows tickets) {ids : Uuid × Uuid} (hids : submission.ids = some ids) :
  ∃ t ∈ tickets, ids = (t.documentId, t.jobId)
  := by
  cases submission with
  | accepted t filename source | saved t filename stored =>
      use t, h.1
      apply (Option.some.inj hids).symm
  | built document job | conflicted document job | lookingUp document job
  | compensating document job error | inserted document job | undelivered document job message =>
      obtain ⟨t, ht, hnames, -, hjob, -⟩ := h
      use t, ht
      rw [← hnames.id_eq, ← hjob]
      apply (Option.some.inj hids).symm
  | idle | returned | raised | died => cases hids

/-- The document of a pending submission is the one it names. -/
theorem Submission.ids_of_pending {submission : Submission} {d : Uuid}
    (h : submission.pending = some d) :
  ∃ jobId, submission.ids = some (d, jobId)
  := by
  cases submission with
  | accepted t _ _ | saved t _ _ =>
      use t.jobId
      rw [← Option.some.inj h]
      rfl
  | built document job =>
      use job.id
      rw [← Option.some.inj h]
      rfl
  | _ => cases h

namespace System

/-! ### The invariant -/

/-- A row or a call of `process` or `delete` refers to the document `d`. -/
inductive Known (s : System) (d : Uuid) : Prop
  | row (document : Document) (hmem : document ∈ s.stores.db.documents) (hid : document.id = d)
  | attempt (i : ℕ) (a : Attempt) (ha : (s.deliveries i).attempt = some a) (hid : a.documentId = d)
  | deletion (i : ℕ) (document : Document) (h : (s.deletions i).document = some document)
      (hid : document.id = d)

/-- The invariant of the interleaved calls. -/
structure Sound (S : Services) (s : System) : Prop where
  distinct : Distinct s.issued
  coherent : s.stores.db.Coherent
  stores : s.stores.Follows s.issued
  submissions : ∀ i, (s.submissions i).Follows s.issued
  deliveries : ∀ i, (s.deliveries i).Follows S s.issued
  deletions : ∀ i, (s.deletions i).Follows s.issued
  pending : ∀ i d, (s.submissions i).pending = some d → ¬ s.Known d
  pending_unique : ∀ i j d ids, (s.submissions i).pending = some d →
    (s.submissions j).ids = some ids → ids.1 = d → i = j
  deleting : ∀ i document, (s.deletions i).document = some document →
    ∀ row ∈ s.stores.db.documents, row.id = document.id → row.status = .deleting

namespace Sound

variable {S : Services} {s : System}

theorem initial :
  Sound S System.initial
  where
  distinct := ⟨by simp [System.initial], by simp [System.initial]⟩
  coherent := Coherent.initial
  stores := by constructor <;> simp [System.initial, Stores.initial, Database.initial,
    FileSystem.initial, FileSystem.Shallow]
  submissions _ := trivial
  deliveries _ := trivial
  deletions := by simp [System.initial, Deletion.Follows, Deletion.document]
  pending := by simp [System.initial, Submission.pending]
  pending_unique := by simp [System.initial, Submission.pending]
  deleting := by simp [System.initial, Deletion.document]

/-- The ticket of a row. -/
theorem ticket (h : s.Sound S) {document : Document} (hmem : document ∈ s.stores.db.documents) :
  ∃ t ∈ s.issued, t.Names document
  := h.stores.documents document hmem

/-- Rows follow the tickets, so that documents are linked with their jobs. -/
theorem linked (h : s.Sound S) {t : Ticket} (ht : t ∈ s.issued) :
  s.stores.db.Linked t.documentId t.jobId
  := by
  intro job hjob
  apply h.stores.linked h.distinct ht hjob

theorem linked_submission (h : s.Sound S) {i : ℕ} {ids : Uuid × Uuid}
    (hids : (s.submissions i).ids = some ids) :
  s.stores.db.Linked ids.1 ids.2
  := by
  obtain ⟨t, ht, rfl⟩ := (h.submissions i).ids hids
  apply h.linked ht

theorem linked_delivery (h : s.Sound S) {i : ℕ} {a : Attempt}
    (ha : (s.deliveries i).attempt = some a) :
  s.stores.db.Linked a.documentId a.jobId
  := by
  obtain ⟨t, ht, hattempt⟩ := (h.deliveries i).attempt ha
  rw [hattempt.documentId_eq, hattempt.jobId_eq]
  apply h.linked ht

/-- The chunks a call has written to the index are those of its ticket. -/
theorem chunks_upserted (h : s.Sound S) {i : ℕ} {a : Attempt} {chunks : List Chunk}
    (hi : s.deliveries i = .upserted a chunks) :
  (∀ chunk ∈ chunks, chunk.documentId = a.documentId) ∧ chunks ≠ []
  := by
  have hfollows := h.deliveries i
  rw [hi] at hfollows
  obtain ⟨t, ht, hattempt, hchunks⟩ := hfollows
  rw [hattempt.documentId_eq]
  apply Services.prepare_eq_ok hchunks

/-- The steps of a submission. -/
theorem submission_steps (h : s.Sound S) {i : ℕ} {event : SubmissionEvent} {stores : Stores}
    {submission : Submission}
    (hstep : (s.submissions i).step S s.stores event = some (stores, submission)) :
  Submission.Steps s.stores (s.submissions i) event stores submission
  := by
  apply Submission.step_spec h.coherent _ (h.submissions i) hstep
  intro ids hids
  apply h.linked_submission hids

/-- The steps of a delivery. -/
theorem delivery_steps (h : s.Sound S) {i : ℕ} {event : DeliveryEvent} {stores : Stores}
    {delivery : Delivery}
    (hstep : (s.deliveries i).step S s.stores event = some (stores, delivery)) :
  Delivery.Steps S s.stores (s.deliveries i) event stores delivery
  := by
  apply Delivery.step_spec h.coherent _ _ hstep
  · intro a ha
    apply h.linked_delivery ha
  · intro a chunks hi
    apply h.chunks_upserted hi

/-- The steps of a deletion. -/
theorem deletion_steps (h : s.Sound S) {i : ℕ} {event : DeletionEvent} {stores : Stores}
    {deletion : Deletion}
    (hstep : (s.deletions i).step S s.stores event = some (stores, deletion)) :
  Deletion.Steps S s.stores (s.deletions i) event stores deletion
  := Deletion.step_spec h.coherent hstep

end Sound

end System

/-! ### Steps of `submit` -/

/-- A submission changes the database by inserting its document or failing it. -/
theorem Submission.Steps.changes {s s' : Stores} {submission submission' : Submission}
    {event : SubmissionEvent} {tickets : List Ticket}
    (h : Submission.Steps s submission event s' submission')
    (hfollows : submission.Follows tickets) :
  s'.db = s.db
    ∨ (∃ document job, submission.pending = some document.id ∧ submission'.pending = none
      ∧ Inserted s.db s'.db document job)
    ∨ ∃ document document' job job', Moved .fail s.db s'.db document document' job job' []
  := by
  cases h with
  | insert hinsert =>
      obtain ⟨t, -, hnames, hjobdocument, -, hdocument, hjob, hcount⟩ := hfollows
      have hinserted := insertSubmission_eq_ok hdocument hjob hcount
        (hjobdocument.trans hnames.id_eq.symm) hinsert
      apply Or.inr (Or.inl ⟨_, _, rfl, rfl, hinserted⟩)
  | failDispatch hid hmoved => apply Or.inr (Or.inr ⟨_, _, _, _, hmoved⟩)
  | _ => apply Or.inl rfl

/-- A submission leaves the vector index alone. -/
theorem Submission.Steps.index_eq {s s' : Stores} {submission submission' : Submission}
    {event : SubmissionEvent} (h : Submission.Steps s submission event s' submission') :
  s'.index = s.index
  := by
  cases h <;> rfl

/-! ### Steps of `process` -/

namespace Delivery.Steps

variable {S : Services} {s s' : Stores} {delivery delivery' : Delivery} {event : DeliveryEvent}

/-- A delivery changes the database by moving one document at most. -/
theorem moves (h : Delivery.Steps S s delivery event s' delivery') :
  s'.db = s.db ∨ ∃ move document document' job job' added,
    Moved move s.db s'.db document document' job job' added
  := by
  cases h with
  | start hidle hcount hmoved => apply Or.inr ⟨_, _, _, _, _, _, hmoved⟩
  | finalise hid hcount hnone hrows hmoved => apply Or.inr ⟨_, _, _, _, _, _, hmoved⟩
  | record hid hcount hstatus hmoved => apply Or.inr ⟨_, _, _, _, _, _, hmoved⟩
  | _ => apply Or.inl rfl

theorem fs_eq (h : Delivery.Steps S s delivery event s' delivery') :
  s'.fs = s.fs
  := by
  cases h <;> rfl

/-- The attempt of a delivery is at a document of the database when it begins, and stays. -/
theorem attempt (h : Delivery.Steps S s delivery event s' delivery') {a : Attempt}
    (ha : delivery'.attempt = some a) :
  delivery.attempt = some a ∨ ∃ document ∈ s.db.documents, document.id = a.documentId
  := by
  cases h with
  | start hidle hcount hmoved =>
      obtain rfl := Option.some.inj ha
      apply Or.inr ⟨_, hmoved.document_mem, rfl⟩
  | interrupt hrunning _ =>
      obtain rfl := Option.some.inj ha
      apply Or.inl (attempt_of_running hrunning)
  | refuse hidle | skip hidle | finalise hid hcount hnone hrows hmoved | unrecorded h | clean
  | crash hattempt => cases ha
  | _ => apply Or.inl ha

/-- A delivery goes on following the tickets. -/
theorem follows (h : Delivery.Steps S s delivery event s' delivery') {tickets : List Ticket}
    (hdistinct : Distinct tickets) (hs : s.Follows tickets)
    (hdelivery : delivery.Follows S tickets) :
  delivery'.Follows S tickets
  := by
  cases h with
  | start hidle hcount hmoved =>
      obtain ⟨t, ht, hdocument, hjob⟩ := hs.jobs _ hmoved.job_mem
      rw [hmoved.job_document] at hdocument
      use t, ht, hdocument, hjob
  | @load a document fault hget =>
      obtain ⟨t, ht, hattempt⟩ := hdelivery
      obtain ⟨hmem, hid⟩ := Table.get_eq_some_iff.mp hget
      obtain ⟨u, hu, hnames⟩ := hs.documents document hmem
      obtain rfl := hdistinct.documents u hu t ht
        (by rw [← hnames.id_eq, hid, hattempt.documentId_eq])
      use u, ht
  | prepare hprepare =>
      obtain ⟨t, ht, hattempt, hnames⟩ := hdelivery
      use t, ht, hattempt, hnames, hs.prepareStored hdistinct ht hnames hprepare
  | embed =>
      obtain ⟨t, ht, hattempt, hnames, hchunks⟩ := hdelivery
      use t, ht, hattempt, hnames, hchunks
  | ensure => apply hdelivery
  | upsert =>
      obtain ⟨t, ht, hattempt, -, hchunks, -⟩ := hdelivery
      use t, ht, hattempt
  | upsertPart =>
      obtain ⟨t, ht, hattempt, -⟩ := hdelivery
      use t, ht
  | interrupt hrunning _ => apply hdelivery.attempt (attempt_of_running hrunning)
  | record => apply hdelivery
  | recordNothing => apply hdelivery
  | refuse | skip | finalise | unrecorded | clean | crash => trivial

end Delivery.Steps

/-! ### Steps of `delete` -/

theorem Deletion.document_cancelFrom (document : Document) (jobIds : List Uuid) :
  (Deletion.cancelFrom document jobIds).document = some document
  := by cases jobIds <;> rfl

namespace Deletion.Steps

variable {S : Services} {s s' : Stores} {deletion deletion' : Deletion} {event : DeletionEvent}

/-- A deletion changes the database by marking one document or removing one. -/
theorem changes (h : Deletion.Steps S s deletion event s' deletion') (hdb : s.db.Coherent) :
  s'.db = s.db
    ∨ (∃ row document job, Moved .mark s.db s'.db row document job job []
      ∧ deletion'.document = some document ∧ document.status = .deleting)
    ∨ ∃ document, deletion.document = some document ∧ Removed s.db s'.db document.id
  := by
  cases h with
  | mark hidle hmem hstatus hmoved =>
      apply Or.inr (Or.inl ⟨_, _, _, hmoved, document_cancelFrom _ _, hstatus⟩)
  | finish => apply Or.inr (Or.inr ⟨_, rfl, deleteDocument_removed hdb _⟩)
  | _ => apply Or.inl rfl

/-- A deletion removes files at most. -/
theorem less (h : Deletion.Steps S s deletion event s' deletion') {tickets : List Ticket}
    (hdeletion : deletion.Follows tickets) :
  s'.fs.Less s.fs
  := by
  cases h with
  | removeFile hdelete =>
      obtain ⟨t, -, hnames⟩ := hdeletion _ rfl
      rw [hnames.storageKey_eq] at hdelete
      apply FileSystem.less_delete hdelete
  | _ => apply FileSystem.Less.refl

/-- The document of a deletion is one of the database when it begins, and stays. -/
theorem document (h : Deletion.Steps S s deletion event s' deletion') {document : Document}
    (hdocument : deletion'.document = some document) :
  deletion.document = some document
    ∨ (document ∈ s'.db.documents ∧ document.status = .deleting
      ∧ ∃ row ∈ s.db.documents, row.id = document.id)
  := by
  cases h with
  | mark hidle hmem hstatus hmoved =>
      rw [document_cancelFrom] at hdocument
      obtain rfl := Option.some.inj hdocument
      apply Or.inr ⟨hmem, hstatus, _, hmoved.document_mem, hmoved.document_revises.id_eq.symm⟩
  | again hidle hmem hstatus =>
      rw [document_cancelFrom] at hdocument
      obtain rfl := Option.some.inj hdocument
      apply Or.inr ⟨hmem, hstatus, _, hmem, rfl⟩
  | cancel =>
      rw [document_cancelFrom] at hdocument
      apply Or.inl hdocument
  | clear | removeFile => apply Or.inl hdocument
  | refuse | clearPart | finish | interrupt | crash => cases hdocument

/-- A deletion goes on following the tickets. -/
theorem follows (h : Deletion.Steps S s deletion event s' deletion') {tickets : List Ticket}
    (hs : s'.Follows tickets) (hdeletion : deletion.Follows tickets) :
  deletion'.Follows tickets
  := by
  intro d hd
  rcases h.document hd with hd | ⟨hmem, -⟩
  · apply hdeletion d hd
  · apply hs.documents d hmem

end Deletion.Steps

/-! ### Preservation -/

namespace System.Sound

variable {S : Services} {s : System} {i : ℕ} {stores : Stores}

/-- Steps of a delivery preserve the invariant. -/
theorem delivery {event : DeliveryEvent} {delivery : Delivery} (h : s.Sound S)
    (hsteps : Delivery.Steps S s.stores (s.deliveries i) event stores delivery) :
  ({ s with stores, deliveries := Function.update s.deliveries i delivery } : System).Sound S
  := by
  have hstores : stores.Follows s.issued := by
    have hfs : stores.fs.Less s.stores.fs := by
      rw [hsteps.fs_eq]
      apply FileSystem.Less.refl
    rcases hsteps.moves with hdb | ⟨move, document, document', job, job', added, hmoved⟩
    · apply h.stores.same hfs hdb
    · apply h.stores.moved hfs hmoved
  constructor
  case distinct => apply h.distinct
  case coherent =>
    rcases hsteps.moves with hdb | ⟨move, document, document', job, job', added, hmoved⟩
    · rw [hdb]
      apply h.coherent
    · apply hmoved.coherent h.coherent
  case stores => apply hstores
  case submissions => apply h.submissions
  case deliveries =>
    apply (Function.forall_update_iff s.deliveries fun _ d => d.Follows S s.issued).mpr
    use hsteps.follows h.distinct h.stores (h.deliveries i)
    intro j _
    apply h.deliveries j
  case deletions => apply h.deletions
  case pending =>
    -- whatever is known after the step was known before it
    intro j d hd hknown
    apply h.pending j d hd
    cases hknown with
    | row document hmem hid =>
        rcases hsteps.moves with hdb | ⟨move, _, _, _, _, added, hmoved⟩
        · apply Known.row document (hdb ▸ hmem) hid
        · obtain ⟨row, hrow, hrowid⟩ := hmoved.ids hmem
          apply Known.row row hrow (hrowid.trans hid)
    | attempt k a ha hid =>
        by_cases hk : k = i
        · subst hk
          simp only [Function.update_self] at ha
          rcases hsteps.attempt ha with ha | ⟨document, hmem, hdocument⟩
          · apply Known.attempt k a ha hid
          · apply Known.row document hmem (hdocument.trans hid)
        · simp only [Function.update_of_ne hk] at ha
          apply Known.attempt k a ha hid
    | deletion k document hk hid =>
        apply Known.deletion k document _ hid
        apply hk
  case pending_unique => apply h.pending_unique
  case deleting =>
    intro j document hdocument
    have hmarked : s.stores.db.Marked document.id := h.deleting j document hdocument
    rcases hsteps.moves with hdb | ⟨move, _, _, _, _, added, hmoved⟩
    · rw [hdb]
      apply hmarked
    · apply hmoved.marked hmarked

/-- Steps of a deletion preserve the invariant. -/
theorem deletion {event : DeletionEvent} {deletion : Deletion} (h : s.Sound S)
    (hsteps : Deletion.Steps S s.stores (s.deletions i) event stores deletion) :
  ({ s with stores, deletions := Function.update s.deletions i deletion } : System).Sound S
  := by
  have hchanges := hsteps.changes h.coherent
  have hstores : stores.Follows s.issued := by
    have hfs := hsteps.less (h.deletions i)
    rcases hchanges with hdb | ⟨row, document, job, hmoved, -⟩ | ⟨document, -, hremoved⟩
    · apply h.stores.same hfs hdb
    · apply h.stores.moved hfs hmoved
    · apply h.stores.removed hfs hremoved
  have hmarked : ∀ d, s.stores.db.Marked d → stores.db.Marked d := by
    intro d hd
    rcases hchanges with hdb | ⟨row, document, job, hmoved, -⟩ | ⟨document, -, hremoved⟩
    · rw [hdb]
      apply hd
    · apply hmoved.marked hd
    · apply hremoved.marked hd
  constructor
  case distinct => apply h.distinct
  case coherent =>
    rcases hchanges with hdb | ⟨row, document, job, hmoved, -⟩ | ⟨document, -, hremoved⟩
    · rw [hdb]
      apply h.coherent
    · apply hmoved.coherent h.coherent
    · apply hremoved.coherent h.coherent
  case stores => apply hstores
  case submissions => apply h.submissions
  case deliveries => apply h.deliveries
  case deletions =>
    apply (Function.forall_update_iff s.deletions fun _ d => d.Follows s.issued).mpr
    use hsteps.follows hstores (h.deletions i)
    intro j _
    apply h.deletions j
  case pending =>
    intro j d hd hknown
    apply h.pending j d hd
    cases hknown with
    | row document hmem hid =>
        rcases hchanges with hdb | ⟨row, _, _, hmoved, -⟩ | ⟨_, -, hremoved⟩
        · apply Known.row document (hdb ▸ hmem) hid
        · obtain ⟨row, hrow, hrowid⟩ := hmoved.ids hmem
          apply Known.row row hrow (hrowid.trans hid)
        · apply Known.row document ((hremoved.mem_documents document).mp hmem).1 hid
    | attempt k a ha hid =>
        apply Known.attempt k a _ hid
        apply ha
    | deletion k document hk hid =>
        by_cases hki : k = i
        · subst hki
          simp only [Function.update_self] at hk
          rcases hsteps.document hk with hk | ⟨-, -, row, hrow, hrowid⟩
          · apply Known.deletion k document hk hid
          · apply Known.row row hrow (hrowid.trans hid)
        · simp only [Function.update_of_ne hki] at hk
          apply Known.deletion k document hk hid
  case pending_unique => apply h.pending_unique
  case deleting =>
    intro j document hdocument
    by_cases hji : j = i
    · subst hji
      simp only [Function.update_self] at hdocument
      rcases hsteps.document hdocument with hbefore | ⟨hmem, hstatus, -⟩
      · apply hmarked document.id (h.deleting j document hbefore)
      · intro row hrow hid
        rw [Table.eq_of_key_eq hrow hmem hid]
        apply hstatus
    · simp only [Function.update_of_ne hji] at hdocument
      apply hmarked document.id (h.deleting j document hdocument)

/-- Steps of a submission that draw no ticket preserve the invariant when the stores they lead
to are sound, and new rows are those of the submission, which then is not pending any more. -/
theorem submission_under_way {submission : Submission} (h : s.Sound S)
    (hcoherent : stores.db.Coherent) (hstores : stores.Follows s.issued)
    (hfollows : submission.Follows s.issued)
    (hids : submission.ids = none ∨ submission.ids = (s.submissions i).ids)
    (hpending : submission.pending = none ∨ submission.pending = (s.submissions i).pending)
    (hrows : ∀ document ∈ stores.db.documents, (∃ row ∈ s.stores.db.documents, row.id = document.id)
      ∨ (s.submissions i).pending = some document.id ∧ submission.pending = none)
    (hmarked : ∀ d, s.Known d → s.stores.db.Marked d → stores.db.Marked d) :
  ({ s with stores, submissions := Function.update s.submissions i submission } : System).Sound S
  := by
  have hbefore : ∀ j d, (Function.update s.submissions i submission j).pending = some d →
      (s.submissions j).pending = some d := by
    intro j d hd
    by_cases hj : j = i
    · subst hj
      rw [Function.update_self] at hd
      rcases hpending with hnone | hsame
      · rw [hnone] at hd
        cases hd
      · rw [← hsame, hd]
    · rw [Function.update_of_ne hj] at hd
      apply hd
  constructor
  case distinct => apply h.distinct
  case coherent => apply hcoherent
  case stores => apply hstores
  case submissions =>
    apply (Function.forall_update_iff s.submissions fun _ d => d.Follows s.issued).mpr
    use hfollows
    intro j _
    apply h.submissions j
  case deliveries => apply h.deliveries
  case deletions => apply h.deletions
  case pending =>
    intro j d hd hknown
    have hpend := hbefore j d hd
    apply h.pending j d hpend
    cases hknown with
    | row document hmem hid =>
        rcases hrows document hmem with ⟨row, hrow, hrowid⟩ | ⟨hinserted, hnone⟩
        · apply Known.row row hrow (hrowid.trans hid)
        · -- the row is that of the submission `i`, which is not pending any more
          exfalso
          obtain ⟨jobId, hj⟩ := Submission.ids_of_pending hpend
          rw [hid] at hinserted
          obtain rfl := h.pending_unique i j d _ hinserted hj rfl
          simp only [Function.update_self, hnone] at hd
          cases hd
    | attempt k a ha hid =>
        apply Known.attempt k a _ hid
        apply ha
    | deletion k document hk hid =>
        apply Known.deletion k document _ hid
        apply hk
  case pending_unique =>
    intro j k d ids hd hk hid
    apply h.pending_unique j k d ids (hbefore j d hd) _ hid
    by_cases hki : k = i
    · subst hki
      simp only [Function.update_self] at hk
      rcases hids with hnone | hsame
      · rw [hnone] at hk
        cases hk
      · rw [← hsame, hk]
    · simp only [Function.update_of_ne hki] at hk
      apply hk
  case deleting =>
    intro j document hdocument
    apply hmarked document.id
    · apply Known.deletion j document _ rfl
      apply hdocument
    · apply h.deleting j document hdocument

/-- A submission that draws a ticket preserves the invariant. -/
theorem submission_begin {t : Ticket} {filename : Text} {source : List Bytes} (h : s.Sound S)
    (hcontent : t.content = sourceBytes source)
    (hfresh : ∀ u ∈ s.issued, u.documentId ≠ t.documentId ∧ u.jobId ≠ t.jobId) :
  ({ s with
    issued := t :: s.issued
    submissions := Function.update s.submissions i (.accepted t filename source) } : System).Sound S
  := by
  have hsub : s.issued ⊆ t :: s.issued := List.subset_cons_self t s.issued
  have hunknown : ¬ s.Known t.documentId := by
    intro hknown
    cases hknown with
    | row document hmem hid =>
        obtain ⟨u, hu, hnames⟩ := h.stores.documents document hmem
        apply (hfresh u hu).1
        rw [← hnames.id_eq, hid]
    | attempt k a ha hid =>
        obtain ⟨u, hu, hattempt⟩ := (h.deliveries k).attempt ha
        apply (hfresh u hu).1
        rw [← hattempt.documentId_eq, hid]
    | deletion k document hk hid =>
        obtain ⟨u, hu, hnames⟩ := h.deletions k document hk
        apply (hfresh u hu).1
        rw [← hnames.id_eq, hid]
  constructor
  case distinct => apply h.distinct.cons hfresh
  case coherent => apply h.coherent
  case stores => apply h.stores.mono hsub
  case submissions =>
    apply (Function.forall_update_iff s.submissions fun _ d => d.Follows (t :: s.issued)).mpr
    constructor
    · use List.mem_cons_self
    · intro j _
      apply (h.submissions j).mono hsub
  case deliveries =>
    intro j
    apply (h.deliveries j).mono hsub
  case deletions =>
    intro j
    apply (h.deletions j).mono hsub
  case pending =>
    intro j d hd hknown
    have hbefore : s.Known d := by
      cases hknown with
      | row document hmem hid =>
          apply Known.row document _ hid
          apply hmem
      | attempt k a ha hid =>
          apply Known.attempt k a _ hid
          apply ha
      | deletion k document hk hid =>
          apply Known.deletion k document _ hid
          apply hk
    by_cases hj : j = i
    · subst hj
      simp only [Function.update_self] at hd
      obtain rfl := Option.some.inj hd
      apply hunknown hbefore
    · simp only [Function.update_of_ne hj] at hd
      apply h.pending j d hd hbefore
  case pending_unique =>
    intro j k d ids hd hk hid
    by_cases hj : j = i <;> by_cases hki : k = i
    · rw [hj, hki]
    · subst hj
      simp only [Function.update_self, Function.update_of_ne hki] at hd hk
      obtain ⟨u, hu, rfl⟩ := (h.submissions k).ids hk
      exact absurd (hid.trans (Option.some.inj hd).symm) (hfresh u hu).1
    · subst hki
      simp only [Function.update_self, Function.update_of_ne hj] at hd hk
      obtain ⟨jobId, hids⟩ := Submission.ids_of_pending hd
      obtain ⟨u, hu, huids⟩ := (h.submissions j).ids hids
      obtain rfl := Option.some.inj hk
      exact absurd ((congrArg Prod.fst huids).symm.trans hid.symm) (hfresh u hu).1
    · simp only [Function.update_of_ne hj, Function.update_of_ne hki] at hd hk
      apply h.pending_unique j k d ids hd hk hid
  case deleting => apply h.deleting

/-- Only an accepted submission draws a ticket. -/
theorem issue_of_pending {issued issued' : List Ticket} {submission : Submission}
    (hissue : issue issued submission = some issued')
    (h : ∀ t filename source, submission ≠ .accepted t filename source) :
  issued' = issued
  := by
  cases submission with
  | accepted t filename source => exact absurd rfl (h t filename source)
  | _ => apply (Option.some.inj hissue).symm

/-- Steps of a submission preserve the invariant. -/
theorem submission {event : SubmissionEvent} {submission : Submission} {issued : List Ticket}
    (h : s.Sound S)
    (hsteps : Submission.Steps s.stores (s.submissions i) event stores submission)
    (hissue : issue s.issued submission = some issued) :
  ({ s with
    stores, issued, submissions := Function.update s.submissions i submission } : System).Sound S
  := by
  have hfollows := h.submissions i
  generalize hbefore : s.submissions i = before at hsteps hfollows
  cases hsteps with
  | @begin _ filename contentType source documentId jobId mediaType hidle hmedia =>
      simp only [issue] at hissue
      split at hissue
      · rename_i hfresh
        obtain rfl := Option.some.inj hissue
        apply h.submission_begin rfl
        intro u hu
        have hu' := List.all_eq_true.mp hfresh u hu
        simpa using hu'
      · cases hissue
  | @save _ t filename source fs stored hstored hfiles hshallow =>
      obtain rfl := issue_of_pending hissue (by simp)
      rw [← hfollows.2] at hfiles
      apply h.submission_under_way
      · apply h.coherent
      · apply h.stores.saved hfollows.1 hfiles hshallow
      · apply And.intro hfollows.1 hstored
      · rw [hbefore]
        apply Or.inr rfl
      · rw [hbefore]
        apply Or.inr rfl
      · intro document hmem
        left
        use document, hmem
      · intro d _ hd
        apply hd
  | @build _ t filename stored clock document job hbuild =>
      obtain rfl := issue_of_pending hissue (by simp)
      obtain ⟨hdocument, hid, hmedia, hkey, -, hjob, hcount, hjobid, hjobdocument⟩ :=
        buildSubmission_spec hbuild
      apply h.submission_under_way
      · apply h.coherent
      · apply h.stores
      · use t, hfollows.1
        constructor
        · constructor
          · apply hid
          · apply hmedia
          · rw [hkey, hfollows.2]
        · use hjobdocument, hjobid, hdocument, hjob, hcount
      · right
        simp only [hbefore, Submission.ids, hid, hjobid]
      · right
        simp only [hbefore, Submission.pending, hid]
      · intro document hmem
        left
        use document, hmem
      · intro d _ hd
        apply hd
  | @insert _ document job db hinsert =>
      obtain rfl := issue_of_pending hissue (by simp)
      obtain ⟨t, ht, hnames, hjobdocument, hjobid, hdocument, hjob, hcount⟩ := hfollows
      have hinserted := insertSubmission_eq_ok hdocument hjob hcount
        (hjobdocument.trans hnames.id_eq.symm) hinsert
      apply h.submission_under_way
      · apply hinserted.coherent h.coherent
      · exact h.stores.inserted (FileSystem.Less.refl _) ht hnames hjobdocument hjobid hinserted
      · use t, ht
      · rw [hbefore]
        apply Or.inr rfl
      · apply Or.inl rfl
      · intro row hmem
        rcases (hinserted.mem_documents row).mp hmem with hmem | rfl
        · left
          use row, hmem
        · right
          rw [hbefore]
          apply And.intro rfl rfl
      · intro d hknown hd
        apply hinserted.marked _ hd
        rintro rfl
        apply h.pending i document.id _ hknown
        rw [hbefore]
        rfl
  | @failDispatch _ document row row' job job₁ job' message error db hid hmoved =>
      obtain rfl := issue_of_pending hissue (by simp)
      apply h.submission_under_way
      · apply hmoved.coherent h.coherent
      · exact h.stores.moved (FileSystem.Less.refl _) hmoved
      · apply Submission.Follows.ended rfl
      · apply Or.inl rfl
      · apply Or.inl rfl
      · intro document hmem
        apply Or.inl (hmoved.ids hmem)
      · intro d _ hd
        apply hmoved.marked hd
  | @other _ _ _ fs queue hfs hkeeps hids hpending =>
      obtain rfl := issue_of_pending hissue (by
        rintro t filename source rfl
        cases hpending)
      apply h.submission_under_way
      · apply h.coherent
      · exact h.stores.same hfs rfl
      · apply hkeeps s.issued hfollows
      · rw [hbefore]
        apply hids
      · apply Or.inl hpending
      · intro document hmem
        left
        use document, hmem
      · intro d _ hd
        apply hd

/-- A step from a sound state is one of a submission, of a delivery or of a deletion. -/
theorem step_cases (h : s.Sound S) {e : Event} {s' : System} (hstep : step S s e = some s') :
  (∃ i event stores submission issued, e = .submission i event
      ∧ Submission.Steps s.stores (s.submissions i) event stores submission
      ∧ issue s.issued submission = some issued
      ∧ s' = { s with
          stores, issued, submissions := Function.update s.submissions i submission })
    ∨ (∃ i event stores delivery, e = .delivery i event
      ∧ Delivery.Steps S s.stores (s.deliveries i) event stores delivery
      ∧ s' = { s with stores, deliveries := Function.update s.deliveries i delivery })
    ∨ ∃ i event stores deletion, e = .deletion i event
      ∧ Deletion.Steps S s.stores (s.deletions i) event stores deletion
      ∧ s' = { s with stores, deletions := Function.update s.deletions i deletion }
  := by
  rcases step_eq_some hstep with ⟨i, event, stores, submission, issued, he, hsub, hissue, hs'⟩
    | ⟨i, event, stores, delivery, he, hdel, hs'⟩ | ⟨i, event, stores, deletion, he, hdel, hs'⟩
  · apply Or.inl ⟨i, event, stores, submission, issued, he, h.submission_steps hsub, hissue, hs'⟩
  · apply Or.inr (Or.inl ⟨i, event, stores, delivery, he, h.delivery_steps hdel, hs'⟩)
  · apply Or.inr (Or.inr ⟨i, event, stores, deletion, he, h.deletion_steps hdel, hs'⟩)

/-- Every step preserves the invariant. -/
theorem step (h : s.Sound S) {e : Event} {s' : System} (hstep : System.step S s e = some s') :
  s'.Sound S
  := by
  rcases h.step_cases hstep with ⟨i, event, stores, submission, issued, -, hsub, hissue, rfl⟩
    | ⟨i, event, stores, delivery, -, hdel, rfl⟩ | ⟨i, event, stores, deletion, -, hdel, rfl⟩
  · apply h.submission hsub hissue
  · apply h.delivery hdel
  · apply h.deletion hdel

/-- The invariant holds in every reachable state. -/
theorem of_reachable (h : (machine S).Reachable s) :
  s.Sound S
  := by
  apply h.induction
  · rintro s rfl
    apply Sound.initial
  · intro s e s' hs hstep
    apply hs.step hstep

/-- What a step does to the database: nothing, or it moves a document, inserts the document of a
pending submission, or removes the document of a deletion. -/
theorem changed (h : s.Sound S) {e : Event} {s' : System} (hstep : System.step S s e = some s') :
  s'.stores.db = s.stores.db
    ∨ (∃ move document document' job job' added,
      Moved move s.stores.db s'.stores.db document document' job job' added)
    ∨ (∃ i document job, (s.submissions i).pending = some document.id
      ∧ Inserted s.stores.db s'.stores.db document job)
    ∨ ∃ i document, (s.deletions i).document = some document
      ∧ Removed s.stores.db s'.stores.db document.id
  := by
  rcases h.step_cases hstep with ⟨i, event, stores, submission, issued, -, hsub, hissue, rfl⟩
    | ⟨i, event, stores, delivery, -, hdel, rfl⟩ | ⟨i, event, stores, deletion, -, hdel, rfl⟩
  · rcases hsub.changes (h.submissions i) with hdb | ⟨document, job, hpending, -, hinserted⟩
      | ⟨_, _, _, _, hmoved⟩
    · apply Or.inl hdb
    · apply Or.inr (Or.inr (Or.inl ⟨i, document, job, hpending, hinserted⟩))
    · apply Or.inr (Or.inl ⟨_, _, _, _, _, _, hmoved⟩)
  · rcases hdel.moves with hdb | hmoved
    · apply Or.inl hdb
    · apply Or.inr (Or.inl hmoved)
  · rcases hdel.changes h.coherent with hdb | ⟨_, _, _, hmoved, -⟩ | ⟨document, hi, hremoved⟩
    · apply Or.inl hdb
    · apply Or.inr (Or.inl ⟨_, _, _, _, _, _, hmoved⟩)
    · apply Or.inr (Or.inr (Or.inr ⟨i, document, hi, hremoved⟩))

/-- A known document that is being deleted, or gone, stays so. -/
theorem marked_step (h : s.Sound S) {e : Event} {s' : System} (hstep : System.step S s e = some s')
    {d : Uuid} (hknown : ∀ i, (s.submissions i).pending ≠ some d)
    (hmarked : s.stores.db.Marked d) :
  s'.stores.db.Marked d
  := by
  rcases h.changed hstep with hdb | ⟨_, _, _, _, _, _, hmoved⟩
    | ⟨i, document, job, hpending, hinserted⟩ | ⟨_, _, -, hremoved⟩
  · rw [hdb]
    apply hmarked
  · apply hmoved.marked hmarked
  · apply hinserted.marked _ hmarked
    rintro rfl
    apply hknown i hpending
  · apply hremoved.marked hmarked

/-- The document of a delivery under way was no more marked before a step than after it. -/
theorem not_marked_of_step (h : s.Sound S) {e : Event} {s' : System}
    (hstep : System.step S s e = some s') {j : ℕ} {a : Attempt}
    (ha : (s.deliveries j).attempt = some a) (hmarked : ¬ s'.stores.db.Marked a.documentId) :
  ¬ s.stores.db.Marked a.documentId
  := by
  intro hbefore
  apply hmarked
  apply h.marked_step hstep _ hbefore
  intro k hk
  apply h.pending k _ hk
  apply Known.attempt j a ha rfl

end System.Sound

end KnowledgeSearch

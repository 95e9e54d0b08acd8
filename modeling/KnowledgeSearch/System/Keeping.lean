import KnowledgeSearch.System.Authenticity
import KnowledgeSearch.System.Messages

/-!
# What other calls leave alone

Where a call of `submit` has left nothing, the steps of other calls leave nothing either, and what it has
stored they keep until a deletion of the document begins. `System.Alone` says that no other submission has
the identifiers of the call.
-/

namespace KnowledgeSearch

open Database

/-! ### Files -/

/-- The document whose file a submission may store or remove with its next step. -/
def Submission.storing : Submission → Option Uuid
  | accepted t _ _ => some t.documentId
  | conflicted document _ | compensating document _ _ => some document.id
  | _ => none

theorem Submission.ids_of_storing {submission : Submission} {d : Uuid}
    (h : submission.storing = some d) :
  ∃ jobId, submission.ids = some (d, jobId)
  := by
  cases submission with
  | accepted | conflicted | compensating =>
      cases h
      exact ⟨_, rfl⟩
  | _ => cases h

/-- A path that does not begin with the directory of a document is none of its files. -/
theorem path_ne_of_head_ne {path : List Text} {id : Uuid} (name : Text)
    (h : path.head? ≠ some id.text) :
  path ≠ [id.text, name]
  := by
  rintro rfl
  apply h rfl

/-- A submission leaves the files of other documents. -/
theorem Submission.mem_files_of_step {S : Services} {s s' : Stores} {submission submission' : Submission}
    {event : SubmissionEvent} {tickets : List Ticket} (hfollows : submission.Follows tickets)
    (h : submission.step S s event = some (s', submission')) {f : StoredFile}
    (hother : ∀ d ∈ submission.storing, f.path.head? ≠ some d.text) :
  f ∈ s'.fs.files ↔ f ∈ s.fs.files
  := by
  cases event with
  | begin filename contentType source documentId jobId =>
      simp only [step] at h
      split at h
      · cases h
      split at h
      · cases h
        rfl
      split at h <;> cases h <;> rfl
  | save fault =>
      cases submission with
      | accepted t filename source =>
          have hpath := path_ne_of_head_ne (sourceName t.mediaType) (hother t.documentId rfl)
          simp only [step] at h
          split at h
          · rename_i hsave
            cases h
            obtain ⟨-, ⟨_, -, hfiles⟩ | ⟨hok, -⟩⟩ := FileSystem.save_spec hsave
            · simp only [hfiles]
            · cases hok
          · rename_i hsave
            cases h
            obtain ⟨-, ⟨_, herror, -⟩ | ⟨-, hfiles⟩⟩ := FileSystem.save_spec hsave
            · cases herror
            · simp only [hfiles, Table.mem_put]
              constructor
              · rintro (rfl | ⟨hmem, -⟩)
                · exact absurd rfl hpath
                · apply hmem
              · intro hmem
                exact Or.inr ⟨hmem, hpath⟩
      | _ => cases h
  | removeFile fault =>
      have hdelete : ∀ {document : Document} {fs : FileSystem},
          (∃ t ∈ tickets, t.Names document) → f.path.head? ≠ some document.id.text →
          s.fs.delete S.root document.storageKey = .ok fs → (f ∈ fs.files ↔ f ∈ s.fs.files) := by
        rintro document fs ⟨t, -, hnames⟩ hhead hdelete
        rw [hnames.storageKey_eq] at hdelete
        rw [hnames.id_eq] at hhead
        rw [FileSystem.mem_delete hdelete]
        apply and_iff_left
        apply path_ne_of_head_ne _ hhead
      cases submission with
      | conflicted document job | compensating document job error =>
          obtain ⟨t, ht, hnames, -⟩ := hfollows
          simp only [step] at h
          split at h
          · cases h
            rfl
          · rename_i fs hremove
            cases h
            apply hdelete ⟨t, ht, hnames⟩ (hother document.id rfl) (transaction_eq_ok_iff.mp hremove).2
      | _ => cases h
  | build clock =>
      cases submission with
      | saved t filename stored =>
          simp only [step] at h
          split at h <;> cases h <;> rfl
      | _ => cases h
  | insert fault =>
      cases submission with
      | built document job =>
          simp only [step] at h
          split at h <;> cases h <;> rfl
      | _ => cases h
  | lookUp fault =>
      cases submission with
      | lookingUp document job =>
          simp only [step] at h
          split at h <;> cases h <;> rfl
      | _ => cases h
  | enqueue outcome =>
      cases submission with
      | inserted document job =>
          have hdeliver : ∀ delivered, (s.deliver delivered job.id).fs = s.fs := by
            intro delivered
            cases delivered with
            | true | false => rfl
          simp only [step] at h
          split at h <;> cases h <;> simp only [hdeliver]
      | _ => cases h
  | markDispatchFailed clock fault =>
      cases submission with
      | undelivered document job message =>
          simp only [step] at h
          split at h <;> cases h <;> rfl
      | _ => cases h
  | crash =>
      simp only [step] at h
      split at h <;> cases h
      rfl

/-- A deletion leaves the files of other documents. -/
theorem Deletion.Steps.mem_files {S : Services} {s s' : Stores} {deletion deletion' : Deletion}
    {event : DeletionEvent} {tickets : List Ticket} (h : Deletion.Steps S s deletion event s' deletion')
    (hfollows : deletion.Follows tickets) {f : StoredFile}
    (hother : ∀ document, deletion.document = some document → f.path.head? ≠ some document.id.text) :
  f ∈ s'.fs.files ↔ f ∈ s.fs.files
  := by
  cases h with
  | @removeFile document fault fs hdelete =>
      obtain ⟨t, -, hnames⟩ := hfollows document rfl
      have hhead := hother document rfl
      rw [hnames.storageKey_eq] at hdelete
      rw [hnames.id_eq] at hhead
      rw [FileSystem.mem_delete hdelete]
      apply and_iff_left
      apply path_ne_of_head_ne _ hhead
  | _ => rfl

/-! ### Identifiers -/

/-- A call of `submit` that is under way has the identifiers it began with. -/
theorem Submission.Steps.ids_cases {s s' : Stores} {submission submission' : Submission}
    {event : SubmissionEvent} (h : Submission.Steps s submission event s' submission')
    {ids : Uuid × Uuid} (hids : submission'.ids = some ids) :
  submission.ids = some ids
    ∨ ∃ filename contentType source, event = .begin filename contentType source ids.1 ids.2
  := by
  cases h with
  | begin =>
      cases hids
      exact Or.inr ⟨_, _, _, rfl⟩
  | save | insert => exact Or.inl hids
  | build hbuild =>
      obtain ⟨-, hid, -, -, -, -, -, hjob, -⟩ := buildSubmission_spec hbuild
      left
      rw [← hids]
      simp only [Submission.ids, hid, hjob]
  | failDispatch => cases hids
  | other _ _ hends =>
      rcases hends with hnone | hsame
      · rw [hnone] at hids
        cases hids
      · apply Or.inl (hsame ▸ hids)

/-- The event draws no identifiers that are those of a document and its job. -/
def Event.Avoids (documentId jobId : Uuid) : Event → Prop
  | .submission _ (.begin _ _ _ d j) => d ≠ documentId ∧ j ≠ jobId
  | _ => True

namespace System

variable {S : Services} {s s' : System} {e : Event} {i : ℕ} {t : Ticket} {d j : Uuid} {filename : Text}

/-- No other submission under way has the identifiers. -/
def Alone (s : System) (i : ℕ) (d j : Uuid) : Prop :=
  ∀ k, k ≠ i → ∀ ids, (s.submissions k).ids = some ids → ids.1 ≠ d ∧ ids.2 ≠ j

theorem Alone.step (h : s.Alone i d j) (hs : s.Sound S) (havoids : e.Avoids d j)
    (hstep : System.step S s e = some s') :
  s'.Alone i d j
  := by
  rcases hs.step_cases hstep with ⟨k, event, stores, submission, issued, rfl, hsub, -, rfl⟩
    | ⟨_, _, _, _, -, -, rfl⟩ | ⟨_, _, _, _, -, -, rfl⟩
  · intro l hl ids hids
    by_cases hlk : l = k
    · subst hlk
      simp only [Function.update_self] at hids
      rcases hsub.ids_cases hids with hbefore | ⟨_, _, _, rfl⟩
      · apply h l hl ids hbefore
      · apply havoids
    · simp only [Function.update_of_ne hlk] at hids
      apply h l hl ids hids
  · apply h
  · apply h

/-- New identifiers are those of no submission. -/
theorem Fresh.alone (h : s.Fresh d j) (hs : s.Sound S) (i : ℕ) :
  s.Alone i d j
  := by
  intro k _ ids hids
  obtain ⟨t, ht, rfl⟩ := (hs.submissions k).ids hids
  apply h t ht

/-! ### Nothing is left -/

/-- The step is not one of the submission. -/
def Others (i : ℕ) (e : Event) : Prop :=
  ∀ event, e ≠ .submission i event

theorem Alone.ids_ne (h : s.Alone i d j) {k : ℕ} {event : SubmissionEvent}
    (hothers : Others i (.submission k event)) {ids : Uuid × Uuid}
    (hids : (s.submissions k).ids = some ids) :
  ids.1 ≠ d ∧ ids.2 ≠ j
  := by
  apply h k _ ids hids
  rintro rfl
  apply hothers event rfl

/-- Other calls add no rows and no message. -/
theorem Alone.unlisted_step (h : s.Alone i d j) (hs : s.Sound S) (hothers : Others i e)
    (hstep : System.step S s e = some s') (hunlisted : s.stores.Unlisted d j) :
  s'.stores.Unlisted d j
  := by
  have hrows : (∀ row ∈ s'.stores.db.documents, row.id ≠ d)
      ∧ ∀ job ∈ s'.stores.db.jobs, job.documentId ≠ d ∧ job.id ≠ j := by
    rcases hs.rewrites hstep with hrewrites | ⟨k, document, job, event, hk, rfl, hinserted⟩
    · constructor
      · intro row hrow
        obtain ⟨row', hrow', hrevises⟩ := hrewrites.documents row hrow
        rw [hrevises.id_eq]
        apply hunlisted.documents row' hrow'
      · intro job hjob
        obtain ⟨job', hjob', hid, hdocument⟩ := hrewrites.jobs job hjob
        rw [hid, hdocument]
        apply hunlisted.jobs job' hjob'
    · have hids : (s.submissions k).ids = some (document.id, job.id) := by
        rw [hk]
        rfl
      obtain ⟨hdocument, hjob⟩ := h.ids_ne hothers hids
      constructor
      · intro row hrow
        rcases (hinserted.mem_documents row).mp hrow with hrow | rfl
        · apply hunlisted.documents row hrow
        · apply hdocument
      · intro row hrow
        rcases (hinserted.mem_jobs row).mp hrow with hrow | rfl
        · apply hunlisted.jobs row hrow
        · rw [hinserted.job_document]
          use hdocument
  use hrows.1, hrows.2
  intro hmem
  apply hunlisted.messages
  rcases step_eq_some hstep with ⟨k, event, stores, submission, issued, rfl, hsub, -, rfl⟩
    | ⟨k, event, stores, delivery, -, hdel, rfl⟩ | ⟨k, event, stores, deletion, -, hdel, rfl⟩
  · rcases Submission.mem_queue_of_step hsub hmem with hold | ⟨document, job, hk, rfl⟩
    · apply hold
    · have hids : (s.submissions k).ids = some (document.id, job.id) := by
        rw [hk]
        rfl
      exact absurd rfl (h.ids_ne hothers hids).2
  · rw [← (hs.delivery_steps hdel).queue_eq]
    apply hmem
  · apply Deletion.mem_queue_of_step hdel hmem

/-- Other calls store no file. -/
theorem Alone.absent_step (h : s.Alone i d j) (hs : s.Sound S) (hothers : Others i e)
    (hstep : System.step S s e = some s') (habsent : s.stores.Absent d j) :
  s'.stores.Absent d j
  := by
  use h.unlisted_step hs hothers hstep habsent.toUnlisted
  intro f hf hhead
  apply habsent.unfiled f _ hhead
  rcases step_eq_some hstep with ⟨k, event, stores, submission, issued, rfl, hsub, -, rfl⟩
    | ⟨k, event, stores, delivery, -, hdel, rfl⟩ | ⟨k, event, stores, deletion, -, hdel, rfl⟩
  · apply (Submission.mem_files_of_step (hs.submissions k) hsub _).mp hf
    intro other hstoring heq
    obtain ⟨jobId, hids⟩ := Submission.ids_of_storing hstoring
    apply (h.ids_ne hothers hids).1
    apply Uuid.text_injective
    apply Option.some.inj (heq.symm.trans hhead)
  · rw [← (hs.delivery_steps hdel).fs_eq]
    apply hf
  · apply ((hs.deletion_steps hdel).less (hs.deletions k)).files f hf

/-! ### What is stored is kept -/

/-- The row of the document of a ticket is there under its name, and so is its file. -/
structure Holds (s : System) (t : Ticket) (filename : Text) : Prop where
  row : ∃ document ∈ s.stores.db.documents, t.Names document ∧ document.originalFilename = filename
  file : ⟨t.path, t.content⟩ ∈ s.stores.fs.files

/-- What an upload has stored is there, unless the document is being deleted. -/
def Keeps (S : Services) (s : System) (t : Ticket) (filename : Text) : Prop :=
  s.Conceals S t.documentId ∨ s.Holds t filename

/-- The message of an upload is there, unless the document is being deleted. -/
def Queues (S : Services) (s : System) (t : Ticket) : Prop :=
  s.Conceals S t.documentId ∨ t.jobId ∈ s.stores.queue

/-- The row stays where no deletion of the document is at work. -/
theorem Holds.row_step (h : s.Holds t filename) (hs : s.Sound S)
    (hstep : System.step S s e = some s')
    (hkept : ∀ k document, (s.deletions k).document = some document → document.id ≠ t.documentId) :
  ∃ document ∈ s'.stores.db.documents, t.Names document ∧ document.originalFilename = filename
  := by
  obtain ⟨row, hrow, hnames, hfilename⟩ := h.row
  rcases hs.changed hstep with hdb | ⟨_, document, document', _, _, _, hmoved⟩
    | ⟨_, _, _, -, hinserted⟩ | ⟨k, document, hk, hremoved⟩
  · rw [hdb]
    use row
  · by_cases hid : row.id = document.id
    · obtain rfl := Table.eq_of_key_eq hrow hmoved.document_mem hid
      refine ⟨document', (hmoved.mem_documents document').mpr (Or.inl rfl), ?_, ?_⟩
      · apply hnames.revises hmoved.document_revises
      · rw [hmoved.document_revises.originalFilename_eq, hfilename]
    · exact ⟨row, (hmoved.mem_documents row).mpr (Or.inr ⟨hrow, hid⟩), hnames, hfilename⟩
  · exact ⟨row, (hinserted.mem_documents row).mpr (Or.inl hrow), hnames, hfilename⟩
  · refine ⟨row, (hremoved.mem_documents row).mpr ⟨hrow, ?_⟩, hnames, hfilename⟩
    rw [hnames.id_eq]
    exact fun hid => hkept k document hk hid.symm

/-- So does the file, unless a submission is to store or remove one for the document. -/
theorem Sound.file_step (hs : s.Sound S) (hstep : System.step S s e = some s')
    (hfile : ⟨t.path, t.content⟩ ∈ s.stores.fs.files)
    (hkept : ∀ k document, (s.deletions k).document = some document → document.id ≠ t.documentId)
    (hfree : ∀ k event, e = .submission k event → (s.submissions k).storing ≠ some t.documentId) :
  ⟨t.path, t.content⟩ ∈ s'.stores.fs.files
  := by
  have hhead : ∀ {other : Uuid}, other ≠ t.documentId → t.path.head? ≠ some other.text := by
    intro other hne heq
    apply hne
    apply Uuid.text_injective
    apply (Option.some.inj heq).symm
  rcases step_eq_some hstep with ⟨k, event, stores, submission, issued, rfl, hsub, -, rfl⟩
    | ⟨k, event, stores, delivery, -, hdel, rfl⟩ | ⟨k, event, stores, deletion, -, hdel, rfl⟩
  · apply (Submission.mem_files_of_step (hs.submissions k) hsub _).mpr hfile
    intro other hstoring
    apply hhead
    rintro rfl
    apply hfree k event rfl hstoring
  · rw [(hs.delivery_steps hdel).fs_eq]
    apply hfile
  · apply ((hs.deletion_steps hdel).mem_files (hs.deletions k) _).mpr hfile
    intro document hk
    apply hhead (hkept k document hk)

/-- What an upload has stored is kept by every step of a call that is not to store or remove its file. -/
theorem Keeps.step (h : s.Keeps S t filename) (hs : s.Sound S)
    (hstep : System.step S s e = some s')
    (hfree : ∀ k event, e = .submission k event → (s.submissions k).storing ≠ some t.documentId) :
  s'.Keeps S t filename
  := by
  rcases h with hconceals | hholds
  · apply Or.inl (hconceals.step hstep)
  · by_cases hdeletion : ∃ k document, (s.deletions k).document = some document
        ∧ document.id = t.documentId
    · obtain ⟨k, document, hk, hid⟩ := hdeletion
      left
      rw [← hid]
      apply (hs.conceals hk).step hstep
    · have hkept : ∀ k document, (s.deletions k).document = some document →
          document.id ≠ t.documentId := by
        intro k document hk hid
        apply hdeletion ⟨k, document, hk, hid⟩
      right
      exact ⟨hholds.row_step hs hstep hkept, hs.file_step hstep hholds.file hkept hfree⟩

/-- Its message is kept by every step. -/
theorem Queues.step (h : s.Queues S t) (hs : s.Sound S) (hcancels : s.Cancels) (ht : t ∈ s.issued)
    (hstep : System.step S s e = some s') :
  s'.Queues S t
  := by
  rcases h with hconceals | hmem
  · apply Or.inl (hconceals.step hstep)
  · rcases step_eq_some hstep with ⟨k, event, stores, submission, issued, rfl, hsub, -, rfl⟩
      | ⟨k, event, stores, delivery, -, hdel, rfl⟩ | ⟨k, event, stores, deletion, -, hdel, rfl⟩
    · right
      have hsent := Submission.sends_of_step hsub
      generalize s.submissions k = before at hsent
      cases hsent with
      | begin hqueue | quiet hqueue =>
          simp only [hqueue]
          apply hmem
      | send _ hqueue =>
          simp only [hqueue]
          apply List.mem_append_left _ hmem
    · right
      simp only [(hs.delivery_steps hdel).queue_eq]
      apply hmem
    · have hwithholds := Deletion.withholds_of_step hs.stores (hcancels k) hdel
      generalize hk : s.deletions k = before at hwithholds
      cases hwithholds with
      | quiet hqueue =>
          right
          simp only [hqueue]
          apply hmem
      | @cancel _ document jobId jobIds hqueue =>
          by_cases hid : t.jobId = jobId
          · subst hid
            left
            apply (hs.conceals_of_cancelling hcancels ht hk).step hstep
          · right
            simp only [hqueue]
            apply List.mem_filter.mpr ⟨hmem, _⟩
            apply decide_eq_true hid

end System

end KnowledgeSearch

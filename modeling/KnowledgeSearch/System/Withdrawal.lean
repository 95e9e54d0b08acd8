import KnowledgeSearch.System.Indexing

/-!
# Withdrawn documents

A document is withdrawn once a call of `delete` has marked it and no attempt at its job is under
way. `System.Withdrawn` is the invariant of such a document: it is never written to again, and
what a call of `delete` has removed stays removed. `System.deletion_recoverable` collects what
follows for calls of `delete` that fail, are repeated or overlap.
-/

namespace KnowledgeSearch

open Database

/-! ### What is left of a document -/

namespace Stores

/-- The index holds no point of the document. -/
def Unindexed (s : Stores) (d : Uuid) : Prop :=
  ∀ point ∈ s.index, point.documentId ≠ d

/-- The directory of the document holds no file. -/
def Unfiled (s : Stores) (d : Uuid) : Prop :=
  ∀ f ∈ s.fs.files, f.path.head? ≠ some d.text

/-- Nothing of the document is left. -/
structure Gone (s : Stores) (d : Uuid) : Prop where
  documents : ∀ document ∈ s.db.documents, document.id ≠ d
  jobs : ∀ job ∈ s.db.jobs, job.documentId ≠ d
  chunks : ∀ chunk ∈ s.db.chunks, chunk.documentId ≠ d
  unindexed : s.Unindexed d
  unfiled : s.Unfiled d

variable {s s' : Stores} {d : Uuid}

theorem Unindexed.deleteDocument (h : s.Unindexed d) (d' : Uuid) (reached : Uuid → Bool) :
  { s with index := s.index.deleteDocument d' reached }.Unindexed d
  := by
  intro point hpoint
  apply h point (VectorIndex.mem_deleteDocument.mp hpoint).1

/-- Deleting the points of a document, all of them reached. -/
theorem unindexed_deleteDocument (s : Stores) (d : Uuid) :
  { s with index := s.index.deleteDocument d fun _ => true }.Unindexed d
  := by
  intro point hpoint hid
  apply (VectorIndex.mem_deleteDocument.mp hpoint).2
  use hid

/-- Putting points of other documents. -/
theorem Unindexed.putAll (h : s.Unindexed d) {points : List Point}
    (hpoints : ∀ point ∈ points, point.documentId ≠ d) :
  { s with index := s.index.putAll points }.Unindexed d
  := by
  intro point hpoint
  rcases Table.mem_of_mem_putAll hpoint with hnew | hold
  · apply hpoints point hnew
  · apply h point hold

theorem Unfiled.less (h : s.Unfiled d) (hless : s'.fs.Less s.fs) :
  s'.Unfiled d
  := by
  intro f hf
  apply h f (hless.files f hf)

/-- Where the files follow distinct tickets, a document without its file has no files. -/
theorem Follows.unfiled {tickets : List Ticket} (h : s.Follows tickets)
    (hdistinct : Distinct tickets) {t : Ticket} (ht : t ∈ tickets)
    (hmissing : ∀ f ∈ s.fs.files, f.path ≠ t.path) :
  s.Unfiled t.documentId
  := by
  intro f hf hhead
  obtain ⟨u, hu, rfl⟩ := h.files f hf
  obtain rfl : u = t := by
    apply hdistinct.documents u hu t ht
    apply Uuid.text_injective
    apply Option.some.inj hhead
  apply hmissing _ hf
  rfl

/-- Where the files follow distinct tickets, deleting the file of a document leaves it without
files. -/
theorem Follows.unfiled_delete {tickets : List Ticket} (h : s.Follows tickets)
    (hdistinct : Distinct tickets) {t : Ticket} (ht : t ∈ tickets) {root : List Text}
    {fs : FileSystem}
    (hdelete : s.fs.delete root (storageKey t.documentId t.mediaType) = .ok fs) :
  { s with fs }.Unfiled t.documentId
  := by
  have hfollows : { s with fs }.Follows tickets := h.same (FileSystem.less_delete hdelete) rfl
  apply hfollows.unfiled hdistinct ht
  intro f hf
  apply ((FileSystem.mem_delete hdelete).mp hf).2

end Stores

/-- What a call of `delete` at the document `d` has removed so far. -/
def Deletion.Cleared (s : Stores) (d : Uuid) : Deletion → Prop
  | removing document => document.id = d → s.Unindexed d
  | finishing document => document.id = d → s.Unindexed d ∧ s.Unfiled d
  | _ => True

/-- What has been removed stays removed when neither points nor files of the document are
added. -/
theorem Deletion.Cleared.mono {s s' : Stores} {d : Uuid} {deletion : Deletion}
    (h : deletion.Cleared s d) (hindexed : s.Unindexed d → s'.Unindexed d)
    (hfiled : s.Unfiled d → s'.Unfiled d) :
  deletion.Cleared s' d
  := by
  cases deletion with
  | removing document =>
      intro hid
      apply hindexed (h hid)
  | finishing document =>
      intro hid
      obtain ⟨hunindexed, hunfiled⟩ := h hid
      use hindexed hunindexed, hfiled hunfiled
  | _ => trivial

/-- A call that has still to cancel jobs or to delete the points has removed nothing. -/
theorem Deletion.cleared_cancelFrom (s : Stores) (d : Uuid) (document : Document)
    (jobIds : List Uuid) :
  (Deletion.cancelFrom document jobIds).Cleared s d
  := by cases jobIds <;> trivial

/-- The step is one of a call that has begun, no service fails in it, and the process does not
die. -/
def DeletionEvent.Healthy : DeletionEvent → Prop
  | cancel fault | removeFile fault | finish fault => fault = none
  | clear fault => fault = none
  | mark _ _ _ | crash => False

/-- A call at another document has removed nothing of the document `d`. -/
theorem Deletion.cleared_of_not_begun {s : Stores} {d : Uuid} {deletion : Deletion}
    (h : ∀ document ∈ deletion.document, document.id ≠ d) :
  deletion.Cleared s d
  := by
  cases deletion with
  | removing document | finishing document =>
      intro hid
      exact absurd hid (h document rfl)
  | _ => trivial

/-! ### Steps of the calls -/

/-- A delivery adds points of the document it runs at only. -/
theorem Delivery.Steps.unindexed {S : Services} {s s' : Stores} {delivery delivery' : Delivery}
    {event : DeliveryEvent} (h : Delivery.Steps S s delivery event s' delivery')
    {tickets : List Ticket} (hfollows : delivery.Follows S tickets) {d : Uuid}
    (hne : ∀ a, delivery.running = some a → a.documentId ≠ d) (hd : s.Unindexed d) :
  s'.Unindexed d
  := by
  have hpoints : ∀ {a : Attempt} {document : Document} {chunks : List Chunk}
      {vectors : List Vector}, delivery = .ensured a document chunks vectors →
      ∀ point ∈ pointsOf document chunks vectors, point.documentId ≠ d := by
    rintro a document chunks vectors rfl point hpoint
    obtain ⟨t, -, hattempt, -, hindexes⟩ := hfollows.indexes
    obtain ⟨_, -, -, hpd⟩ := (hindexes point hpoint).chunk
    rw [hpd, ← hattempt.documentId_eq]
    apply hne a rfl
  cases h with
  | upsert =>
      apply hd.putAll
      apply hpoints rfl
  | upsertPart =>
      apply hd.putAll
      intro point hpoint
      apply hpoints rfl point (List.mem_of_mem_filter hpoint)
  | clean => apply hd.deleteDocument
  | _ => apply hd

/-- An attempt begins at a document that is there and not being deleted. -/
theorem Delivery.Steps.attempt_marked {S : Services} {s s' : Stores}
    {delivery delivery' : Delivery} {event : DeliveryEvent}
    (h : Delivery.Steps S s delivery event s' delivery') {a : Attempt}
    (ha : delivery'.attempt = some a) (hmarked : s.db.Marked a.documentId) :
  delivery.attempt = some a
  := by
  cases h with
  | start hidle hcount hmoved =>
      obtain rfl := Option.some.inj ha
      exact absurd hmarked hmoved.not_marked
  | interrupt hrunning _ =>
      rw [← ha]
      apply attempt_of_running hrunning
  | load | prepare | embed | ensure | upsert | upsertPart | recordNothing | record => apply ha
  | refuse | skip | finalise | unrecorded | clean | crash => cases ha

/-- A call for the job of a document that is being deleted leaves the database alone. -/
theorem Delivery.Steps.db_eq_of_marked {S : Services} {s s' : Stores}
    {delivery delivery' : Delivery} {event : DeliveryEvent}
    (h : Delivery.Steps S s delivery event s' delivery') {job : IngestionJob}
    (hjob : job ∈ s.db.jobs) (hmarked : s.db.Marked job.documentId) {clock : Clock}
    {fault : Option AppError} (hevent : event = .start job.id clock fault) :
  s'.db = s.db
  := by
  cases h with
  | @start _ _ _ db document document' job₁ job' hidle hcount hmoved =>
      obtain rfl : job = job₁ := by
        apply Table.eq_of_key_eq hjob hmoved.job_mem
        apply (DeliveryEvent.start.inj hevent).1.symm
      rw [hmoved.job_document] at hmarked
      exact absurd hmarked hmoved.not_marked
  | finalise | record => cases hevent
  | _ => rfl

/-- A submission stores the file of its own document only. -/
theorem Submission.Steps.unfiled {s s' : Stores} {submission submission' : Submission}
    {event : SubmissionEvent} (h : Submission.Steps s submission event s' submission') {d : Uuid}
    (hne : submission.pending ≠ some d) (hd : s.Unfiled d) :
  s'.Unfiled d
  := by
  cases h with
  | @save event t filename source fs stored hstored hfiles hshallow =>
      intro f hf
      change f ∈ fs.files at hf
      rw [hfiles, Table.mem_put] at hf
      rcases hf with rfl | ⟨hf, -⟩
      · intro hhead
        apply hne
        have hid : t.documentId = d := Uuid.text_injective (Option.some.inj hhead)
        rw [Submission.pending, hid]
      · apply hd f hf
  | other hfs => apply hd.less hfs
  | begin | build | insert | failDispatch => apply hd

/-- A submission becomes pending by drawing its ticket. -/
theorem Submission.Steps.pending_eq {s s' : Stores} {submission submission' : Submission}
    {event : SubmissionEvent} (h : Submission.Steps s submission event s' submission')
    {d : Uuid} (hd : submission'.pending = some d) :
  submission.pending = some d
    ∨ ∃ t filename source, submission' = .accepted t filename source ∧ t.documentId = d
  := by
  cases h with
  | begin => apply Or.inr ⟨_, _, _, rfl, Option.some.inj hd⟩
  | save => apply Or.inl hd
  | build hbuild =>
      left
      obtain ⟨-, hid, -⟩ := buildSubmission_spec hbuild
      rw [← hd]
      simp only [Submission.pending, hid]
  | insert | failDispatch => cases hd
  | other _ _ _ hpending =>
      rw [hpending] at hd
      cases hd

/-- A deletion adds no points. -/
theorem Deletion.Steps.unindexed {S : Services} {s s' : Stores} {deletion deletion' : Deletion}
    {event : DeletionEvent} (h : Deletion.Steps S s deletion event s' deletion') {d : Uuid}
    (hd : s.Unindexed d) :
  s'.Unindexed d
  := by
  cases h with
  | clear | clearPart => apply hd.deleteDocument
  | _ => apply hd

/-- A call for a document that is being deleted leaves the database alone at first. -/
theorem Deletion.Steps.db_eq_of_marked {S : Services} {s s' : Stores}
    {deletion deletion' : Deletion} {event : DeletionEvent}
    (h : Deletion.Steps S s deletion event s' deletion') {d : Uuid} (hmarked : s.db.Marked d)
    {clock : Clock} {fault : Option AppError} (hevent : event = .mark d clock fault) :
  s'.db = s.db
  := by
  cases h with
  | mark hidle hmem hstatus hmoved =>
      obtain ⟨rfl, -⟩ := DeletionEvent.mark.inj hevent
      exact absurd hmarked hmoved.not_marked
  | finish => cases hevent
  | _ => rfl

/-- A call that begins leaves its document marked. -/
theorem Deletion.Steps.marked_of_begun {S : Services} {s s' : Stores}
    {deletion deletion' : Deletion} {event : DeletionEvent}
    (h : Deletion.Steps S s deletion event s' deletion') {d : Uuid} {clock : Clock}
    {fault : Option AppError} (hevent : event = .mark d clock fault)
    (hbegun : deletion'.document.isSome) :
  ∃ document ∈ s.db.documents, document.id = d ∧ s'.db.Marked d
  := by
  cases h with
  | @mark _ _ _ db row document job jobIds hidle hmem hstatus hmoved =>
      obtain ⟨rfl, -⟩ := DeletionEvent.mark.inj hevent
      use row, hmoved.document_mem, rfl
      intro row hrow hrowid
      rw [Table.eq_of_key_eq hrow hmem (hrowid.trans hmoved.document_revises.id_eq.symm)]
      apply hstatus
  | @again _ _ _ document jobIds hidle hmem hstatus =>
      obtain ⟨rfl, -⟩ := DeletionEvent.mark.inj hevent
      use document, hmem, rfl
      intro row hrow hrowid
      rw [Table.eq_of_key_eq hrow hmem hrowid]
      apply hstatus
  | refuse | clearPart | finish | interrupt | crash => cases hbegun
  | cancel | clear | removeFile => cases hevent

/-- A call that begins at a document that was not being deleted has marked it. -/
theorem Deletion.Steps.moved_of_begun {S : Services} {s s' : Stores}
    {deletion deletion' : Deletion} {event : DeletionEvent}
    (h : Deletion.Steps S s deletion event s' deletion') {row : Document} {clock : Clock}
    {fault : Option AppError} (hevent : event = .mark row.id clock fault)
    (hrow : row ∈ s.db.documents) (hnot : row.status ≠ .deleting)
    (hbegun : deletion'.document.isSome) :
  ∃ document job, document.id = row.id ∧ Moved .mark s.db s'.db row document job job []
  := by
  cases h with
  | @mark _ _ _ db row₁ document job jobIds hidle hmem hstatus hmoved =>
      obtain ⟨hid, -⟩ := DeletionEvent.mark.inj hevent
      obtain rfl := Table.eq_of_key_eq hmoved.document_mem hrow hid
      use document, job, hmoved.document_revises.id_eq
  | again hidle hmem hstatus =>
      obtain ⟨hid, -⟩ := DeletionEvent.mark.inj hevent
      obtain rfl := Table.eq_of_key_eq hmem hrow hid
      exact absurd hstatus hnot
  | refuse | clearPart | finish | interrupt | crash => cases hbegun
  | cancel | clear | removeFile => cases hevent

/-- A call of `delete` that has begun leaves the corpus revision alone. -/
theorem Deletion.Steps.revision_of_begun {S : Services} {s s' : Stores}
    {deletion deletion' : Deletion} {event : DeletionEvent}
    (h : Deletion.Steps S s deletion event s' deletion') (hdb : s.db.Coherent)
    (hbegun : deletion.document.isSome) :
  s'.db.revision = s.db.revision
  := by
  cases h with
  | mark hidle hmem hstatus hmoved =>
      rw [hidle] at hbegun
      cases hbegun
  | finish => apply (deleteDocument_removed hdb _).revision
  | _ => rfl

/-- A deletion removes points and files in its steps. -/
theorem Deletion.Steps.cleared {S : Services} {s s' : Stores} {deletion deletion' : Deletion}
    {event : DeletionEvent} (h : Deletion.Steps S s deletion event s' deletion')
    {tickets : List Ticket} (hs : s.Follows tickets) (hdistinct : Distinct tickets) {t : Ticket}
    (ht : t ∈ tickets) (hfollows : deletion.Follows tickets)
    (hd : deletion.Cleared s t.documentId) :
  deletion'.Cleared s' t.documentId
  := by
  cases h with
  | mark | again | cancel => apply cleared_cancelFrom
  | clear =>
      intro hid
      rw [← hid]
      apply Stores.unindexed_deleteDocument
  | @removeFile document fault fs hdelete =>
      intro hid
      use hd hid
      obtain ⟨u, hu, hnames⟩ := hfollows document rfl
      obtain rfl := hdistinct.documents u hu t ht (hnames.id_eq.symm.trans hid)
      rw [hnames.storageKey_eq] at hdelete
      apply hs.unfiled_delete hdistinct ht hdelete
  | refuse | clearPart | finish | interrupt | crash => trivial

/-- A call of `delete` that returns has removed everything. -/
theorem Deletion.Steps.gone {S : Services} {s s' : Stores} {deletion deletion' : Deletion}
    {event : DeletionEvent} (h : Deletion.Steps S s deletion event s' deletion')
    (hdb : s.db.Coherent) (hbegun : deletion.document.isSome) {d : Uuid}
    (hd : deletion.Cleared s d) (hreturned : deletion' = .returned d) :
  s'.Gone d
  := by
  cases h with
  | @finish document fault =>
      cases hreturned
      obtain ⟨hunindexed, hunfiled⟩ := hd rfl
      have hremoved := deleteDocument_removed hdb document.id
      constructor
      · intro row hrow
        apply ((hremoved.mem_documents row).mp hrow).2
      · intro job hjob
        apply ((hremoved.mem_jobs job).mp hjob).2
      · intro chunk hchunk
        apply ((hremoved.mem_chunks chunk).mp hchunk).2
      · apply hunindexed
      · apply hunfiled
  | mark | again | cancel =>
      have hdocument := congrArg Deletion.document hreturned
      rw [document_cancelFrom] at hdocument
      cases hdocument
  | refuse | clear | clearPart | removeFile | interrupt | crash => cases hreturned

/-- A document that is being deleted, ready or failed may be marked. -/
theorem Database.markDeleting_isOk {db : Database} {document : Document} {clock : Clock}
    (hdocument : document ∈ db.documents)
    (hstatus : document.status = .deleting
      ∨ (document.status = .ready ∨ document.status = .failed) ∧ document.updatedAt ≤ clock 0) :
  ∃ result db', markDeleting clock document.id db = .ok (result, db')
  := by
  have hget : db.getDocument document.id = some document := Table.get_key hdocument
  rcases hstatus with hdeleting | ⟨hmarkable, hnow⟩
  · have hrows : markRows clock document = .ok none := by
      rw [markRows, if_pos hdeleting]
    simp only [markDeleting, hget, bind_of_eq_ok hrows]
    exact ⟨_, _, rfl⟩
  · have htarget : .deleting ∈ documentTransitions document.status := by
      rcases hmarkable with hready | hfailed
      · simp [hready, documentTransitions]
      · simp [hfailed, documentTransitions]
    have hstatuses : document.status ≠ .deleting ∧ document.status ∈ [.ready, .failed] := by
      rcases hmarkable with hready | hfailed
      · simp [hready]
      · simp [hfailed]
    obtain ⟨document', hmark⟩ : ∃ document', document.transition .deleting (clock 0) none = .ok document' :=
      Document.transition_isOk htarget hnow rfl
    obtain ⟨-, -, hrevises⟩ := Document.transition_spec hmark
    have hsave : db.saveDocument document'
        = .ok { db with documents := db.documents.replace document' } := by
      apply saveDocument_eq_ok_iff.mpr
      rw [hrevises.id_eq]
      use ⟨document, hget⟩
    have hrows : markRows clock document = .ok (some document') := by
      rw [markRows, if_neg hstatuses.1, if_neg (not_not.mpr hstatuses.2), Document.markDeleting,
        hmark]
      rfl
    simp only [markDeleting, hget, bind_of_eq_ok hrows, bind_of_eq_ok hsave]
    exact ⟨_, _, rfl⟩

namespace System

variable {S : Services} {s s' : System} {t : Ticket}

/-! ### The invariant -/

/-- The document of a ticket is hidden: it is being deleted or gone, and no submission is about to
insert it. -/
structure Hidden (S : Services) (s : System) (t : Ticket) : Prop where
  sound : s.Sound S
  issued : t ∈ s.issued
  inserted : ∀ i, (s.submissions i).pending ≠ some t.documentId
  marked : s.stores.db.Marked t.documentId

/-- The document of a ticket is withdrawn: it is hidden, and no attempt at its job is under way. -/
structure Withdrawn (S : Services) (s : System) (t : Ticket) : Prop extends s.Hidden S t where
  unattempted : ∀ i a, (s.deliveries i).attempt = some a → a.documentId ≠ t.documentId
  cleared : ∀ i, (s.deletions i).Cleared s.stores t.documentId

namespace Hidden

/-- A step leaves no submission about to insert a hidden document. -/
theorem inserted_step {e : Event} (h : s.Hidden S t) (hstep : System.step S s e = some s')
    (j : ℕ) :
  (s'.submissions j).pending ≠ some t.documentId
  := by
  intro hj
  rcases h.sound.step_cases hstep with ⟨i, event, stores, submission, issued, -, hsub, hissue, rfl⟩
    | ⟨i, event, stores, delivery, -, hdel, rfl⟩ | ⟨i, event, stores, deletion, -, hdel, rfl⟩
  · by_cases hji : j = i
    · subst hji
      simp only [Function.update_self] at hj
      rcases hsub.pending_eq hj with hbefore | ⟨u, filename, source, rfl, hid⟩
      · apply h.inserted j hbefore
      · -- the ticket of an accepted submission is new
        simp only [issue] at hissue
        split at hissue
        · rename_i hfresh
          have hnew := List.all_eq_true.mp hfresh t h.issued
          simp [hid] at hnew
        · cases hissue
    · simp only [Function.update_of_ne hji] at hj
      apply h.inserted j hj
  · apply h.inserted j hj
  · apply h.inserted j hj

/-- Tickets are never given back. -/
theorem issued_step {e : Event} (h : s.Hidden S t) (hstep : System.step S s e = some s') :
  t ∈ s'.issued
  := by
  rcases h.sound.step_cases hstep with ⟨i, event, stores, submission, issued, -, hsub, hissue, rfl⟩
    | ⟨i, event, stores, delivery, -, hdel, rfl⟩ | ⟨i, event, stores, deletion, -, hdel, rfl⟩
  · apply subset_of_issue hissue h.issued
  · apply h.issued
  · apply h.issued

/-- A hidden document stays hidden. -/
theorem step {e : Event} (h : s.Hidden S t) (hstep : System.step S s e = some s') :
  s'.Hidden S t
  where
  sound := h.sound.step hstep
  issued := h.issued_step hstep
  inserted := h.inserted_step hstep
  marked := h.sound.marked_step hstep h.inserted h.marked

/-- A committed mark hides the document. -/
theorem of_mark {d : Uuid} {i : ℕ} {clock : Clock} {fault : Option AppError} (h : s.Sound S)
    (hmark : System.step S s (.deletion i (.mark d clock fault)) = some s')
    (hbegun : (s'.deletions i).document.isSome) :
  ∃ t, t.documentId = d ∧ s'.Hidden S t
  := by
  have hsound := h.step hmark
  rcases h.step_cases hmark with ⟨_, _, _, _, _, he, -⟩ | ⟨_, _, _, _, he, -⟩
    | ⟨j, event, stores, deletion, he, hdel, rfl⟩
  · cases he
  · cases he
  · cases he
    simp only [Function.update_self] at hbegun
    obtain ⟨document, hdocument, rfl, hmarked⟩ := hdel.marked_of_begun rfl hbegun
    obtain ⟨t, ht, hnames⟩ := h.ticket hdocument
    use t, hnames.id_eq.symm
    constructor
    · apply hsound
    · apply ht
    · intro k hk
      apply h.pending k _ hk
      apply Known.row document hdocument hnames.id_eq
    · rw [← hnames.id_eq]
      apply hmarked

end Hidden

/-- The step belongs to a call of `process` for the job of the document `d`, or to a call of
`delete` for the document. -/
def Concerns (s : System) (d : Uuid) : Event → Prop
  | .submission _ _ => False
  | .delivery i event =>
      (∃ a, (s.deliveries i).attempt = some a ∧ a.documentId = d)
        ∨ ∃ job ∈ s.stores.db.jobs, job.documentId = d
          ∧ ∃ clock fault, event = .start job.id clock fault
  | .deletion i event =>
      (∃ document, (s.deletions i).document = some document ∧ document.id = d)
        ∨ ∃ clock fault, event = .mark d clock fault

namespace Withdrawn

/-- Points and files of a withdrawn document that are gone stay gone. -/
theorem stays {e : Event} (h : s.Withdrawn S t) (hstep : System.step S s e = some s') :
  (s.stores.Unindexed t.documentId → s'.stores.Unindexed t.documentId)
    ∧ (s.stores.Unfiled t.documentId → s'.stores.Unfiled t.documentId)
  := by
  rcases h.sound.step_cases hstep with ⟨i, event, stores, submission, issued, -, hsub, hissue, rfl⟩
    | ⟨i, event, stores, delivery, -, hdel, rfl⟩ | ⟨i, event, stores, deletion, -, hdel, rfl⟩
  · constructor
    · intro hunindexed point hpoint
      rw [hsub.index_eq] at hpoint
      apply hunindexed point hpoint
    · apply hsub.unfiled (h.inserted i)
  · constructor
    · apply hdel.unindexed (h.sound.deliveries i)
      intro a ha
      apply h.unattempted i a (Delivery.attempt_of_running ha)
    · intro hunfiled
      apply hunfiled.less
      rw [hdel.fs_eq]
      apply FileSystem.Less.refl
  · use hdel.unindexed
    intro hunfiled
    apply hunfiled.less (hdel.less (h.sound.deletions i))

/-- A step begins no attempt at a withdrawn document. -/
theorem unattempted_step {e : Event} (h : s.Withdrawn S t) (hstep : System.step S s e = some s')
    (j : ℕ) (a : Attempt) (ha : (s'.deliveries j).attempt = some a) :
  a.documentId ≠ t.documentId
  := by
  rcases h.sound.step_cases hstep with ⟨i, event, stores, submission, issued, -, hsub, hissue, rfl⟩
    | ⟨i, event, stores, delivery, -, hdel, rfl⟩ | ⟨i, event, stores, deletion, -, hdel, rfl⟩
  · apply h.unattempted j a ha
  · by_cases hji : j = i
    · subst hji
      simp only [Function.update_self] at ha
      intro hid
      apply h.unattempted j a _ hid
      apply hdel.attempt_marked ha
      rw [hid]
      apply h.marked
    · simp only [Function.update_of_ne hji] at ha
      apply h.unattempted j a ha
  · apply h.unattempted j a ha

/-- What calls of `delete` have removed of a withdrawn document stays removed. -/
theorem cleared_step {e : Event} (h : s.Withdrawn S t) (hstep : System.step S s e = some s')
    (j : ℕ) :
  (s'.deletions j).Cleared s'.stores t.documentId
  := by
  obtain ⟨hunindexed, hunfiled⟩ := h.stays hstep
  rcases h.sound.step_cases hstep with ⟨i, event, stores, submission, issued, -, hsub, hissue, rfl⟩
    | ⟨i, event, stores, delivery, -, hdel, rfl⟩ | ⟨i, event, stores, deletion, -, hdel, rfl⟩
  · apply (h.cleared j).mono hunindexed hunfiled
  · apply (h.cleared j).mono hunindexed hunfiled
  · by_cases hji : j = i
    · subst hji
      simp only [Function.update_self]
      apply hdel.cleared h.sound.stores h.sound.distinct h.issued (h.sound.deletions j) (h.cleared j)
    · simp only [Function.update_of_ne hji]
      apply (h.cleared j).mono hunindexed hunfiled

/-- A withdrawn document stays withdrawn. -/
theorem step {e : Event} (h : s.Withdrawn S t) (hstep : System.step S s e = some s') :
  s'.Withdrawn S t
  where
  toHidden := h.toHidden.step hstep
  unattempted := h.unattempted_step hstep
  cleared := h.cleared_step hstep

theorem run {es : List Event} (h : s.Withdrawn S t) (hrun : (machine S).run s es = some s') :
  s'.Withdrawn S t
  := by
  apply (machine S).run_invariant (I := fun s => s.Withdrawn S t) _ h hrun
  intro s e s' h hstep
  apply h.step hstep

/-! ### Rows -/

/-- A step keeps the rows of a withdrawn document or removes them. -/
theorem rows_step {e : Event} (h : s.Withdrawn S t) (hstep : System.step S s e = some s') :
  Keeps t.documentId s.stores.db s'.stores.db
    ∨ Removed s.stores.db s'.stores.db t.documentId
  := by
  rcases h.sound.changed hstep with hdb | ⟨_, document, _, _, _, _, hmoved⟩
    | ⟨i, document, job, hpending, hinserted⟩ | ⟨_, document, -, hremoved⟩
  · left
    rw [hdb]
    apply Keeps.refl
  · left
    apply hmoved.keeps
    intro hid
    apply hmoved.not_marked
    rw [← hid]
    apply h.marked
  · left
    apply hinserted.keeps
    intro hid
    apply h.inserted i
    rw [hpending, hid]
  · by_cases hid : t.documentId = document.id
    · right
      rw [hid]
      apply hremoved
    · apply Or.inl (hremoved.keeps hid)

/-- Over a run, a withdrawn document is removed or keeps its rows. -/
theorem rows_run : ∀ {es : List Event} {s : System}, s.Withdrawn S t →
    (machine S).run s es = some s' →
    (∀ document ∈ s'.stores.db.documents, document.id ≠ t.documentId)
      ∨ Keeps t.documentId s.stores.db s'.stores.db
  | [], s, _, hrun => by
      obtain rfl := Option.some.inj hrun
      apply Or.inr (Keeps.refl _ _)
  | e :: es, s, h, hrun => by
      obtain ⟨s₁, hstep, hrun⟩ := (machine S).run_cons_iff.mp hrun
      have h₁ := h.step hstep
      rcases h₁.rows_run hrun with habsent | hkeeps'
      · apply Or.inl habsent
      rcases h.rows_step hstep with hkeeps | hremoved
      · apply Or.inr (hkeeps.trans hkeeps')
      · left
        intro document hmem hid
        have hmem₁ := (hkeeps'.documents document hid).mp hmem
        apply ((hremoved.mem_documents document).mp hmem₁).2 hid

/-- A committed mark withdraws a document that no attempt is at. -/
theorem of_mark {i : ℕ} {clock : Clock} {fault : Option AppError} (h : s.Sound S)
    (ht : t ∈ s.issued)
    (hunattempted : ∀ j a, (s.deliveries j).attempt = some a → a.documentId ≠ t.documentId)
    (hcleared : ∀ j, (s.deletions j).Cleared s.stores t.documentId)
    (hmark : System.step S s (.deletion i (.mark t.documentId clock fault)) = some s')
    (hbegun : (s'.deletions i).document.isSome) :
  s'.Withdrawn S t
  := by
  obtain ⟨u, hu, hhidden⟩ := Hidden.of_mark h hmark hbegun
  rcases h.step_cases hmark with ⟨_, _, _, _, _, he, -⟩ | ⟨_, _, _, _, he, -⟩
    | ⟨j, event, stores, deletion, he, hdel, rfl⟩
  · cases he
  · cases he
  · cases he
    obtain rfl := h.distinct.documents u hhidden.issued t ht hu
    have hless := hdel.less (h.deletions i)
    constructor
    · apply hhidden
    · apply hunattempted
    · intro k
      by_cases hk : k = i
      · subst hk
        simp only [Function.update_self]
        apply hdel.cleared h.stores h.distinct ht (h.deletions k) (hcleared k)
      · simp only [Function.update_of_ne hk]
        apply (hcleared k).mono hdel.unindexed
        intro hunfiled
        apply hunfiled.less hless

/-- A call of `delete` that returns has removed all that was left of a withdrawn document. -/
theorem gone {e : Event} {i : ℕ} (h : s.Withdrawn S t) (hstep : System.step S s e = some s')
    (hbegun : (s.deletions i).document.isSome)
    (hreturned : s'.deletions i = .returned t.documentId) :
  s'.stores.Gone t.documentId
  := by
  have hcleared := h.cleared i
  rcases h.sound.step_cases hstep with ⟨_, _, _, _, _, -, -, -, rfl⟩ | ⟨_, _, _, _, -, -, rfl⟩
    | ⟨j, event, stores, deletion, -, hdel, rfl⟩
  · rw [hreturned] at hbegun
    cases hbegun
  · rw [hreturned] at hbegun
    cases hbegun
  · by_cases hij : i = j
    · subst hij
      simp only [Function.update_self] at hreturned
      apply hdel.gone h.sound.coherent hbegun hcleared hreturned
    · simp only [Function.update_of_ne hij] at hreturned
      rw [hreturned] at hbegun
      cases hbegun

/-- The steps of calls for a withdrawn document leave the corpus revision alone. -/
theorem revision_step {e : Event} (h : s.Withdrawn S t) (hconcerns : s.Concerns t.documentId e)
    (hstep : System.step S s e = some s') :
  s'.stores.db.revision = s.stores.db.revision
  := by
  rcases h.sound.step_cases hstep with ⟨_, _, _, _, _, rfl, -⟩
    | ⟨i, event, stores, delivery, rfl, hdel, rfl⟩ | ⟨i, event, stores, deletion, rfl, hdel, rfl⟩
  · cases hconcerns
  · rcases hconcerns with ⟨a, ha, hid⟩ | ⟨job, hjob, hid, clock, fault, hevent⟩
    · exact absurd hid (h.unattempted i a ha)
    · have hmarked := h.marked
      rw [← hid] at hmarked
      have hdb := hdel.db_eq_of_marked hjob hmarked hevent
      simp only [hdb]
  · rcases hconcerns with ⟨document, hdocument, -⟩ | ⟨clock, fault, hevent⟩
    · apply hdel.revision_of_begun h.sound.coherent
      rw [hdocument]
      rfl
    · have hdb := hdel.db_eq_of_marked h.marked hevent
      simp only [hdb]

/-! ### Completing a call of `delete` -/

/-- The rest of a call of `delete` that has still to cancel jobs, nothing failing. -/
theorem complete {i : ℕ} {document : Document} :
    ∀ {jobIds : List Uuid} {s : System}, s.Withdrawn S t →
      s.deletions i = Deletion.cancelFrom document jobIds → document.id = t.documentId →
      ∃ (events : List DeletionEvent) (s' : System), (∀ e ∈ events, e.Healthy)
        ∧ (machine S).run s (events.map (.deletion i)) = some s'
        ∧ s'.deletions i = .returned t.documentId ∧ s'.stores.Gone t.documentId
  | [], s, h, hi, hid => by
      have hfollows := h.sound.deletions i
      rw [hi] at hfollows
      obtain ⟨u, -, hnames⟩ := hfollows document rfl
      obtain ⟨fs, hdelete⟩ : ∃ fs, s.stores.fs.delete S.root document.storageKey = .ok fs := by
        rw [hnames.storageKey_eq]
        apply FileSystem.delete_isOk h.sound.stores.shallow
        intro f hf
        obtain ⟨v, -, rfl⟩ := h.sound.stores.files f hf
        rfl
      obtain ⟨s₁, hrun, hfinishing⟩ : ∃ s₁, (machine S).run s
          [.deletion i (.clear none), .deletion i (.removeFile none)] = some s₁
          ∧ s₁.deletions i = .finishing document := by
        simp [Machine.run, machine, System.step, Deletion.step, hi, Deletion.cancelFrom, hdelete]
      obtain ⟨s', hstep, hreturned⟩ : ∃ s', System.step S s₁ (.deletion i (.finish none)) = some s'
          ∧ s'.deletions i = .returned t.documentId := by
        simp [System.step, Deletion.step, hfinishing, hid]
      use [.clear none, .removeFile none, .finish none], s'
      constructor
      · simp [DeletionEvent.Healthy]
      constructor
      · apply ((machine S).run_append_iff : (machine S).run s ([_, _] ++ [_]) = _ ↔ _).mpr
        use s₁, hrun
        apply (machine S).run_cons_iff.mpr
        use s', hstep
        rfl
      · use hreturned
        apply (h.run hrun).gone hstep _ hreturned
        rw [hfinishing]
        rfl
  | jobId :: jobIds, s, h, hi, hid => by
      obtain ⟨s₁, hstep, hi₁⟩ : ∃ s₁, System.step S s (.deletion i (.cancel none)) = some s₁
          ∧ s₁.deletions i = Deletion.cancelFrom document jobIds := by
        simp [System.step, Deletion.step, hi, Deletion.cancelFrom]
      obtain ⟨events, s', hhealthy, hrun, hreturned⟩ := (h.step hstep).complete hi₁ hid
      use .cancel none :: events, s'
      constructor
      · simpa [DeletionEvent.Healthy] using hhealthy
      · use (machine S).run_cons_iff.mpr ⟨s₁, hstep, hrun⟩

end Withdrawn

/-- A call of `delete` that begins and completes, nothing failing, at a document that no call is
at, and that may be marked. -/
theorem Sound.delete_completes {document : Document} {i : ℕ} {clock : Clock} (h : s.Sound S)
    (ht : t ∈ s.issued) (hnames : t.Names document) (hdocument : document ∈ s.stores.db.documents)
    (hidle : (s.deletions i).document = none)
    (hunattempted : ∀ j a, (s.deliveries j).attempt = some a → a.documentId ≠ t.documentId)
    (hcleared : ∀ j, (s.deletions j).Cleared s.stores t.documentId)
    (hstatus : document.status = .deleting
      ∨ (document.status = .ready ∨ document.status = .failed) ∧ document.updatedAt ≤ clock 0) :
  ∃ (events : List DeletionEvent) (s' : System), (∀ e ∈ events, e.Healthy)
    ∧ (machine S).run s ((.mark document.id clock none :: events).map (.deletion i)) = some s'
    ∧ s'.deletions i = .returned document.id ∧ s'.stores.Gone document.id
  := by
  obtain ⟨⟨document', jobIds⟩, db, hmark⟩ := markDeleting_isOk hdocument hstatus
  obtain ⟨hid, -⟩ := markDeleting_eq_ok h.coherent hmark
  obtain ⟨s₁, hstep, hbegun⟩ : ∃ s₁,
      System.step S s (.deletion i (.mark document.id clock none)) = some s₁
        ∧ s₁.deletions i = Deletion.cancelFrom document' jobIds := by
    simp [System.step, Deletion.step, hidle, hmark]
  have hwithdrawn : s₁.Withdrawn S t := by
    rw [hnames.id_eq] at hstep
    apply Withdrawn.of_mark h ht hunattempted hcleared hstep
    rw [hbegun, Deletion.document_cancelFrom]
    rfl
  obtain ⟨events, s', hhealthy, hrun, hreturned, hgone⟩ :=
    hwithdrawn.complete hbegun (hid.trans hnames.id_eq)
  rw [← hnames.id_eq] at hreturned hgone
  use events, s', hhealthy
  use (machine S).run_cons_iff.mpr ⟨s₁, hstep, hrun⟩

/-- Deletion is recoverable: once a call of `delete` has marked a document that no attempt is at,
the document is being deleted and keeps its rows until they are removed; no call for it increments
the revision again; a call that returns leaves nothing of the document, and a further call none of
whose steps fails returns. -/
theorem deletion_recoverable {s₁ : System} {document : Document} {i : ℕ} {clock : Clock}
    {fault : Option AppError} {es : List Event} (hreachable : (machine S).Reachable s)
    (hdocument : document ∈ s.stores.db.documents)
    (hstatus : document.status = .ready ∨ document.status = .failed)
    (hidle : ∀ j a, (s.deliveries j).attempt = some a → a.documentId ≠ document.id)
    (hmark : step S s (.deletion i (.mark document.id clock fault)) = some s₁)
    (hcommitted : (s₁.deletions i).document.isSome) (hrun : (machine S).run s₁ es = some s') :
  s₁.stores.db.revision = s.stores.db.revision + 1
    ∧ ((∀ row ∈ s'.stores.db.documents, row.id ≠ document.id)
      ∨ (∃ row ∈ s'.stores.db.documents, row.id = document.id ∧ row.status = .deleting)
        ∧ Keeps document.id s₁.stores.db s'.stores.db)
    ∧ (∀ e s'', step S s' e = some s'' → s'.Concerns document.id e →
      s''.stores.db.revision = s'.stores.db.revision)
    ∧ (∀ j e s'', step S s' e = some s'' → (s'.deletions j).document.isSome →
      s''.deletions j = .returned document.id → s''.stores.Gone document.id)
    ∧ ∀ row ∈ s'.stores.db.documents, row.id = document.id → ∀ j clock,
      (s'.deletions j).document = none →
      ∃ (events : List DeletionEvent) (s'' : System), (∀ e ∈ events, e.Healthy)
        ∧ (machine S).run s' ((.mark document.id clock none :: events).map (.deletion j))
          = some s''
        ∧ s''.deletions j = .returned document.id ∧ s''.stores.Gone document.id
  := by
  have hs := Sound.of_reachable hreachable
  obtain ⟨t, ht, hnames⟩ := hs.ticket hdocument
  have hnot : document.status ≠ .deleting := by
    rintro hdeleting
    simp [hdeleting] at hstatus
  have hcleared : ∀ j, (s.deletions j).Cleared s.stores t.documentId := by
    intro j
    apply Deletion.cleared_of_not_begun
    intro document' hdocument' hid
    apply hnot
    apply hs.deleting j document' hdocument' document hdocument
    rw [hid, hnames.id_eq]
  rw [hnames.id_eq] at hidle hmark ⊢
  obtain ⟨document', job, hid', hmoved⟩ : ∃ document' job, document'.id = t.documentId
      ∧ Moved .mark s.stores.db s₁.stores.db document document' job job [] := by
    rcases hs.step_cases hmark with ⟨_, _, _, _, _, he, -⟩ | ⟨_, _, _, _, he, -⟩
      | ⟨j, event, stores, deletion, he, hdel, rfl⟩
    · cases he
    · cases he
    · cases he
      simp only [Function.update_self] at hcommitted
      rw [← hnames.id_eq] at hdel ⊢
      apply hdel.moved_of_begun rfl hdocument hnot hcommitted
  have hwithdrawn : s₁.Withdrawn S t :=
    Withdrawn.of_mark hs ht hidle hcleared hmark hcommitted
  have h' := hwithdrawn.run hrun
  constructor
  · apply hmoved.revision
  constructor
  · rcases hwithdrawn.rows_run hrun with habsent | hkeeps
    · apply Or.inl habsent
    · right
      have hmem : document' ∈ s'.stores.db.documents :=
        (hkeeps.documents document' hid').mpr ((hmoved.mem_documents document').mpr (Or.inl rfl))
      use ⟨document', hmem, hid', h'.marked document' hmem hid'⟩
  constructor
  · intro e s'' hstep hconcerns
    apply h'.revision_step hconcerns hstep
  constructor
  · intro j e s'' hstep hbegun hreturned
    apply h'.gone hstep hbegun hreturned
  · intro row hrow hid j clock hidle'
    rw [← hid]
    obtain ⟨u, hu, hnames'⟩ := h'.sound.ticket hrow
    obtain rfl := h'.sound.distinct.documents u hu t h'.issued (hnames'.id_eq.symm.trans hid)
    apply h'.sound.delete_completes hu hnames' hrow hidle' h'.unattempted h'.cleared
    left
    apply h'.marked row hrow hid

/-- The sample document once it is ready. -/
def sampleReady : List Event :=
  sampleUpload ++ sampleIndexing 0 10 ++ [.delivery 0 (.finalise (clockFrom 20) none)]

/-- A mark of the sample document. -/
def sampleMark (i : ℕ) (start : Timestamp) : Event :=
  .deletion i (.mark Services.sampleDocumentId (clockFrom start) none)

/-- After the mark: the call fails at the vector index, the job is delivered once more, and a
second call gets as far as its last transaction. -/
def sampleRetriedDeletion : List Event :=
  [.deletion 0 (.cancel none),
    .deletion 0 (.clear (some (.vectorIndex "unavailable", fun _ => false))),
    .delivery 1 (.start sampleJobId (clockFrom 40) none), sampleMark 1 50,
    .deletion 1 (.cancel none), .deletion 1 (.clear none), .deletion 1 (.removeFile none)]

/-- After a deletion that failed and was repeated nothing of the sample document is left. -/
theorem deletion_recoverable_sample :
  (sampleAfter (sampleReady ++ [sampleMark 0 30] ++ sampleRetriedDeletion
    ++ [.deletion 1 (.finish none)])).stores.Gone Services.sampleDocumentId
  := by
  have hreachable : (machine .sample).Reachable (sampleAfter sampleReady) :=
    reachable_sampleAfter (by decide +kernel)
  have hrows : ((sampleAfter sampleReady).stores.db.documents.rows.any fun document =>
      document.id = Services.sampleDocumentId && document.status = .ready) = true := by
    decide +kernel
  obtain ⟨document, hdocument, hrow⟩ := List.any_eq_true.mp hrows
  simp only [Bool.and_eq_true, decide_eq_true_eq] at hrow
  obtain ⟨hid, hready⟩ := hrow
  have hisSome : ((machine .sample).run initial sampleReady).isSome = true := by
    decide +kernel
  have hidle : ∀ j a, ((sampleAfter sampleReady).deliveries j).attempt = some a →
      a.documentId ≠ document.id := by
    intro j a ha
    have hnone : ((sampleAfter sampleReady).deliveries j).attempt = none := by
      by_cases hj : j = 0
      · rw [hj]
        decide +kernel
      · obtain ⟨-, hdelivery, -⟩ := idle_sampleAfter hisSome
          (by simp [sampleReady, sampleUpload, sampleIndexing, Event.call]) hj
        rw [hdelivery]
        rfl
    rw [hnone] at ha
    cases ha
  have hmark : step .sample (sampleAfter sampleReady)
      (.deletion 0 (.mark document.id (clockFrom 30) none))
        = some (sampleAfter (sampleReady ++ [sampleMark 0 30])) := by
    rw [hid]
    apply step_sampleAfter _ _ (by decide +kernel)
  have hcommitted : ((sampleAfter (sampleReady ++ [sampleMark 0 30])).deletions 0).document.isSome := by
    decide +kernel
  obtain ⟨-, -, -, hgone, -⟩ := deletion_recoverable hreachable hdocument (Or.inl hready) hidle hmark
    hcommitted (run_sampleAfter _ sampleRetriedDeletion (by decide +kernel))
  have hfinish := step_sampleAfter (sampleReady ++ [sampleMark 0 30] ++ sampleRetriedDeletion)
    (.deletion 1 (.finish none)) (by decide +kernel)
  rw [← hid]
  apply hgone 1 _ _ hfinish
  · decide +kernel
  · rw [hid]
    decide +kernel

end System

end KnowledgeSearch

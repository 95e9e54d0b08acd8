import KnowledgeSearch.Persistence.Repositories
import KnowledgeSearch.Foundations.Machine

/-!
# The life cycle of a document

A document, its job and its chunks go through `Phase`s together. The moves between phases
are those of `Move`; submission and removal lead into and out of the life cycle. `Phase.next`
is the abstract machine of one document.

`Database.At db d p` says that the rows of the document `d` are those of the phase `p`, and
`Database.Coherent` that the rows of every document are those of some phase.
`Database.Moved` is what a committed transaction does that moves a document; it preserves
coherence and moves the phase of the one document.
-/

namespace KnowledgeSearch

/-- A phase of the life cycle of a persisted document. A document is deleted from one of two
phases, and keeps its chunks in the first. -/
inductive Phase where
  | queued
  | processing
  | ready
  | failed
  | deletingReady
  | deletingFailed
  deriving DecidableEq

namespace Phase

/-- The status of the document. -/
def document : Phase → DocumentStatus
  | queued => .queued
  | processing => .processing
  | ready => .ready
  | failed => .failed
  | deletingReady | deletingFailed => .deleting

/-- The status of its job. -/
def job : Phase → IngestionJobStatus
  | queued => .queued
  | processing => .running
  | ready | deletingReady => .succeeded
  | failed | deletingFailed => .failed

/-- The document has chunks. -/
def indexed : Phase → Bool
  | ready | deletingReady => true
  | queued | processing | failed | deletingFailed => false

/-- A phase is determined by the two statuses. -/
theorem eq_of_statuses {p q : Phase} (hdocument : p.document = q.document) (hjob : p.job = q.job) :
  p = q
  := by
  cases p <;> cases q <;> simp_all [document, job]

end Phase

/-- The transactions that move a persisted document. -/
inductive Move where
  | start
  | finalise
  | fail
  | mark
  deriving DecidableEq

namespace Move

/-- The move increments the corpus revision. -/
def bump : Move → ℕ
  | finalise | mark => 1
  | start | fail => 0

end Move

/-- The phase a move leads to. -/
def Phase.next : Phase → Move → Option Phase
  | queued, .start | failed, .start => some processing
  | processing, .finalise => some ready
  | queued, .fail | processing, .fail => some failed
  | ready, .mark => some deletingReady
  | failed, .mark => some deletingFailed
  | _, _ => none

/-- No move leads out of deletion. -/
theorem Phase.next_eq_none_of_deleting {p : Phase} (h : p.document = .deleting) (m : Move) :
  p.next m = none
  := by
  cases p <;> cases m <;> cases h <;> rfl

/-- Only finalising gives a document chunks. -/
theorem Phase.indexed_next {p q : Phase} {m : Move} (h : p.next m = some q) :
  q.indexed = true ↔ p.indexed = true ∨ m = .finalise
  := by
  cases p <;> cases m <;> cases h <;> simp [Phase.indexed]

/-- Only finalising makes a document ready. -/
theorem Phase.next_ready {p q : Phase} {m : Move} (h : p.next m = some q)
    (hready : q.document = .ready) :
  p = .processing ∧ m = .finalise
  := by
  cases p <;> cases m <;> cases h <;> simp [Phase.document] at hready ⊢

/-- Only starting makes a document processing. -/
theorem Phase.next_processing {p q : Phase} {m : Move} (h : p.next m = some q)
    (hprocessing : q.document = .processing) :
  m = .start
  := by
  cases p <;> cases m <;> cases h <;> simp [Phase.document] at hprocessing ⊢

/-- Starting makes a document processing. -/
theorem Phase.next_start {p q : Phase} (h : p.next .start = some q) :
  q = .processing
  := by
  cases p <;> cases h <;> rfl

/-- No move leads back to the queue. -/
theorem Phase.next_job_ne_queued {p q : Phase} {m : Move} (h : p.next m = some q) :
  q.job ≠ .queued
  := by
  cases p <;> cases m <;> cases h <;> simp [Phase.job]

/-- Documents whose readiness a move changes are counted by the corpus revision. -/
theorem Phase.bump_of_ready {p q : Phase} {m : Move} (h : p.next m = some q)
    (hready : p = .ready ∨ q = .ready) :
  m.bump = 1
  := by
  cases p <;> cases m <;> cases h <;> simp [Move.bump] at hready ⊢

namespace Database

/-! ### Rows in step -/

/-- The rows of the document `d` are those of the phase `p`: it has a single job, the statuses
are those of `p`, and there are chunks exactly when `p` has some. -/
structure At (db : Database) (d : Uuid) (p : Phase) (document : Document) (job : IngestionJob) :
    Prop where
  document_mem : document ∈ db.documents
  document_id : document.id = d
  job_mem : job ∈ db.jobs
  job_document : job.documentId = d
  job_unique : ∀ job' ∈ db.jobs, job'.documentId = d → job' = job
  document_status : document.status = p.document
  job_status : job.status = p.job
  chunks : (∃ chunk ∈ db.chunks, chunk.documentId = d) ↔ p.indexed = true

/-- The rows of every document are those of a phase, every job and every chunk has its document,
and a queued job has not been attempted. -/
structure Coherent (db : Database) : Prop where
  documents : ∀ document ∈ db.documents, ∃ p job, db.At document.id p document job
  jobs : ∀ job ∈ db.jobs, ∃ document ∈ db.documents, document.id = job.documentId
  chunks : ∀ chunk ∈ db.chunks, ∃ document ∈ db.documents, document.id = chunk.documentId
  unattempted : ∀ job ∈ db.jobs, job.status = .queued → job.attemptCount = 0

theorem Coherent.initial :
  Coherent Database.initial
  where
  documents := by simp [Database.initial]
  jobs := by simp [Database.initial]
  chunks := by simp [Database.initial]
  unattempted := by simp [Database.initial]

section At

variable {db : Database} {d : Uuid} {p q : Phase} {document document' : Document}
  {job job' : IngestionJob}

theorem At.get_document (h : db.At d p document job) :
  db.documents.get d = some document
  := Table.get_eq_some_iff.mpr ⟨h.document_mem, h.document_id⟩

theorem At.get_job (h : db.At d p document job) :
  db.jobs.get job.id = some job
  := Table.get_key h.job_mem

/-- The rows of a document and its phase are determined. -/
theorem At.unique (h : db.At d p document job) (h' : db.At d q document' job') :
  p = q ∧ document = document' ∧ job = job'
  := by
  obtain rfl : document = document' := by
    apply Option.some.inj
    rw [← h.get_document, ← h'.get_document]
  obtain rfl : job = job' := (h'.job_unique job h.job_mem h.job_document)
  constructor
  · apply Phase.eq_of_statuses
    · rw [← h.document_status, ← h'.document_status]
    · rw [← h.job_status, ← h'.job_status]
  · use rfl

/-- The rows of the document `d` are the same in two databases. -/
structure Keeps (d : Uuid) (db db' : Database) : Prop where
  documents : ∀ document, document.id = d → (document ∈ db'.documents ↔ document ∈ db.documents)
  jobs : ∀ job, job.documentId = d → (job ∈ db'.jobs ↔ job ∈ db.jobs)
  chunks : ∀ chunk, chunk.documentId = d → (chunk ∈ db'.chunks ↔ chunk ∈ db.chunks)

theorem Keeps.refl (d : Uuid) (db : Database) :
  Keeps d db db
  := ⟨fun _ _ => Iff.rfl, fun _ _ => Iff.rfl, fun _ _ => Iff.rfl⟩

theorem Keeps.trans {db' db'' : Database} (h : Keeps d db db') (h' : Keeps d db' db'') :
  Keeps d db db''
  where
  documents document hid := (h'.documents document hid).trans (h.documents document hid)
  jobs job hid := (h'.jobs job hid).trans (h.jobs job hid)
  chunks chunk hid := (h'.chunks chunk hid).trans (h.chunks chunk hid)

/-- The phase of a document depends on its rows only. -/
theorem At.congr {db' : Database} (h : db.At d p document job) (hkeeps : Keeps d db db') :
  db'.At d p document job
  where
  document_mem := (hkeeps.documents document h.document_id).mpr h.document_mem
  document_id := h.document_id
  job_mem := (hkeeps.jobs job h.job_document).mpr h.job_mem
  job_document := h.job_document
  job_unique := by
    intro j hj hjd
    apply h.job_unique j ((hkeeps.jobs j hjd).mp hj) hjd
  document_status := h.document_status
  job_status := h.job_status
  chunks := by
    rw [← h.chunks]
    constructor
    · rintro ⟨c, hc, hcd⟩
      use c, (hkeeps.chunks c hcd).mp hc
    · rintro ⟨c, hc, hcd⟩
      use c, (hkeeps.chunks c hcd).mpr hc

end At

/-- A document the table holds is in a phase. -/
theorem Coherent.at_get {db : Database} (h : db.Coherent) {d : Uuid} {document : Document}
    (hget : db.documents.get d = some document) :
  ∃ p job, db.At d p document job
  := by
  obtain ⟨hmem, rfl⟩ := Table.get_eq_some_iff.mp hget
  apply h.documents document hmem

/-- A job and its document make up the rows of a phase. -/
theorem Coherent.at_of_job {db : Database} (h : db.Coherent) {document : Document}
    {job : IngestionJob} (hdocument : document ∈ db.documents) (hjob : job ∈ db.jobs)
    (hid : job.documentId = document.id) :
  ∃ p, db.At document.id p document job
  := by
  obtain ⟨p, job', hat⟩ := h.documents document hdocument
  use p
  rw [hat.job_unique job hjob hid]
  apply hat

/-- The rows of a processing document. -/
theorem Coherent.at_processing {db : Database} (h : db.Coherent) {document : Document}
    (hdocument : document ∈ db.documents) (hprocessing : document.status = .processing) :
  ∃ job, db.At document.id .processing document job
  := by
  obtain ⟨p, job, hat⟩ := h.documents document hdocument
  have hp : p = .processing := by
    have hstatus := hat.document_status
    rw [hprocessing] at hstatus
    cases p <;> cases hstatus
    rfl
  rw [hp] at hat
  use job

/-! ### Moving a document -/

/-- What a committed transaction does that moves a document: the document and its job are
replaced, chunks are added, and the revision grows. -/
structure Moved (move : Move) (db db' : Database) (document document' : Document)
    (job job' : IngestionJob) (added : List Chunk) : Prop where
  document_mem : document ∈ db.documents
  job_mem : job ∈ db.jobs
  job_document : job.documentId = document.id
  document_revises : document'.Revises document
  job_revises : job'.Revises job
  next : ∃ p q : Phase, p.next move = some q ∧ document.status = p.document ∧ job.status = p.job
    ∧ document'.status = q.document ∧ job'.status = q.job
  documents : db'.documents = db.documents.replace document'
  jobs : db'.jobs = db.jobs.replace job'
  chunks : ∀ chunk, chunk ∈ db'.chunks ↔ chunk ∈ db.chunks ∨ chunk ∈ added
  added_document : ∀ chunk ∈ added, chunk.documentId = document.id
  added_nonempty : added ≠ [] ↔ move = .finalise
  revision : db'.revision = db.revision + move.bump

namespace Moved

variable {move : Move} {db db' : Database} {document document' : Document}
  {job job' : IngestionJob} {added : List Chunk}

theorem mem_jobs (h : Moved move db db' document document' job job' added) (j : IngestionJob) :
  j ∈ db'.jobs ↔ j = job' ∨ (j ∈ db.jobs ∧ j.id ≠ job.id)
  := by
  rw [h.jobs, Table.mem_replace, h.job_revises.1]
  constructor
  · rintro (⟨rfl, -⟩ | hj)
    · apply Or.inl rfl
    · apply Or.inr hj
  · rintro (rfl | hj)
    · left
      use rfl, job, h.job_mem
    · apply Or.inr hj

theorem mem_documents (h : Moved move db db' document document' job job' added) (d : Document) :
  d ∈ db'.documents ↔ d = document' ∨ (d ∈ db.documents ∧ d.id ≠ document.id)
  := by
  rw [h.documents, Table.mem_replace, h.document_revises.id_eq]
  constructor
  · rintro (⟨rfl, -⟩ | hd)
    · apply Or.inl rfl
    · apply Or.inr hd
  · rintro (rfl | hd)
    · left
      use rfl, document, h.document_mem
    · apply Or.inr hd

/-- The rows of other documents stay. -/
theorem keeps (h : Moved move db db' document document' job job' added) {d : Uuid}
    (hne : d ≠ document.id) :
  Keeps d db db'
  where
  documents := by
    rintro row rfl
    rw [h.mem_documents]
    constructor
    · rintro (rfl | ⟨hrow, -⟩)
      · exact absurd h.document_revises.id_eq hne
      · apply hrow
    · intro hrow
      apply Or.inr ⟨hrow, hne⟩
  jobs := by
    rintro j rfl
    rw [h.mem_jobs]
    constructor
    · rintro (rfl | ⟨hj, -⟩)
      · rw [h.job_revises.2, h.job_document] at hne
        exact absurd rfl hne
      · apply hj
    · intro hj
      right
      use hj
      intro hid
      obtain rfl := Table.eq_of_key_eq hj h.job_mem hid
      apply hne h.job_document
  chunks := by
    rintro c rfl
    rw [h.chunks]
    constructor
    · rintro (hc | hc)
      · apply hc
      · exact absurd (h.added_document c hc) hne
    · apply Or.inl

/-- Other documents stay where they are. -/
theorem at_other (h : Moved move db db' document document' job job' added) {d : Uuid} {p : Phase}
    {document₁ : Document} {job₁ : IngestionJob} (hne : d ≠ document.id)
    (hat : db.At d p document₁ job₁) :
  db'.At d p document₁ job₁
  := hat.congr (h.keeps hne)

/-- The document moves to the next phase. -/
theorem at_self (h : Moved move db db' document document' job job' added) {p : Phase}
    (hat : db.At document.id p document job) :
  ∃ q, p.next move = some q ∧ db'.At document.id q document' job'
  := by
  obtain ⟨p', q, hnext, hdocument, hjob, hdocument', hjob'⟩ := h.next
  obtain rfl : p = p' := by
    apply Phase.eq_of_statuses
    · rw [← hat.document_status, hdocument]
    · rw [← hat.job_status, hjob]
  use q, hnext
  constructor
  · rw [h.mem_documents]
    apply Or.inl rfl
  · apply h.document_revises.id_eq
  · rw [h.mem_jobs]
    apply Or.inl rfl
  · rw [h.job_revises.2, h.job_document]
  · intro j hj hjd
    rw [h.mem_jobs] at hj
    rcases hj with rfl | ⟨hj, hne⟩
    · rfl
    · obtain rfl := hat.job_unique j hj hjd
      exact absurd rfl hne
  · apply hdocument'
  · apply hjob'
  · rw [Phase.indexed_next hnext, ← hat.chunks, ← h.added_nonempty]
    constructor
    · rintro ⟨c, hc, hcd⟩
      rcases (h.chunks c).mp hc with hc | hc
      · left
        use c, hc
      · right
        apply List.ne_nil_of_mem hc
    · rintro (⟨c, hc, hcd⟩ | hne)
      · use c, (h.chunks c).mpr (Or.inl hc)
      · obtain ⟨c, hc⟩ := List.exists_mem_of_ne_nil added hne
        use c, (h.chunks c).mpr (Or.inr hc), h.added_document c hc

/-- A document in a phase the move does not lead from is not the one that moves. -/
theorem ne_of_next (h : Moved move db db' document document' job job' added) (hdb : db.Coherent)
    {d : Uuid} {p : Phase} {document₁ : Document} {job₁ : IngestionJob}
    (hat : db.At d p document₁ job₁) (hnone : p.next move = none) :
  d ≠ document.id
  := by
  rintro rfl
  obtain ⟨p', hat'⟩ := hdb.at_of_job h.document_mem h.job_mem h.job_document
  obtain ⟨rfl, rfl, rfl⟩ := hat.unique hat'
  obtain ⟨q, hnext, -⟩ := h.at_self hat
  rw [hnone] at hnext
  cases hnext

/-- A move that is not a start makes no document processing. -/
theorem processing_mem (h : Moved move db db' document document' job job' added)
    (hmove : move ≠ .start) {row : Document} (hrow : row ∈ db'.documents)
    (hprocessing : row.status = .processing) :
  row ∈ db.documents ∧ row.id ≠ document.id
  := by
  rcases (h.mem_documents row).mp hrow with rfl | hrow
  · obtain ⟨p, q, hnext, -, -, hstatus, -⟩ := h.next
    rw [hprocessing] at hstatus
    exact absurd (Phase.next_processing hnext hstatus.symm) hmove
  · apply hrow

/-- A move keeps the database coherent. -/
theorem coherent (h : Moved move db db' document document' job job' added) (hdb : db.Coherent) :
  db'.Coherent
  where
  documents := by
    intro d hd
    rcases (h.mem_documents d).mp hd with rfl | ⟨hd, hne⟩
    · obtain ⟨p, hat⟩ := hdb.at_of_job h.document_mem h.job_mem h.job_document
      obtain ⟨q, -, hat'⟩ := h.at_self hat
      rw [h.document_revises.id_eq]
      use q, job'
    · obtain ⟨p, job₁, hat⟩ := hdb.documents d hd
      use p, job₁
      apply h.at_other hne hat
  jobs := by
    intro j hj
    have hid : ∃ d ∈ db.documents, d.id = j.documentId := by
      rcases (h.mem_jobs j).mp hj with rfl | ⟨hj, -⟩
      · use document, h.document_mem
        rw [h.job_revises.2, h.job_document]
      · apply hdb.jobs j hj
    obtain ⟨d, hd, hdj⟩ := hid
    by_cases hne : d.id = document.id
    · use document', (h.mem_documents _).mpr (Or.inl rfl)
      rw [h.document_revises.id_eq, ← hne, hdj]
    · use d, (h.mem_documents _).mpr (Or.inr ⟨hd, hne⟩)
  chunks := by
    intro c hc
    have hid : ∃ d ∈ db.documents, d.id = c.documentId := by
      rcases (h.chunks c).mp hc with hc | hc
      · apply hdb.chunks c hc
      · use document, h.document_mem, (h.added_document c hc).symm
    obtain ⟨d, hd, hdc⟩ := hid
    by_cases hne : d.id = document.id
    · use document', (h.mem_documents _).mpr (Or.inl rfl)
      rw [h.document_revises.id_eq, ← hne, hdc]
    · use d, (h.mem_documents _).mpr (Or.inr ⟨hd, hne⟩)
  unattempted := by
    intro j hj hqueued
    rcases (h.mem_jobs j).mp hj with rfl | ⟨hj, -⟩
    · obtain ⟨p, q, hnext, -, -, -, hstatus⟩ := h.next
      exact absurd (hstatus.symm.trans hqueued) (Phase.next_job_ne_queued hnext)
    · apply hdb.unattempted j hj hqueued

end Moved

end Database

end KnowledgeSearch

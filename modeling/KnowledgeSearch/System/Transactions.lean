import KnowledgeSearch.Application.Documents
import KnowledgeSearch.Application.Ingestion
import KnowledgeSearch.System.Lifecycle

/-!
# What the transactions do

On rows in step, a transaction of `submit`, `process` or `delete` that commits leaves the
database as it was, moves one document along its life cycle (`Database.Moved`), inserts a
queued document (`Database.Inserted`) or removes one (`Database.Removed`).
-/

namespace KnowledgeSearch

namespace Database

/-- The jobs of the document `documentId` are those with the identifier `jobId`. -/
def Linked (db : Database) (documentId jobId : Uuid) : Prop :=
  ∀ job ∈ db.jobs, job.documentId = documentId ↔ job.id = jobId

/-! ### Insertion and removal -/

/-- What a committed transaction does that inserts a document and its job, both queued. -/
structure Inserted (db db' : Database) (document : Document) (job : IngestionJob) : Prop where
  document_status : document.status = .queued
  job_status : job.status = .queued
  job_attempts : job.attemptCount = 0
  job_document : job.documentId = document.id
  document_new : ∀ d ∈ db.documents, d.id ≠ document.id
  job_new : ∀ j ∈ db.jobs, j.id ≠ job.id
  mem_documents : ∀ d, d ∈ db'.documents ↔ d ∈ db.documents ∨ d = document
  mem_jobs : ∀ j, j ∈ db'.jobs ↔ j ∈ db.jobs ∨ j = job
  chunks : db'.chunks = db.chunks
  revision : db'.revision = db.revision

/-- What a committed transaction does that removes the document `d` with its jobs and its
chunks. -/
structure Removed (db db' : Database) (d : Uuid) : Prop where
  mem_documents : ∀ document, document ∈ db'.documents ↔ document ∈ db.documents ∧ document.id ≠ d
  mem_jobs : ∀ job, job ∈ db'.jobs ↔ job ∈ db.jobs ∧ job.documentId ≠ d
  mem_chunks : ∀ chunk, chunk ∈ db'.chunks ↔ chunk ∈ db.chunks ∧ chunk.documentId ≠ d
  revision : db'.revision = db.revision

namespace Inserted

variable {db db' : Database} {document : Document} {job : IngestionJob}

/-- The rows of other documents stay. -/
theorem keeps (h : Inserted db db' document job) {d : Uuid} (hne : d ≠ document.id) :
  Keeps d db db'
  where
  documents := by
    rintro row rfl
    rw [h.mem_documents]
    constructor
    · rintro (hrow | rfl)
      · apply hrow
      · exact absurd rfl hne
    · apply Or.inl
  jobs := by
    intro j hj
    rw [h.mem_jobs]
    constructor
    · rintro (hmem | rfl)
      · apply hmem
      · rw [h.job_document] at hj
        exact absurd hj.symm hne
    · apply Or.inl
  chunks := by
    intro c _
    rw [h.chunks]

/-- The documents that were there stay where they are. -/
theorem at_other (h : Inserted db db' document job) {d : Uuid} {p : Phase} {document₁ : Document}
    {job₁ : IngestionJob} (hat : db.At d p document₁ job₁) :
  db'.At d p document₁ job₁
  := by
  have hne : d ≠ document.id := by
    rw [← hat.document_id]
    apply h.document_new document₁ hat.document_mem
  apply hat.congr (h.keeps hne)

/-- The new document is queued. -/
theorem at_self (h : Inserted db db' document job) (hdb : db.Coherent) :
  db'.At document.id .queued document job
  where
  document_mem := (h.mem_documents document).mpr (Or.inr rfl)
  document_id := rfl
  job_mem := (h.mem_jobs job).mpr (Or.inr rfl)
  job_document := h.job_document
  job_unique := by
    intro j hj hjd
    rcases (h.mem_jobs j).mp hj with hj | rfl
    · obtain ⟨d, hd, hdj⟩ := hdb.jobs j hj
      rw [hjd] at hdj
      exact absurd hdj (h.document_new d hd)
    · rfl
  document_status := h.document_status
  job_status := h.job_status
  chunks := by
    constructor
    · rintro ⟨c, hc, hcd⟩
      rw [h.chunks] at hc
      obtain ⟨d, hd, hdc⟩ := hdb.chunks c hc
      rw [hcd] at hdc
      exact absurd hdc (h.document_new d hd)
    · intro hindexed
      cases hindexed

/-- Insertion keeps the database coherent. -/
theorem coherent (h : Inserted db db' document job) (hdb : db.Coherent) :
  db'.Coherent
  where
  documents := by
    intro d hd
    rcases (h.mem_documents d).mp hd with hd | rfl
    · obtain ⟨p, j, hat⟩ := hdb.documents d hd
      use p, j
      apply h.at_other hat
    · use .queued, job
      apply h.at_self hdb
  jobs := by
    intro j hj
    rcases (h.mem_jobs j).mp hj with hj | rfl
    · obtain ⟨d, hd, hdj⟩ := hdb.jobs j hj
      use d, (h.mem_documents d).mpr (Or.inl hd)
    · use document, (h.mem_documents document).mpr (Or.inr rfl), h.job_document.symm
  chunks := by
    intro c hc
    rw [h.chunks] at hc
    obtain ⟨d, hd, hdc⟩ := hdb.chunks c hc
    use d, (h.mem_documents d).mpr (Or.inl hd)
  unattempted := by
    intro j hj hqueued
    rcases (h.mem_jobs j).mp hj with hj | rfl
    · apply hdb.unattempted j hj hqueued
    · apply h.job_attempts

end Inserted

namespace Removed

variable {db db' : Database} {removed : Uuid}

/-- The rows of other documents stay. -/
theorem keeps (h : Removed db db' removed) {d : Uuid} (hne : d ≠ removed) :
  Keeps d db db'
  where
  documents := by
    rintro row rfl
    rw [h.mem_documents]
    apply and_iff_left hne
  jobs := by
    rintro j rfl
    rw [h.mem_jobs]
    apply and_iff_left hne
  chunks := by
    rintro c rfl
    rw [h.mem_chunks]
    apply and_iff_left hne

/-- Other documents stay where they are. -/
theorem at_other (h : Removed db db' removed) {d : Uuid} {p : Phase} {document : Document}
    {job : IngestionJob} (hne : d ≠ removed) (hat : db.At d p document job) :
  db'.At d p document job
  := hat.congr (h.keeps hne)

/-- Removal keeps the database coherent. -/
theorem coherent (h : Removed db db' removed) (hdb : db.Coherent) :
  db'.Coherent
  where
  documents := by
    intro d hd
    obtain ⟨hd, hne⟩ := (h.mem_documents d).mp hd
    obtain ⟨p, j, hat⟩ := hdb.documents d hd
    use p, j
    apply h.at_other hne hat
  jobs := by
    intro j hj
    obtain ⟨hj, hne⟩ := (h.mem_jobs j).mp hj
    obtain ⟨d, hd, hdj⟩ := hdb.jobs j hj
    use d, (h.mem_documents d).mpr ⟨hd, hdj ▸ hne⟩
  chunks := by
    intro c hc
    obtain ⟨hc, hne⟩ := (h.mem_chunks c).mp hc
    obtain ⟨d, hd, hdc⟩ := hdb.chunks c hc
    use d, (h.mem_documents d).mpr ⟨hd, hdc ▸ hne⟩
  unattempted j hj hqueued := hdb.unattempted j ((h.mem_jobs j).mp hj).1 hqueued

end Removed

/-! ### Documents being deleted -/

/-- The document `d` is being deleted, or gone. -/
def Marked (db : Database) (d : Uuid) : Prop :=
  ∀ row ∈ db.documents, row.id = d → row.status = .deleting

theorem At.not_marked {db : Database} {d : Uuid} {p : Phase} {document : Document}
    {job : IngestionJob} (hat : db.At d p document job) (hp : p.document ≠ .deleting) :
  ¬ db.Marked d
  := by
  intro hmarked
  apply hp
  rw [← hat.document_status]
  apply hmarked document hat.document_mem hat.document_id

namespace Moved

variable {move : Move} {db db' : Database} {document document' : Document}
  {job job' : IngestionJob} {added : List Chunk}

/-- A move brings no new document. -/
theorem ids (h : Moved move db db' document document' job job' added) {row : Document}
    (hrow : row ∈ db'.documents) :
  ∃ row₀ ∈ db.documents, row₀.id = row.id
  := by
  rcases (h.mem_documents row).mp hrow with rfl | ⟨hrow, -⟩
  · use document, h.document_mem, h.document_revises.id_eq.symm
  · use row, hrow

/-- A document that moves is not being deleted. -/
theorem not_marked (h : Moved move db db' document document' job job' added) :
  ¬ db.Marked document.id
  := by
  intro hmarked
  obtain ⟨p, q, hnext, hstatus, -⟩ := h.next
  have hdeleting := hmarked document h.document_mem rfl
  rw [hstatus] at hdeleting
  rw [Phase.next_eq_none_of_deleting hdeleting move] at hnext
  cases hnext

/-- A document that is being deleted stays so. -/
theorem marked (h : Moved move db db' document document' job job' added) {d : Uuid}
    (hmarked : db.Marked d) :
  db'.Marked d
  := by
  intro row hrow hid
  rcases (h.mem_documents row).mp hrow with rfl | ⟨hrow, -⟩
  · rw [h.document_revises.id_eq] at hid
    exact absurd (hid ▸ hmarked) h.not_marked
  · apply hmarked row hrow hid

end Moved

theorem Removed.marked {db db' : Database} {removed d : Uuid} (h : Removed db db' removed)
    (hmarked : db.Marked d) :
  db'.Marked d
  := by
  intro row hrow hid
  apply hmarked row ((h.mem_documents row).mp hrow).1 hid

theorem Inserted.marked {db db' : Database} {document : Document} {job : IngestionJob} {d : Uuid}
    (h : Inserted db db' document job) (hne : document.id ≠ d) (hmarked : db.Marked d) :
  db'.Marked d
  := by
  intro row hrow hid
  rcases (h.mem_documents row).mp hrow with hrow | rfl
  · apply hmarked row hrow hid
  · exact absurd hid hne

end Database

open Database

/-! ### The transactions of `submit` -/

/-- A built document and its job are queued and carry the identifiers of the ticket. -/
theorem buildSubmission_spec {clock : Clock} {ticket : Ticket} {filename : Text}
    {stored : StoredDocument} {document : Document} {job : IngestionJob}
    (h : buildSubmission clock ticket filename stored = .ok (document, job)) :
  document.status = .queued ∧ document.id = ticket.documentId
    ∧ document.mediaType = ticket.mediaType ∧ document.storageKey = stored.storageKey
    ∧ document.sha256 = stored.sha256
    ∧ job.status = .queued ∧ job.attemptCount = 0 ∧ job.id = ticket.jobId
    ∧ job.documentId = ticket.documentId
  := by
  obtain ⟨document₁, hcreate, h⟩ := bind_eq_ok_iff.mp h
  obtain ⟨document₂, hqueue, h⟩ := bind_eq_ok_iff.mp h
  obtain ⟨job₁, hjob, h⟩ := bind_eq_ok_iff.mp h
  cases h
  have hcreated := Document.construct_eq_ok_iff.mp (liftDomain_eq_ok_iff.mp hcreate)
  have hjobfields := IngestionJob.construct_eq_ok_iff.mp (liftDomain_eq_ok_iff.mp hjob)
  obtain ⟨-, hstatus, hrevises⟩ := Document.transition_spec (liftDomain_eq_ok_iff.mp hqueue)
  have hid : document.id = ticket.documentId := by
    rw [hrevises.id_eq, hcreated]
  use hstatus, hid
  constructor
  · rw [hrevises.mediaType_eq, hcreated]
  constructor
  · rw [hrevises.storageKey_eq, hcreated]
  constructor
  · have hsha := congrArg DocumentFields.sha256 hrevises
    rw [hsha]
    rw [hcreated]
  rw [hjobfields]
  use rfl, rfl, rfl, hid

/-- The inserting transaction inserts the document and its job. -/
theorem insertSubmission_eq_ok {db db' : Database} {document : Document} {job : IngestionJob}
    (hdocument : document.status = .queued) (hjob : job.status = .queued)
    (hcount : job.attemptCount = 0)
    (hid : job.documentId = document.id) (h : insertSubmission document job db = .ok db') :
  Inserted db db' document job
  := by
  unfold insertSubmission at h
  split at h
  · cases h
  obtain ⟨db₁, hadd, h⟩ := bind_eq_ok_iff.mp h
  obtain ⟨documents, hdocuments, rfl⟩ := addDocument_eq_ok hadd
  obtain ⟨-, jobs, hjobs, rfl⟩ := addJob_eq_ok h
  have hdocnew := Table.get_eq_none_iff.mp (Table.insert?_eq_some_iff.mp hdocuments).1
  have hjobnew := Table.get_eq_none_iff.mp (Table.insert?_eq_some_iff.mp hjobs).1
  constructor
  · apply hdocument
  · apply hjob
  · apply hcount
  · apply hid
  · apply hdocnew
  · apply hjobnew
  · intro d
    apply Table.mem_insert? hdocuments
  · intro j
    apply Table.mem_insert? hjobs
  · rfl
  · rfl

/-- `_mark_dispatch_failed` does nothing when the document is gone, and otherwise fails it. -/
theorem markDispatchFailed_eq_ok {clock : Clock} {documentId jobId : Uuid} {db db' : Database}
    (hlinked : db.Linked documentId jobId) (hdb : db.Coherent)
    (h : markDispatchFailed clock documentId jobId db = .ok db') :
  (db' = db ∧ db.getDocument documentId = none)
    ∨ ∃ document document' job job', document.id = documentId
      ∧ Moved .fail db db' document document' job job' []
      ∧ document'.failureCode = some "queue_unavailable".toList
      ∧ job'.failureCode = some "queue_unavailable".toList
  := by
  unfold markDispatchFailed at h
  split at h
  · rename_i document job hdocument hjob
    right
    obtain ⟨document', hfail, h⟩ := bind_eq_ok_iff.mp h
    obtain ⟨db₁, hsave, h⟩ := bind_eq_ok_iff.mp h
    obtain ⟨job', hjobfail, h⟩ := bind_eq_ok_iff.mp h
    obtain ⟨-, rfl⟩ := saveDocument_eq_ok_iff.mp hsave
    obtain ⟨-, rfl⟩ := saveJob_eq_ok_iff.mp h
    obtain ⟨hfrom, hto, hrevises, hcode⟩ := Document.markFailed_spec (liftDomain_eq_ok_iff.mp hfail)
    obtain ⟨hjobfrom, hjobto, hjobrevises, -, hjobcode⟩ :=
      IngestionJob.fail_spec (liftDomain_eq_ok_iff.mp hjobfail)
    obtain ⟨hdmem, rfl⟩ := Table.get_eq_some_iff.mp hdocument
    obtain ⟨hjmem, rfl⟩ := Table.get_eq_some_iff.mp hjob
    have hjd : job.documentId = document.id := (hlinked job hjmem).mpr rfl
    obtain ⟨p, hat⟩ := hdb.at_of_job hdmem hjmem hjd
    use document, document', job, job', rfl
    constructor
    · constructor
      · apply hdmem
      · apply hjmem
      · apply hjd
      · apply hrevises
      · apply hjobrevises
      · use p, .failed
        rw [hat.document_status] at hfrom
        constructor
        · cases p <;> simp [Phase.document, documentTransitions] at hfrom <;> rfl
        · use hat.document_status, hat.job_status, hto, hjobto
      · rfl
      · rfl
      · simp
      · simp
      · simp
      · rfl
    · use hcode, hjobcode
  · rename_i hmissing
    cases h
    left
    use rfl
    by_contra hne
    obtain ⟨document, hget⟩ := Option.ne_none_iff_exists'.mp hne
    obtain ⟨p, job, hat⟩ := hdb.at_get hget
    apply hmissing document job hget
    rw [getJob, ← (hlinked job hat.job_mem).mp hat.job_document]
    apply hat.get_job

/-! ### The transactions of `process` -/

/-- `_start_job` starts the job of a queued or failed document, or changes nothing when the
document is being deleted or ready. -/
theorem startJob_eq_ok {clock : Clock} {jobId : Uuid} {db db' : Database} {result : Option Uuid}
    (h : startJob clock jobId db = .ok (result, db')) :
  (result = none ∧ db' = db)
    ∨ ∃ document document' job job', result = some document.id ∧ job.id = jobId
      ∧ job'.attemptCount = job.attemptCount + 1
      ∧ Moved .start db db' document document' job job' []
  := by
  unfold startJob at h
  split at h
  · cases h
  rename_i job hjob
  split at h
  · cases h
  rename_i document hdocument
  obtain ⟨rows, hrows, h⟩ := bind_eq_ok_iff.mp h
  rcases startRows_spec hrows with ⟨rfl, -⟩ | ⟨document', job', rfl, hfrom, hto, hrevises, hjobto,
    hjobrevises, hcount⟩
  · cases h
    apply Or.inl ⟨rfl, rfl⟩
  · right
    obtain ⟨db₁, hsave, h⟩ := bind_eq_ok_iff.mp h
    obtain ⟨db₂, hsavejob, h⟩ := bind_eq_ok_iff.mp h
    obtain ⟨-, rfl⟩ := saveDocument_eq_ok_iff.mp hsave
    obtain ⟨-, rfl⟩ := saveJob_eq_ok_iff.mp hsavejob
    cases h
    obtain ⟨hdmem, hid⟩ := Table.get_eq_some_iff.mp hdocument
    obtain ⟨hjmem, hjid⟩ := Table.get_eq_some_iff.mp hjob
    use document, document', job, job', congrArg some hrevises.id_eq, hjid, hcount
    constructor
    · apply hdmem
    · apply hjmem
    · apply hid.symm
    · apply hrevises
    · apply hjobrevises
    · rcases hfrom with ⟨hjs, hds⟩ | ⟨hjs, hds⟩
      · use .queued, .processing, rfl, hds, hjs, hto, hjobto
      · use .failed, .processing, rfl, hds, hjs, hto, hjobto
    · rfl
    · rfl
    · simp
    · simp
    · simp
    · rfl

/-- The finalising transaction makes a processing document ready. It finds no chunks of the
document to delete. -/
theorem finalise_eq_ok {clock : Clock} {documentId jobId : Uuid} {chunks : List Chunk}
    {db db' : Database} (hlinked : db.Linked documentId jobId) (hdb : db.Coherent)
    (hchunks : ∀ chunk ∈ chunks, chunk.documentId = documentId) (hne : chunks ≠ [])
    (h : finalise clock documentId jobId chunks db = .ok db') :
  ∃ document document' job job', document.id = documentId
    ∧ Moved .finalise db db' document document' job job' chunks
    ∧ job'.attemptCount = job.attemptCount
    ∧ db.chunksForDocument documentId = [] ∧ db'.chunks.rows = db.chunks.rows ++ chunks
  := by
  unfold finalise at h
  split at h
  · cases h
  · cases h
  rename_i document job hdocument hjob
  obtain ⟨⟨document', job'⟩, hrows, h⟩ := bind_eq_ok_iff.mp h
  obtain ⟨db₁, hadd, h⟩ := bind_eq_ok_iff.mp h
  obtain ⟨db₂, hsave, h⟩ := bind_eq_ok_iff.mp h
  obtain ⟨db₃, hsavejob, h⟩ := bind_eq_ok_iff.mp h
  obtain ⟨-, rows, hinsert, rfl⟩ := addChunks_eq_ok hadd
  obtain ⟨-, rfl⟩ := saveDocument_eq_ok_iff.mp hsave
  obtain ⟨-, rfl⟩ := saveJob_eq_ok_iff.mp hsavejob
  cases h
  obtain ⟨hds, hjs, hto, hrevises, hjobto, hjobrevises, hcount⟩ := finaliseRows_spec hrows
  obtain ⟨hdmem, rfl⟩ := Table.get_eq_some_iff.mp hdocument
  obtain ⟨hjmem, rfl⟩ := Table.get_eq_some_iff.mp hjob
  have hjd : job.documentId = document.id := (hlinked job hjmem).mpr rfl
  obtain ⟨p, hat⟩ := hdb.at_of_job hdmem hjmem hjd
  obtain rfl : p = .processing := by
    apply Phase.eq_of_statuses
    · rw [← hat.document_status, hds]
      rfl
    · rw [← hat.job_status, hjs]
      rfl
  -- a processing document has no chunks, so nothing is deleted
  have hnone : ∀ chunk ∈ db.chunks, chunk.documentId ≠ document.id := by
    intro chunk hchunk hcd
    have hindexed := hat.chunks.mp ⟨chunk, hchunk, hcd⟩
    cases hindexed
  have hkept : (db.deleteChunksForDocument document.id).chunks = db.chunks := by
    apply Table.ext_rows
    apply List.filter_eq_self.mpr
    intro chunk hchunk
    simp [hnone chunk hchunk]
  rw [hkept] at hinsert
  use document, document', job, job', rfl
  constructor
  · constructor
    · apply hdmem
    · apply hjmem
    · apply hjd
    · apply hrevises
    · apply hjobrevises
    · use .processing, .ready, rfl, hds, hjs, hto, hjobto
    · rfl
    · rfl
    · intro chunk
      apply Table.mem_insertAll? hinsert
    · apply hchunks
    · simp [hne]
    · rfl
  use hcount
  constructor
  · apply List.filter_eq_nil_iff.mpr
    intro chunk hchunk
    simp [hnone chunk hchunk]
  · apply Table.rows_insertAll? hinsert

/-- `_mark_failed` fails a processing document, and otherwise changes nothing. -/
theorem markFailed_eq_ok {clock : Clock} {documentId jobId : Uuid} {failureCode : Text}
    {db db' : Database} (hlinked : db.Linked documentId jobId) (hdb : db.Coherent)
    (h : markFailed clock documentId jobId failureCode db = .ok db') :
  (db' = db ∧ ∀ document ∈ db.documents, document.id = documentId → document.status ≠ .processing)
    ∨ ∃ document document' job job', document.id = documentId ∧ document.status = .processing
      ∧ job'.attemptCount = job.attemptCount
      ∧ Moved .fail db db' document document' job job' []
  := by
  obtain ⟨document?, hdocument, h⟩ := bind_eq_ok_iff.mp h
  obtain ⟨db₁, hsave, h⟩ := bind_eq_ok_iff.mp h
  obtain ⟨job?, hjob, h⟩ := bind_eq_ok_iff.mp h
  cases hget : db.getDocument documentId with
  | none =>
      -- without the document there is no job either
      have hjobnone : db.getJob jobId = none := by
        apply Table.get_eq_none_iff.mpr
        intro job hmem hid
        obtain ⟨document, hdmem, hdid⟩ := hdb.jobs job hmem
        rw [(hlinked job hmem).mpr hid] at hdid
        apply Table.get_eq_none_iff.mp hget document hdmem hdid
      rw [hget] at hdocument
      rw [hjobnone] at hjob
      cases hdocument
      cases hjob
      cases hsave
      cases h
      left
      use rfl
      intro document hmem hid
      exact absurd hid (Table.get_eq_none_iff.mp hget document hmem)
  | some document =>
      obtain ⟨hdmem, rfl⟩ := Table.get_eq_some_iff.mp hget
      obtain ⟨p, job, hat⟩ := hdb.documents document hdmem
      have hjid : job.id = jobId := (hlinked job hat.job_mem).mp hat.job_document
      have hgetjob : db.getJob jobId = some job := by
        rw [← hjid]
        apply hat.get_job
      rw [hget] at hdocument
      rw [hgetjob] at hjob
      -- rows in step: the document is processing exactly when its job is running
      have hstep : document.status = .processing ↔ job.status = .running := by
        rw [hat.document_status, hat.job_status]
        cases p <;> simp [Phase.document, Phase.job]
      rcases failDocument_spec hdocument with ⟨hds, rfl⟩ | ⟨document', rfl, hds, hto, hrevises⟩
      · rcases failJob_spec hjob with ⟨-, rfl⟩ | ⟨-, -, hjs, -⟩
        · cases hsave
          cases h
          left
          use rfl
          intro d hd hid
          rw [Table.eq_of_key_eq hd hdmem hid]
          apply hds
        · exact absurd (hstep.mpr hjs) hds
      · rcases failJob_spec hjob with ⟨hjs, -⟩ | ⟨job', rfl, hjs, hjobto, hjobrevises, hcount⟩
        · exact absurd (hstep.mp hds) hjs
        · right
          obtain ⟨-, rfl⟩ := saveDocument_eq_ok_iff.mp hsave
          obtain ⟨-, rfl⟩ := saveJob_eq_ok_iff.mp h
          use document, document', job, job', rfl, hds, hcount
          constructor
          · apply hdmem
          · apply hat.job_mem
          · apply hat.job_document
          · apply hrevises
          · apply hjobrevises
          · use .processing, .failed, rfl, hds, hjs, hto, hjobto
          · rfl
          · rfl
          · simp
          · simp
          · simp
          · rfl

/-! ### The transactions of `delete` -/

/-- The first transaction of `delete` marks a ready or failed document and returns it; when
the document is already being deleted, it changes nothing and returns it. -/
theorem markDeleting_eq_ok {clock : Clock} {documentId : Uuid} {db db' : Database}
    {document : Document} {jobIds : List Uuid} (hdb : db.Coherent)
    (h : markDeleting clock documentId db = .ok ((document, jobIds), db')) :
  document.id = documentId ∧ document ∈ db'.documents ∧ document.status = .deleting
    ∧ jobIds = (db'.jobsForDocument documentId).map (fun job => job.id)
    ∧ (db' = db ∨ ∃ row job, row.id = documentId ∧ Moved .mark db db' row document job job [])
  := by
  unfold markDeleting at h
  split at h
  · cases h
  rename_i row hrow
  obtain ⟨hmem, rfl⟩ := Table.get_eq_some_iff.mp hrow
  obtain ⟨marked, hmarked, h⟩ := bind_eq_ok_iff.mp h
  rcases markRows_spec hmarked with ⟨rfl, hdeleting⟩ | ⟨document', rfl, hmarkable, hto, hrevises⟩
  · cases h
    use rfl, hmem, hdeleting, rfl, Or.inl rfl
  obtain ⟨db₁, hsave, h⟩ := bind_eq_ok_iff.mp h
  obtain ⟨-, rfl⟩ := saveDocument_eq_ok_iff.mp hsave
  cases h
  obtain ⟨p, job, hat⟩ := hdb.documents row hmem
  have hmoved : Moved .mark db
      ({ db with documents := db.documents.replace document } : Database).incrementRevision
      row document job job [] := by
    constructor
    · apply hmem
    · apply hat.job_mem
    · apply hat.job_document
    · apply hrevises
    · use rfl
    · rw [hat.document_status] at hmarkable
      cases p with
      | ready =>
          use .ready, .deletingReady, rfl, hat.document_status, hat.job_status, hto, hat.job_status
      | failed =>
          use .failed, .deletingFailed, rfl, hat.document_status, hat.job_status, hto,
            hat.job_status
      | queued | processing | deletingReady | deletingFailed => simp [Phase.document] at hmarkable
    · rfl
    · apply (Table.replace_self hat.job_mem).symm
    · simp [incrementRevision]
    · simp
    · simp
    · rfl
  use hrevises.id_eq, (hmoved.mem_documents document).mpr (Or.inl rfl), hto
  constructor
  · rw [hrevises.id_eq]
  · right
    use row, job, rfl

/-- The last transaction of `delete` removes the document, if it is there. -/
theorem deleteDocument_removed {db : Database} (hdb : db.Coherent) (d : Uuid) :
  Removed db (db.deleteDocument d) d
  := by
  unfold deleteDocument
  split
  · rename_i hnone
    have hmissing := Table.get_eq_none_iff.mp hnone
    constructor
    · intro document
      constructor
      · intro hmem
        use hmem, hmissing document hmem
      · apply And.left
    · intro job
      constructor
      · intro hmem
        use hmem
        rintro rfl
        obtain ⟨document, hdmem, hid⟩ := hdb.jobs job hmem
        apply hmissing document hdmem hid
      · apply And.left
    · intro chunk
      constructor
      · intro hmem
        use hmem
        rintro rfl
        obtain ⟨document, hdmem, hid⟩ := hdb.chunks chunk hmem
        apply hmissing document hdmem hid
      · apply And.left
    · rfl
  · constructor
    · intro document
      apply Table.mem_erase
    · intro job
      simp [Table.mem_discard]
    · intro chunk
      simp [Table.mem_discard]
    · rfl

end KnowledgeSearch

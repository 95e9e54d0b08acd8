import KnowledgeSearch.Application.Documents
import KnowledgeSearch.Application.Ingestion

/-!
# Tickets

A ticket fixes what the system ever stores for one document: the identifiers of the document
and of its job, the path and the content of its file, its chunks and its points. A row, a
file or a call follows a list of tickets when all that it carries is as one of the tickets
says.
-/

namespace KnowledgeSearch

/-- The path of the file of a ticket. -/
def Ticket.path (t : Ticket) : List Text :=
  [t.documentId.text, sourceName t.mediaType]

/-- The document is the one of the ticket. -/
structure Ticket.Names (t : Ticket) (document : Document) : Prop where
  id_eq : document.id = t.documentId
  mediaType_eq : document.mediaType = t.mediaType
  storageKey_eq : document.storageKey = storageKey t.documentId t.mediaType

/-- The attempt is one at the job of the ticket. -/
structure Ticket.Attempts (t : Ticket) (a : Attempt) : Prop where
  documentId_eq : a.documentId = t.documentId
  jobId_eq : a.jobId = t.jobId

/-- A revision of the document of a ticket is one too. -/
theorem Ticket.Names.revises {t : Ticket} {document document' : Document} (h : t.Names document)
    (hrevises : document'.Revises document) :
  t.Names document'
  where
  id_eq := hrevises.id_eq.trans h.id_eq
  mediaType_eq := hrevises.mediaType_eq.trans h.mediaType_eq
  storageKey_eq := hrevises.storageKey_eq.trans h.storageKey_eq

/-- The chunks of the document of a ticket. -/
def Services.chunksOf (S : Services) (t : Ticket) : Except AppError (List Chunk) :=
  S.prepare t.documentId t.mediaType t.content

/-! ### Following tickets -/

/-- The rows and the files follow the tickets. -/
structure Stores.Follows (tickets : List Ticket) (s : Stores) : Prop where
  documents : ∀ document ∈ s.db.documents, ∃ t ∈ tickets, t.Names document
  jobs : ∀ job ∈ s.db.jobs, ∃ t ∈ tickets, job.documentId = t.documentId ∧ job.id = t.jobId
  files : ∀ f ∈ s.fs.files, ∃ t ∈ tickets, f = ⟨t.path, t.content⟩
  shallow : s.fs.Shallow

/-- A call of `submit` follows the tickets. -/
def Submission.Follows (tickets : List Ticket) : Submission → Prop
  | accepted t _ source => t ∈ tickets ∧ t.content = sourceBytes source
  | saved t _ stored => t ∈ tickets ∧ stored.storageKey = storageKey t.documentId t.mediaType
  | built document job | conflicted document job | lookingUp document job
  | compensating document job _ | inserted document job | undelivered document job _ =>
      ∃ t ∈ tickets, t.Names document ∧ job.documentId = t.documentId ∧ job.id = t.jobId
        ∧ document.status = .queued ∧ job.status = .queued ∧ job.attemptCount = 0
  | idle | returned _ _ | raised _ | died => True

/-- A call of `process` follows the tickets. -/
def Delivery.Follows (S : Services) (tickets : List Ticket) : Delivery → Prop
  | started a | failing a _ | cleaning a _ => ∃ t ∈ tickets, t.Attempts a
  | loaded a document => ∃ t ∈ tickets, t.Attempts a ∧ t.Names document
  | prepared a document chunks =>
      ∃ t ∈ tickets, t.Attempts a ∧ t.Names document ∧ S.chunksOf t = .ok chunks
  | embedded a document chunks vectors | ensured a document chunks vectors =>
      ∃ t ∈ tickets, t.Attempts a ∧ t.Names document ∧ S.chunksOf t = .ok chunks
        ∧ vectors = S.embedDocuments (chunks.map fun chunk => chunk.text)
  | upserted a chunks => ∃ t ∈ tickets, t.Attempts a ∧ S.chunksOf t = .ok chunks
  | idle | returned | raised _ | died => True

/-- A call of `delete` follows the tickets. -/
def Deletion.Follows (tickets : List Ticket) (deletion : Deletion) : Prop :=
  ∀ document ∈ deletion.document, ∃ t ∈ tickets, t.Names document

section Mono

variable {tickets tickets' : List Ticket} (h : tickets ⊆ tickets')

include h

theorem Stores.Follows.mono {s : Stores} (hs : s.Follows tickets) :
  s.Follows tickets'
  where
  documents := by
    intro document hdocument
    obtain ⟨t, ht, hnames⟩ := hs.documents document hdocument
    use t, h ht
  jobs := by
    intro job hjob
    obtain ⟨t, ht, hids⟩ := hs.jobs job hjob
    use t, h ht
  files := by
    intro f hf
    obtain ⟨t, ht, hfile⟩ := hs.files f hf
    use t, h ht
  shallow := hs.shallow

theorem Submission.Follows.mono {submission : Submission} (hs : submission.Follows tickets) :
  submission.Follows tickets'
  := by
  cases submission <;> simp only [Submission.Follows] at hs ⊢ <;> grind

theorem Delivery.Follows.mono {S : Services} {delivery : Delivery}
    (hd : delivery.Follows S tickets) :
  delivery.Follows S tickets'
  := by
  cases delivery <;> simp only [Delivery.Follows] at hd ⊢ <;> grind

theorem Deletion.Follows.mono {deletion : Deletion} (hd : deletion.Follows tickets) :
  deletion.Follows tickets'
  := by
  intro document hdocument
  obtain ⟨t, ht, hnames⟩ := hd document hdocument
  use t, h ht

end Mono

/-- A call past `_start_job` attempts the job of a ticket. -/
theorem Delivery.Follows.attempt {S : Services} {tickets : List Ticket} {delivery : Delivery}
    (h : delivery.Follows S tickets) {a : Attempt} (ha : delivery.attempt = some a) :
  ∃ t ∈ tickets, t.Attempts a
  := by
  cases delivery <;> simp only [Delivery.Follows, Delivery.attempt, Option.some.injEq] at h ha <;>
    grind

/-! ### Distinct tickets -/

/-- No two tickets name the same document or the same job. -/
structure Distinct (tickets : List Ticket) : Prop where
  documents : ∀ t ∈ tickets, ∀ u ∈ tickets, t.documentId = u.documentId → t = u
  jobs : ∀ t ∈ tickets, ∀ u ∈ tickets, t.jobId = u.jobId → t = u

/-- A ticket with new identifiers. -/
theorem Distinct.cons {tickets : List Ticket} (h : Distinct tickets) {t : Ticket}
    (hfresh : ∀ u ∈ tickets, u.documentId ≠ t.documentId ∧ u.jobId ≠ t.jobId) :
  Distinct (t :: tickets)
  where
  documents := by
    intro u hu v hv huv
    rcases List.mem_cons.mp hu with rfl | hu' <;> rcases List.mem_cons.mp hv with rfl | hv'
    · rfl
    · exact absurd huv.symm (hfresh v hv').1
    · exact absurd huv (hfresh u hu').1
    · apply h.documents u hu' v hv' huv
  jobs := by
    intro u hu v hv huv
    rcases List.mem_cons.mp hu with rfl | hu' <;> rcases List.mem_cons.mp hv with rfl | hv'
    · rfl
    · exact absurd huv.symm (hfresh v hv').2
    · exact absurd huv (hfresh u hu').2
    · apply h.jobs u hu' v hv' huv

/-- The file of a document holds the content of its ticket. -/
theorem Stores.Follows.content {tickets : List Ticket} {s : Stores} (h : s.Follows tickets)
    (hdistinct : Distinct tickets) {t : Ticket} (ht : t ∈ tickets) {f : StoredFile}
    (hf : f ∈ s.fs.files) (hpath : f.path = t.path) :
  f.content = t.content
  := by
  obtain ⟨u, hu, rfl⟩ := h.files f hf
  obtain rfl := hdistinct.documents u hu t ht (storedPath_injective hpath)
  rfl

/-- What is prepared from the file of a document are the chunks of its ticket. -/
theorem Stores.Follows.prepareStored {S : Services} {tickets : List Ticket} {s : Stores}
    (h : s.Follows tickets) (hdistinct : Distinct tickets) {t : Ticket} (ht : t ∈ tickets)
    {document : Document} (hnames : t.Names document) {chunks : List Chunk}
    (hprepare : prepareStored S s document = .ok chunks) :
  S.chunksOf t = .ok chunks
  := by
  obtain ⟨content, hread, hprepare⟩ := bind_eq_ok_iff.mp hprepare
  rw [FileSystem.read, hnames.storageKey_eq, resolveKey_storageKey] at hread
  simp only at hread
  split at hread
  · cases hread
  · rename_i file hfile
    cases hread
    obtain ⟨hmem, hpath⟩ := Table.get_eq_some_iff.mp hfile
    rw [Services.chunksOf, ← h.content hdistinct ht hmem hpath, ← hnames.id_eq,
      ← hnames.mediaType_eq]
    apply hprepare

/-- Rows that follow distinct tickets link the documents with their jobs. -/
theorem Stores.Follows.linked {tickets : List Ticket} {s : Stores} (h : s.Follows tickets)
    (hdistinct : Distinct tickets) {t : Ticket} (ht : t ∈ tickets) {job : IngestionJob}
    (hjob : job ∈ s.db.jobs) :
  job.documentId = t.documentId ↔ job.id = t.jobId
  := by
  obtain ⟨u, hu, hdocument, hid⟩ := h.jobs job hjob
  rw [hdocument, hid]
  constructor
  · intro heq
    rw [hdistinct.documents u hu t ht heq]
  · intro heq
    rw [hdistinct.jobs u hu t ht heq]

end KnowledgeSearch

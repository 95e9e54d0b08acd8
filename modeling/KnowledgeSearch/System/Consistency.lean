import KnowledgeSearch.System.Soundness

/-!
# Rows in step

`System.rows_in_step` says of every reachable state which rows a document has: one job, the
statuses of a phase of the life cycle, and chunks when it is ready or being deleted after it
was. The consequences for `_start_job` and for the finalising transaction are part of it.
-/

namespace KnowledgeSearch

namespace Database

variable {db : Database} {d : Uuid} {p : Phase} {document : Document} {job : IngestionJob}

/-- A document has a single job. -/
theorem At.jobsForDocument (h : db.At d p document job) :
  db.jobsForDocument d = [job]
  := by
  apply List.perm_singleton.mp
  apply (List.perm_insertionSort _ _).trans
  apply (List.perm_ext_iff_of_nodup _ (List.nodup_singleton job)).mpr
  · intro j
    simp only [List.mem_filter, decide_eq_true_eq, List.mem_singleton]
    constructor
    · rintro ⟨hj, hjd⟩
      apply h.job_unique j hj hjd
    · rintro rfl
      use h.job_mem, h.job_document
  · apply List.Nodup.filter
    apply List.Nodup.of_map _ db.jobs.nodup

/-- A document has chunks when its phase has. -/
theorem At.chunksForDocument_ne_nil_iff (h : db.At d p document job) :
  db.chunksForDocument d ≠ [] ↔ p.indexed = true
  := by
  rw [← h.chunks]
  constructor
  · intro hne
    obtain ⟨chunk, hchunk⟩ := List.exists_mem_of_ne_nil _ hne
    use chunk, (mem_chunksForDocument.mp hchunk).1, (mem_chunksForDocument.mp hchunk).2
  · rintro ⟨chunk, hchunk⟩
    apply List.ne_nil_of_mem (mem_chunksForDocument.mpr hchunk)

/-- `_start_job` raises its runtime error only for a processing document with a running
job. -/
theorem Coherent.startJob_eq_runtime {clock : Clock} {jobId : Uuid} {message : String}
    (hdb : db.Coherent) (h : startJob clock jobId db = .error (.runtime message)) :
  ∃ job document, db.getJob jobId = some job ∧ db.getDocument job.documentId = some document
    ∧ document.status = .processing ∧ job.status = .running
  := by
  unfold startJob at h
  split at h
  · cases h
  rename_i job hjob
  split at h
  · cases h
  rename_i document hdocument
  use job, document, hjob, hdocument
  obtain ⟨hdmem, hid⟩ := Table.get_eq_some_iff.mp hdocument
  obtain ⟨p, hat⟩ := hdb.at_of_job hdmem (Table.mem_of_get hjob) hid.symm
  rcases bind_eq_error_iff.mp h with hrows | ⟨rows, -, h⟩
  · obtain ⟨hdeleting, hdone, hfailed, hqueued⟩ := startRows_eq_runtime hrows
    simp only [hat.document_status, hat.job_status] at hdeleting hdone hfailed hqueued ⊢
    cases p <;> simp [Phase.document, Phase.job] at hdeleting hdone hfailed hqueued ⊢
  · exfalso
    cases rows with
    | none => cases h
    | some rows =>
        rcases bind_eq_error_iff.mp h with hsave | ⟨db₁, -, h⟩
        · cases saveDocument_eq_error hsave
        rcases bind_eq_error_iff.mp h with hsave | ⟨db₂, -, h⟩
        · cases saveJob_eq_error hsave
        · cases h

end Database

namespace System

/-- The statuses of a document and its job that occur. -/
def statusPairs : List (DocumentStatus × IngestionJobStatus) :=
  [(.queued, .queued), (.processing, .running), (.ready, .succeeded), (.failed, .failed),
    (.deleting, .succeeded), (.deleting, .failed)]

/-- The statuses of a document with chunks and of its job. -/
def indexedPairs : List (DocumentStatus × IngestionJobStatus) :=
  [(.ready, .succeeded), (.deleting, .succeeded)]

/-- In every reachable state each document has one job, the two statuses are those of a pair
that occurs, and the document has chunks exactly for the pairs of an indexed document. So
`_start_job` finds the states inconsistent only for a processing document with a running job,
and the finalising transaction of a delivery commits only where the document has no chunks. -/
theorem rows_in_step {S : Services} {s : System} (h : (machine S).Reachable s) :
  (∀ document ∈ s.stores.db.documents, ∃ job, s.stores.db.jobsForDocument document.id = [job]
      ∧ (document.status, job.status) ∈ statusPairs
      ∧ (s.stores.db.chunksForDocument document.id ≠ []
        ↔ (document.status, job.status) ∈ indexedPairs))
    ∧ (∀ clock jobId, startJob clock jobId s.stores.db
          = .error (.runtime "document and ingestion job states are inconsistent") →
        ∃ job document, s.stores.db.getJob jobId = some job
          ∧ s.stores.db.getDocument job.documentId = some document
          ∧ document.status = .processing ∧ job.status = .running)
    ∧ ∀ i a chunks clock db, s.deliveries i = .upserted a chunks →
        finalise clock a.documentId a.jobId chunks s.stores.db = .ok db →
        s.stores.db.chunksForDocument a.documentId = []
  := by
  have hs := Sound.of_reachable h
  constructor
  · intro document hmem
    obtain ⟨p, job, hat⟩ := hs.coherent.documents document hmem
    use job, hat.jobsForDocument
    rw [hat.document_status, hat.job_status]
    constructor
    · cases p <;> decide
    · rw [hat.chunksForDocument_ne_nil_iff]
      cases p <;> decide
  constructor
  · intro clock jobId hstart
    apply hs.coherent.startJob_eq_runtime hstart
  · intro i a chunks clock db hi hfinalise
    obtain ⟨hdocument, hne⟩ := hs.chunks_upserted hi
    have hlinked : s.stores.db.Linked a.documentId a.jobId := by
      apply hs.linked_delivery (i := i)
      rw [hi]
      rfl
    obtain ⟨_, _, _, _, -, -, -, hnone, -⟩ :=
      finalise_eq_ok hlinked hs.coherent hdocument hne hfinalise
    apply hnone

/-- The delivery is about to commit, and its final transaction succeeds. -/
def sampleCommits (db : Database) : Delivery → Bool
  | .upserted a chunks => (finalise (clockFrom 40) a.documentId a.jobId chunks db).toOption.isSome
  | _ => false

/-- A first delivery of the sample job has failed while a second one that took it up again is about to
commit, and it deletes the points. -/
theorem rows_in_step_sample :
  ∃ s, (machine .sample).run initial (sampleUpload
      ++ [.delivery 0 (.start sampleJobId (clockFrom 10) none), .delivery 0 (.load none),
        .delivery 0 (.prepare (some .os)), .delivery 0 (.markFailed (clockFrom 20) none)]
      ++ sampleIndexing 1 30 ++ [.delivery 0 (.cleanup none)]) = some s
    ∧ (∃ document ∈ s.stores.db.documents, ∃ job,
      s.stores.db.jobsForDocument document.id = [job]
        ∧ (document.status, job.status) = (.processing, .running) ∧ job.attemptCount = 2)
    ∧ ∃ a chunks db, s.deliveries 1 = .upserted a chunks
      ∧ finalise (clockFrom 40) a.documentId a.jobId chunks s.stores.db = .ok db
      ∧ s.stores.db.chunksForDocument a.documentId = []
  := by
  set events : List Event := sampleUpload
    ++ [.delivery 0 (.start sampleJobId (clockFrom 10) none), .delivery 0 (.load none),
      .delivery 0 (.prepare (some .os)), .delivery 0 (.markFailed (clockFrom 20) none)]
    ++ sampleIndexing 1 30 ++ [.delivery 0 (.cleanup none)]
  have hcheck : ((machine .sample).run initial events).any fun s =>
      (s.stores.db.documents.rows.any fun document => document.status = .processing)
        && (s.stores.db.jobs.rows.all fun job => job.status = .running && job.attemptCount = 2)
        && sampleCommits s.stores.db (s.deliveries 1) := by
    decide +kernel
  obtain ⟨s, hrun, hs⟩ := (Option.any_eq_true _ _).mp hcheck
  simp only [Bool.and_eq_true] at hs
  obtain ⟨⟨hprocessing, hrunning⟩, hupserted⟩ := hs
  obtain ⟨hrows, -, hfinalise⟩ := rows_in_step ⟨initial, events, rfl, hrun⟩
  refine ⟨s, hrun, ?_, ?_⟩
  · obtain ⟨document, hdocument, hstatus⟩ := List.any_eq_true.mp hprocessing
    obtain ⟨job, hjobs, -⟩ := hrows document hdocument
    have hjob : job ∈ s.stores.db.jobs := by
      have hmem : job ∈ s.stores.db.jobsForDocument document.id := by simp [hjobs]
      apply (List.mem_filter.mp ((List.mem_insertionSort _).mp hmem)).1
    have hrunning := List.all_eq_true.mp hrunning job hjob
    simp only [Bool.and_eq_true, decide_eq_true_eq] at hrunning
    refine ⟨document, hdocument, job, hjobs, ?_, hrunning.2⟩
    rw [of_decide_eq_true hstatus, hrunning.1]
  · cases hi : s.deliveries 1 with
    | upserted a chunks =>
        rw [hi] at hupserted
        cases hdb : finalise (clockFrom 40) a.documentId a.jobId chunks s.stores.db with
        | error e =>
            rw [sampleCommits, hdb] at hupserted
            cases hupserted
        | ok db => exact ⟨a, chunks, db, rfl, hdb, hfinalise 1 a chunks _ db hi hdb⟩
    | _ =>
        rw [hi] at hupserted
        cases hupserted

end System

end KnowledgeSearch

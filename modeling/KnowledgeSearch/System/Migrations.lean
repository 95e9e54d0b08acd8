import KnowledgeSearch.Persistence.Migrations
import KnowledgeSearch.System.Consistency
import KnowledgeSearch.System.Constraints
import KnowledgeSearch.System.Times
import KnowledgeSearch.System.Withdrawal

/-!
# Deletions across a downgrade

When the schema is taken back and forth again, the documents that were being deleted are failed ones.
`System.downgrade_resumes` says that nothing else changes, and that the deletions can be resumed where they
were, whereas a document that was ready before its deletion is not processed again. It is about timed steps,
whose transactions come one after the other.
-/

namespace KnowledgeSearch

open Database

namespace Database

variable {db : Database} {d : Uuid} {p : Phase} {document : Document} {job : IngestionJob} {clock : Clock}

/-- The database once the schema was taken back and forth again. -/
def interrupt (db : Database) : Database :=
  { db with
    documents :=
      { rows := db.documents.rows.map Document.interrupt
        nodup := by
          have hids : (fun document : Document => document.id) ∘ Document.interrupt
              = fun document => document.id := by
            funext document
            apply document.interrupt_revises.id_eq
          rw [List.map_map, hids]
          apply db.documents.nodup } }

theorem mem_interrupt (h : document ∈ db.documents) :
  document.interrupt ∈ db.interrupt.documents
  := List.mem_map_of_mem h

theorem getDocument_interrupt (h : document ∈ db.documents) :
  db.interrupt.getDocument document.id = some document.interrupt
  := Table.get_eq_some_iff.mpr ⟨mem_interrupt h, document.interrupt_revises.id_eq⟩

/-- The worker refuses the job of an interrupted deletion when it had succeeded. -/
theorem At.startJob_interrupt (h : db.At d p document job) (hdeleting : p.document = .deleting) :
  startJob clock job.id db.interrupt
      = .error (.runtime "document and ingestion job states are inconsistent")
    ↔ p = .deletingReady
  := by
  have hstatus : document.status = .deleting := h.document_status.trans hdeleting
  obtain ⟨hfailed, -⟩ := Document.interrupt_of_deleting hstatus
  have hgetJob : db.interrupt.getJob job.id = some job := h.get_job
  have hget : db.interrupt.getDocument job.documentId = some document.interrupt := by
    rw [h.job_document, ← h.document_id]
    apply getDocument_interrupt h.document_mem
  constructor
  · intro hstart
    simp only [startJob, hgetJob, hget] at hstart
    rcases bind_eq_error_iff.mp hstart with hrows | ⟨rows, -, hsave⟩
    · obtain ⟨-, -, hnot, -⟩ := startRows_eq_runtime hrows
      have hjob := h.job_status
      cases p with
      | deletingReady => rfl
      | deletingFailed => exact absurd ⟨hjob, hfailed⟩ hnot
      | queued | processing | ready | failed => cases hdeleting
    · exfalso
      cases rows with
      | none => cases hsave
      | some rows =>
          rcases bind_eq_error_iff.mp hsave with hsave | ⟨db₁, -, hsave⟩
          · cases saveDocument_eq_error hsave
          rcases bind_eq_error_iff.mp hsave with hsave | ⟨db₂, -, hsave⟩
          · cases saveJob_eq_error hsave
          · cases hsave
  · rintro rfl
    have hjob : job.status = .succeeded := h.job_status
    have hrows : startRows clock job document.interrupt
        = .error (.runtime "document and ingestion job states are inconsistent") := by
      simp [startRows, requeueRows, beginRows, hjob, hfailed, bind, Except.bind]
    simp only [startJob, hgetJob, hget, hrows]
    rfl

/-- The first transaction of `delete` brings the rows of an interrupted deletion back to where they
were. -/
theorem At.markDeleting_interrupt (h : db.At d p document job) (hdeleting : p.document = .deleting)
    (hnow : document.updatedAt ≤ clock 0) :
  ∃ document' db', markDeleting clock d db.interrupt = .ok ((document', [job.id]), db')
    ∧ db'.At d p document' job ∧ document'.Revises document ∧ db'.revision = db.revision + 1
  := by
  have hstatus : document.status = .deleting := h.document_status.trans hdeleting
  obtain ⟨hfailed, hrevises, hupdated⟩ := Document.interrupt_of_deleting hstatus
  have hget : db.interrupt.getDocument d = some document.interrupt := by
    rw [← h.document_id]
    apply getDocument_interrupt h.document_mem
  obtain ⟨document', hmark⟩ : ∃ document',
      document.interrupt.transition .deleting (clock 0) none = .ok document' := by
    apply Document.transition_isOk _ _ rfl
    · simp [hfailed, documentTransitions]
    · rw [hupdated]
      apply hnow
  obtain ⟨-, hto, hrevises'⟩ := Document.transition_spec hmark
  have hid : document'.id = d := by
    rw [hrevises'.id_eq, hrevises.id_eq, h.document_id]
  have hrows : markRows clock document.interrupt = .ok (some document') := by
    rw [markRows, hfailed, if_neg (by decide), if_neg (by decide), Document.markDeleting, hmark]
    rfl
  have hsave : db.interrupt.saveDocument document'
      = .ok { db.interrupt with documents := db.interrupt.documents.replace document' } := by
    apply saveDocument_eq_ok_iff.mpr
    rw [hid]
    use ⟨_, hget⟩
  have hat : ({ db.interrupt with documents := db.interrupt.documents.replace document' } :
      Database).incrementRevision.At d p document' job := by
    constructor
    · apply Table.mem_replace.mpr
      exact Or.inl ⟨rfl, _, Table.mem_of_get hget, hrevises'.id_eq.symm⟩
    · apply hid
    · apply h.job_mem
    · apply h.job_document
    · apply h.job_unique
    · rw [hto, hdeleting]
    · apply h.job_status
    · apply h.chunks
  refine ⟨document', _, ?_, hat, hrevises'.trans hrevises, rfl⟩
  simp only [markDeleting, hget, bind_of_eq_ok hrows, bind_of_eq_ok hsave]
  rw [hid, hat.jobsForDocument]
  rfl

/-- A moment after the stored time of a document is new to it when its deletion was interrupted. -/
theorem interrupt_newDocumentTime {statuses : List DocumentStatus} {now : Timestamp}
    (h : document ∈ db.documents) (hdeleting : document.status = .deleting)
    (hnow : document.updatedAt < now) :
  db.interrupt.NewDocumentTime document.id statuses now
  := by
  intro row hrow hid _
  obtain rfl : row = document.interrupt := by
    apply Table.eq_of_key_eq hrow (mem_interrupt h)
    rw [hid, document.interrupt_revises.id_eq]
  rw [(Document.interrupt_of_deleting hdeleting).2.2]
  apply hnow.ne

end Database

namespace System

variable {S : Services} {s : System}

/-- From every state that timed steps reach the schema can be taken back and forth again. The rows are then
those of before, but for documents that were being deleted: such a document has failed. The next call of
`delete` brings its rows back to where they were, when the clock has gone on; the worker refuses its job
exactly when the document was ready. -/
theorem downgrade_resumes (htimed : (timed S).Reachable s) :
  (∃ rows, downgrade s.stores.db.documentRecords = .ok rows ∧ upgrade rows = .ok rows
      ∧ rows.rows = s.stores.db.interrupt.documentRecords.rows)
    ∧ (∀ document ∈ s.stores.db.documents, document.status ≠ .deleting →
      document ∈ s.stores.db.interrupt.documents)
    ∧ ∀ document ∈ s.stores.db.documents, document.status = .deleting →
      ∃ p job, s.stores.db.At document.id p document job
        ∧ (∀ clock, startJob clock job.id s.stores.db.interrupt
            = .error (.runtime "document and ingestion job states are inconsistent")
          ↔ p = .deletingReady)
        ∧ ∀ clock : Clock, document.updatedAt < clock 0 →
          ∃ document' db', markDeleting clock document.id s.stores.db.interrupt
              = .ok ((document', [job.id]), db')
            ∧ s.stores.db.interrupt.Restamps db'
            ∧ db'.At document.id p document' job ∧ document'.Revises document
            ∧ db'.revision = s.stores.db.revision + 1
  := by
  have hcoherent := (Sound.of_reachable (reachable_of_timed htimed)).coherent
  have hrecords : s.stores.db.documentRecords.rows = s.stores.db.documents.rows.map documentToRecord := rfl
  obtain ⟨hdowngrade, hupgrade, hrows⟩ := downgrade_documentRecords hrecords
  refine ⟨⟨_, hdowngrade, hupgrade, hrows⟩, ?_, ?_⟩
  · intro document hdocument hstatus
    have hmem := mem_interrupt hdocument
    rw [Document.interrupt_of_ne_deleting hstatus] at hmem
    apply hmem
  · intro document hdocument hstatus
    obtain ⟨p, job, hat⟩ := hcoherent.documents document hdocument
    have hdeleting : p.document = .deleting := hat.document_status.symm.trans hstatus
    use p, job, hat
    constructor
    · intro clock
      apply hat.startJob_interrupt hdeleting
    · intro clock hnow
      obtain ⟨document', db', hmark, hmarked⟩ := hat.markDeleting_interrupt hdeleting hnow.le
      refine ⟨document', db', hmark, ?_, hmarked⟩
      apply markDeleting_restamps (interrupt_newDocumentTime hdocument hstatus hnow) hmark

/-- The document of the sample is being deleted when the schema is taken back. -/
theorem downgrade_resumes_sample :
  ∃ document ∈ (sampleAfter (sampleReady ++ [sampleMark 0 30])).stores.db.documents,
    document.status = .deleting
      ∧ ∃ document' jobId db',
        markDeleting (clockFrom 40) document.id
            (sampleAfter (sampleReady ++ [sampleMark 0 30])).stores.db.interrupt
          = .ok ((document', [jobId]), db')
  := by
  have hcheck : ((sampleAfter (sampleReady ++ [sampleMark 0 30])).stores.db.documents.rows.any
      fun document => document.status = .deleting && document.updatedAt < clockFrom 40 0) = true := by
    decide +kernel
  obtain ⟨document, hdocument, hboth⟩ := List.any_eq_true.mp hcheck
  simp only [Bool.and_eq_true, decide_eq_true_eq] at hboth
  have hrun : (timed .sample).run initial (sampleReady ++ [sampleMark 0 30])
      = some (sampleAfter (sampleReady ++ [sampleMark 0 30])) :=
    run_timed_iff.mpr ⟨run_sampleAfter [] _ (by decide +kernel), by decide +kernel⟩
  obtain ⟨-, -, hdeletions⟩ := downgrade_resumes ⟨initial, _, rfl, hrun⟩
  obtain ⟨p, job, -, -, hresumes⟩ := hdeletions document hdocument hboth.1
  obtain ⟨document', db', hmark, -⟩ := hresumes (clockFrom 40) hboth.2
  exact ⟨document, hdocument, hboth.1, document', job.id, db', hmark⟩

end System

end KnowledgeSearch

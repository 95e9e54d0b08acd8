import KnowledgeSearch.System.Messages
import KnowledgeSearch.System.Times
import Mathlib.Logic.Relation

/-!
# Polling a job

A client that has been answered with a job asks for the job and for its document again, as often as it
likes. What it reads are the rows of one document in phases that moves lead to, one after the other, until
the document is removed: `System.polls_settle`. It is about timed steps, whose transactions come one after
the other and leave no row that cannot be read.
-/

namespace KnowledgeSearch

/-! ### The phases moves lead to -/

/-- Moves lead from the one phase to the other. -/
def Phase.Reaches : Phase → Phase → Prop :=
  Relation.ReflTransGen fun p q => ∃ move, p.next move = some q

namespace Phase.Reaches

variable {p q : Phase}

/-- Nothing leads out of deletion. -/
theorem eq_of_deleting (h : p.Reaches q) (hp : p.document = .deleting) :
  q = p
  := by
  induction h with
  | refl => rfl
  | tail _ hmove ih =>
      obtain ⟨move, hnext⟩ := hmove
      rw [ih, next_eq_none_of_deleting hp] at hnext
      cases hnext

/-- Only deletion leads out of readiness. -/
theorem of_ready (h : ready.Reaches q) :
  q = ready ∨ q = deletingReady
  := by
  induction h with
  | refl => exact Or.inl rfl
  | tail _ hmove ih =>
      obtain ⟨move, hnext⟩ := hmove
      rcases ih with rfl | rfl
      · cases move <;> cases hnext
        exact Or.inr rfl
      · cases move <;> cases hnext

/-- A job that has succeeded stays so. -/
theorem of_succeeded (h : p.Reaches q) (hp : p.job = .succeeded) :
  q = ready ∨ q = deletingReady
  := by
  cases p with
  | ready => exact of_ready h
  | deletingReady => exact Or.inr (h.eq_of_deleting rfl)
  | queued | processing | failed | deletingFailed => cases hp

/-- Nothing leads back to the queue. -/
theorem eq_queued (h : p.Reaches queued) :
  p = queued
  := by
  rcases Relation.ReflTransGen.cases_tail h with heq | ⟨_, -, move, hnext⟩
  · exact heq.symm
  · exact absurd rfl (next_job_ne_queued hnext)

end Phase.Reaches

theorem Phase.eq_queued_of_value {p : Phase} (h : p.document.value = "queued" ∨ p.job.value = "queued") :
  p = .queued
  := by
  cases p <;> simp [Phase.document, Phase.job, DocumentStatus.value, IngestionJobStatus.value] at h ⊢

theorem Phase.job_of_value {p : Phase} (h : p.document.value = "ready" ∨ p.job.value = "succeeded") :
  p.job = .succeeded
  := by
  cases p <;> simp [Phase.document, Phase.job, DocumentStatus.value, IngestionJobStatus.value] at h ⊢

theorem Phase.document_of_value {p : Phase} (h : p.document.value = "deleting") :
  p.document = .deleting
  := by
  cases p <;> simp [Phase.document, DocumentStatus.value] at h ⊢

/-! ### What is read -/

section Routes

variable {db : Database} {path : String} {d j : Uuid} {p : Phase} {document : Document} {job : IngestionJob}

theorem Database.At.getDocument (h : db.At d p document job) :
  DocumentRoutes.getDocument path db d = .document (.fromDomain document)
  := by
  rw [DocumentRoutes.getDocument, DocumentQueries.getDocument, Database.getDocument, h.get_document]

theorem Database.At.getIngestionJob (h : db.At d p document job) :
  DocumentRoutes.getIngestionJob path db job.id = .ingestionJob (.fromDomain job)
  := by
  rw [DocumentRoutes.getIngestionJob, DocumentQueries.getJob, Database.getJob, h.get_job]

theorem getDocument_of_absent (h : ∀ row ∈ db.documents, row.id ≠ d) :
  DocumentRoutes.getDocument path db d = raisedResponse path (.documentNotFound d)
  := by
  rw [DocumentRoutes.getDocument, DocumentQueries.getDocument, Database.getDocument,
    Table.get_eq_none_iff.mpr h]

theorem getIngestionJob_of_absent (h : ∀ row ∈ db.jobs, row.id ≠ j) :
  DocumentRoutes.getIngestionJob path db j = raisedResponse path (.jobNotFound j)
  := by
  rw [DocumentRoutes.getIngestionJob, DocumentQueries.getJob, Database.getJob,
    Table.get_eq_none_iff.mpr h]

/-- A job is read from its row. -/
theorem getIngestionJob_eq {b : IngestionJobResponse}
    (h : DocumentRoutes.getIngestionJob path db j = .ingestionJob b) :
  ∃ row ∈ db.jobs, row.id = j ∧ b = .fromDomain row
  := by
  rw [DocumentRoutes.getIngestionJob, DocumentQueries.getJob, Database.getJob] at h
  cases hget : db.jobs.get j with
  | none =>
      rw [hget] at h
      cases h
  | some row =>
      rw [hget] at h
      cases h
      obtain ⟨hrow, hid⟩ := Table.get_eq_some_iff.mp hget
      exact ⟨row, hrow, hid, rfl⟩

end Routes

/-- What a client reads of a document and its job after it has read `a` and `b` of them: the same upload,
queued only if it was queued before, finished once it was, and being deleted once it was. -/
structure Leads (a : DocumentResponse) (b : IngestionJobResponse) (a' : DocumentResponse)
    (b' : IngestionJobResponse) : Prop where
  document : { a' with status := a.status, failureCode := a.failureCode, updatedAt := a.updatedAt } = a
  job : b'.id = b.id ∧ b'.documentId = b.documentId
  queued : a'.status = "queued" ∨ b'.status = "queued" → a.status = "queued" ∧ b.status = "queued"
  succeeded : a.status = "ready" ∨ b.status = "succeeded" →
    b'.status = "succeeded" ∧ a'.status ∈ ["ready", "deleting"]
  deleting : a.status = "deleting" → a'.status = "deleting" ∧ b'.status = b.status

/-- Rows of phases that moves lead to are read one after the other. -/
theorem Database.At.leads {db db' : Database} {d : Uuid} {p q : Phase} {document document' : Document}
    {job job' : IngestionJob} (h : db.At d p document job) (h' : db'.At d q document' job')
    (hrevises : document'.Revises document) (hid : job'.id = job.id) (hreaches : p.Reaches q) :
  Leads (.fromDomain document) (.fromDomain job) (.fromDomain document') (.fromDomain job')
  := by
  have hfields : document'.toDocumentFields = { document.toDocumentFields with
      status := document'.status, updatedAt := document'.updatedAt, failureCode := document'.failureCode } :=
    hrevises
  constructor
  · rw [DocumentResponse.fromDomain, DocumentResponse.fromDomain, hfields]
  · use hid
    exact h'.job_document.trans h.job_document.symm
  · intro hqueued
    rw [DocumentResponse.fromDomain, IngestionJobResponse.fromDomain, h'.document_status,
      h'.job_status] at hqueued
    obtain rfl := Phase.eq_queued_of_value hqueued
    obtain rfl := hreaches.eq_queued
    rw [DocumentResponse.fromDomain, IngestionJobResponse.fromDomain, h.document_status, h.job_status]
    use rfl
    rfl
  · intro hsucceeded
    rw [DocumentResponse.fromDomain, IngestionJobResponse.fromDomain, h.document_status,
      h.job_status] at hsucceeded
    rw [DocumentResponse.fromDomain, IngestionJobResponse.fromDomain, h'.document_status, h'.job_status]
    rcases hreaches.of_succeeded (Phase.job_of_value hsucceeded) with rfl | rfl
    · exact ⟨rfl, List.mem_cons_self⟩
    · exact ⟨rfl, List.mem_cons_of_mem _ List.mem_cons_self⟩
  · intro hdeleting
    rw [DocumentResponse.fromDomain, h.document_status] at hdeleting
    obtain rfl := hreaches.eq_of_deleting (Phase.document_of_value hdeleting)
    rw [DocumentResponse.fromDomain, IngestionJobResponse.fromDomain, IngestionJobResponse.fromDomain,
      h'.document_status, h'.job_status, h.job_status]
    use hdeleting

namespace System

variable {S : Services} {s s' : System} {t : Ticket} {p : Phase} {document : Document}

/-- Where the document and the job of a ticket stand that were in the phase `p`: in a phase that moves lead
to, or they are gone for good. -/
inductive Settles (S : Services) (s : System) (t : Ticket) (p : Phase) (document : Document) : Prop
  | there {q : Phase} {row : Document} {job : IngestionJob}
      (hat : s.stores.db.At t.documentId q row job) (hrevises : row.Revises document)
      (hreaches : p.Reaches q)
  | gone (hconceals : s.Conceals S t.documentId)
      (habsent : ∀ row ∈ s.stores.db.documents, row.id ≠ t.documentId)

theorem Settles.step {e : Event} (h : s.Settles S t p document) (hs : s.Sound S)
    (hstep : System.step S s e = some s') :
  s'.Settles S t p document
  := by
  cases h with
  | gone hconceals habsent =>
      exact .gone (hconceals.step hstep) (hconceals.absent_step hstep habsent)
  | @there q row job hat hrevises hreaches =>
      rcases hs.changed hstep with hdb | ⟨move, moved, moved', job₁, job', _, hmoved⟩
        | ⟨_, inserted, _, -, hinserted⟩ | ⟨i, removed, hi, hremoved⟩
      · apply Settles.there _ hrevises hreaches
        · exact job
        · rw [hdb]
          exact hat
      · by_cases hid : t.documentId = moved.id
        · obtain rfl : moved = row := by
            apply Table.eq_of_key_eq hmoved.document_mem hat.document_mem
            rw [hat.document_id, hid]
          obtain rfl : job₁ = job := by
            apply hat.job_unique job₁ hmoved.job_mem
            rw [hmoved.job_document, hid]
          rw [hid] at hat
          obtain ⟨q', hnext, hat'⟩ := hmoved.at_self hat
          rw [← hid] at hat'
          exact .there hat' (hmoved.document_revises.trans hrevises) (hreaches.tail ⟨move, hnext⟩)
        · exact .there (hmoved.at_other hid hat) hrevises hreaches
      · have hne : t.documentId ≠ inserted.id := by
          rw [← hat.document_id]
          exact hinserted.document_new row hat.document_mem
        exact .there (hat.congr (hinserted.keeps hne)) hrevises hreaches
      · by_cases hid : t.documentId = removed.id
        · apply Settles.gone
          · rw [hid]
            exact (hs.conceals hi).step hstep
          · intro row' hrow'
            rw [hid]
            exact ((hremoved.mem_documents row').mp hrow').2
        · exact .there (hat.congr (hremoved.keeps hid)) hrevises hreaches

/-- The document and the job of a ticket are not found. -/
def NotFound (s : System) (path : String) (d j : Uuid) : Prop :=
  DocumentRoutes.getDocument path s.stores.db d = raisedResponse path (.documentNotFound d)
    ∧ DocumentRoutes.getIngestionJob path s.stores.db j = raisedResponse path (.jobNotFound j)

/-- A document that is gone took its job with it. -/
theorem Sound.notFound (hs : s.Sound S) (ht : t ∈ s.issued)
    (habsent : ∀ row ∈ s.stores.db.documents, row.id ≠ t.documentId) (path : String) :
  s.NotFound path t.documentId t.jobId
  := by
  use getDocument_of_absent habsent
  apply getIngestionJob_of_absent
  intro job hjob hid
  obtain ⟨row, hrow, hrowid⟩ := hs.coherent.jobs job hjob
  apply habsent row hrow
  rw [hrowid, hs.linked ht job hjob, hid]

/-- A hidden document that is gone does not come back. -/
theorem Conceals.absent_run {d : Uuid} {es : List Event} (h : s.Conceals S d)
    (habsent : ∀ row ∈ s.stores.db.documents, row.id ≠ d) (hrun : (machine S).run s es = some s') :
  ∀ row ∈ s'.stores.db.documents, row.id ≠ d
  := by
  apply ((machine S).run_invariant
    (I := fun u => u.Conceals S d ∧ ∀ row ∈ u.stores.db.documents, row.id ≠ d) _ ⟨h, habsent⟩ hrun).2
  rintro u e u' ⟨h, habsent⟩ hstep
  exact ⟨h.step hstep, h.absent_step hstep habsent⟩

theorem Settles.run {es : List Event} (h : s.Settles S t p document)
    (hreachable : (machine S).Reachable s) (hrun : (machine S).run s es = some s') :
  s'.Settles S t p document
  := by
  apply ((machine S).run_invariant (I := fun u => (machine S).Reachable u ∧ u.Settles S t p document) _
    ⟨hreachable, h⟩ hrun).2
  rintro u e u' ⟨hreachable, h⟩ hstep
  exact ⟨hreachable.step hstep, h.step (Sound.of_reachable hreachable) hstep⟩

/-- A client that has been answered with a job is answered with its document at that moment. Whatever calls
do in timed steps and whatever fails until it asks again, either both are gone, and not found ever after, or
it reads what the first answers lead to. -/
theorem polls_settle {path : String} {j : Uuid} {b : IngestionJobResponse} {es : List Event}
    (htimed : (timed S).Reachable s)
    (hread : DocumentRoutes.getIngestionJob path s.stores.db j = .ingestionJob b)
    (htimedRun : (timed S).run s es = some s') :
  ∃ a, DocumentRoutes.getDocument path s.stores.db b.documentId = .document a
    ∧ ((∀ es' s'', (machine S).run s' es' = some s'' → s''.NotFound path b.documentId j)
      ∨ ∃ a' b', DocumentRoutes.getDocument path s'.stores.db b.documentId = .document a'
        ∧ DocumentRoutes.getIngestionJob path s'.stores.db j = .ingestionJob b' ∧ Leads a b a' b')
  := by
  have hreachable := reachable_of_timed htimed
  obtain ⟨hrun, -⟩ := run_timed_iff.mp htimedRun
  have hs := Sound.of_reachable hreachable
  obtain ⟨job, hjob, rfl, rfl⟩ := getIngestionJob_eq hread
  obtain ⟨document, hdocument, hid⟩ := hs.coherent.jobs job hjob
  obtain ⟨p, hat⟩ := hs.coherent.at_of_job hdocument hjob hid.symm
  obtain ⟨t, ht, hnames⟩ := hs.ticket hdocument
  rw [hnames.id_eq] at hat
  have hjobid : job.id = t.jobId := (hs.linked ht job hjob).mp hat.job_document
  have hdocumentid : (IngestionJobResponse.fromDomain job).documentId = t.documentId := hat.job_document
  rw [hdocumentid, hjobid]
  use .fromDomain document, hat.getDocument
  have hreachable' := hreachable.run hrun
  have ht' := issued_subset_of_run hrun ht
  have hsettles : s.Settles S t p document := .there hat (Document.Revises.refl document) .refl
  cases hsettles.run hreachable hrun with
  | gone hconceals habsent =>
      left
      intro es' s'' hrun'
      apply (Sound.of_reachable (hreachable'.run hrun')).notFound (issued_subset_of_run hrun' ht')
      exact hconceals.absent_run habsent hrun'
  | @there q row job' hat' hrevises hreaches =>
      right
      have hjobid' : job'.id = t.jobId :=
        ((Sound.of_reachable hreachable').linked ht' job' hat'.job_mem).mp hat'.job_document
      refine ⟨_, _, hat'.getDocument, ?_, hat.leads hat' hrevises (hjobid'.trans hjobid.symm) hreaches⟩
      rw [← hjobid']
      exact hat'.getIngestionJob

/-- The sample job has succeeded; its document is then being deleted. -/
theorem polls_settle_sample :
  ∃ a' b', DocumentRoutes.getDocument "/" (sampleAfter (sampleReady ++ [sampleMark 0 30])).stores.db
      Services.sampleDocumentId = .document a'
    ∧ DocumentRoutes.getIngestionJob "/" (sampleAfter (sampleReady ++ [sampleMark 0 30])).stores.db
      sampleJobId = .ingestionJob b'
    ∧ b'.status = "succeeded" ∧ a'.status ∈ ["ready", "deleting"]
  := by
  have hcheck : ((sampleAfter sampleReady).stores.db.getJob sampleJobId).any (fun job =>
      job.status = .succeeded && job.documentId = Services.sampleDocumentId) = true := by
    decide +kernel
  obtain ⟨job, hget, hboth⟩ := (Option.any_eq_true _ _).mp hcheck
  simp only [Bool.and_eq_true, decide_eq_true_eq] at hboth
  have hread : DocumentRoutes.getIngestionJob "/" (sampleAfter sampleReady).stores.db sampleJobId
      = .ingestionJob (.fromDomain job) := by
    rw [DocumentRoutes.getIngestionJob, DocumentQueries.getJob, hget]
  have hfound : (DocumentRoutes.getIngestionJob "/"
      (sampleAfter (sampleReady ++ [sampleMark 0 30])).stores.db sampleJobId).statusCode = 200 := by
    decide +kernel
  have hdocument : (IngestionJobResponse.fromDomain job).documentId = Services.sampleDocumentId := hboth.2
  have hready : (timed .sample).run initial sampleReady = some (sampleAfter sampleReady) :=
    run_timed_iff.mpr ⟨run_sampleAfter [] _ (by decide +kernel), by decide +kernel⟩
  have hmarked : (timed .sample).run (sampleAfter sampleReady) [sampleMark 0 30]
      = some (sampleAfter (sampleReady ++ [sampleMark 0 30])) :=
    run_timed_iff.mpr ⟨run_sampleAfter sampleReady _ (by decide +kernel), by decide +kernel⟩
  obtain ⟨a, -, hgone | ⟨a', b', ha', hb', hleads⟩⟩ := polls_settle ⟨initial, _, rfl, hready⟩ hread hmarked
  · rw [(hgone [] _ rfl).2] at hfound
    cases hfound
  · rw [hdocument] at ha'
    refine ⟨a', b', ha', hb', hleads.succeeded (Or.inr ?_)⟩
    rw [IngestionJobResponse.fromDomain, hboth.1]
    rfl

end System

end KnowledgeSearch

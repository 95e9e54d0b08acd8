import KnowledgeSearch.System.Attempts
import KnowledgeSearch.System.Consistency
import Mathlib.Logic.Relation

/-!
# Retries

Deliveries of one job that do not overlap: attempts that fail and whose failure is recorded,
an attempt that succeeds, and further deliveries. `System.retries_transparent` compares the
state they lead to with the one a single successful attempt leads to.
-/

namespace KnowledgeSearch

namespace System

variable {S : Services} {s s₁ s₂ s₃ s' : System} {i : ℕ} {t : Ticket} {p : Phase} {count : ℤ}
  {revision n : ℕ} {jobId : Uuid}

/-! ### Attempts -/

/-- An attempt that fails at some step after `_start_job`. The failure is recorded, and the
cleanup of the index may fail as well. -/
def FailedAttempt (S : Services) (jobId : Uuid) (s s' : System) : Prop :=
  ∃ (i : ℕ) (clock : Clock) (events : List DeliveryEvent) (fault : Option (AppError × (Uuid → Bool)))
      (s₁ s₂ : System) (a : Attempt) (error : AppError),
    step S s (.delivery i (.start jobId clock none)) = some s₁
      ∧ s₁.deliveries i = .started a
      ∧ (∀ e ∈ events, ¬ DeliveryEvent.IsStart e)
      ∧ (machine S).run s₁ (events.map (.delivery i)) = some s₂
      ∧ s₂.deliveries i = .cleaning a error
      ∧ step S s₂ (.delivery i (.cleanup fault)) = some s'

/-- An attempt no step of which fails, so that it returns. -/
def SuccessfulAttempt (S : Services) (jobId : Uuid) (s s' : System) : Prop :=
  ∃ (i : ℕ) (clock : Clock) (events : List DeliveryEvent) (s₁ : System) (a : Attempt),
    step S s (.delivery i (.start jobId clock none)) = some s₁
      ∧ s₁.deliveries i = .started a
      ∧ (∀ e ∈ events, ¬ DeliveryEvent.IsStart e)
      ∧ (machine S).run s₁ (events.map (.delivery i)) = some s'
      ∧ s'.deliveries i = .returned

/-- A call of `process`, whatever comes of it. -/
def FurtherDelivery (S : Services) (jobId : Uuid) (s s' : System) : Prop :=
  ∃ (i : ℕ) (clock : Clock) (fault : Option AppError) (events : List DeliveryEvent), (∀ e ∈ events, ¬ DeliveryEvent.IsStart e)
    ∧ (machine S).run s (.delivery i (.start jobId clock fault) :: events.map (.delivery i))
      = some s'

/-- Several failed attempts, one after the other. -/
inductive FailedAttempts (S : Services) (jobId : Uuid) : ℕ → System → System → Prop
  | none (s : System) : FailedAttempts S jobId 0 s s
  | more {n : ℕ} {s s₁ s' : System} (h : FailedAttempts S jobId n s s₁)
      (hlast : FailedAttempt S jobId s₁ s') : FailedAttempts S jobId (n + 1) s s'

/-- What holds of the system between two deliveries of the job of a ticket. -/
structure Between (S : Services) (s : System) (t : Ticket) : Prop where
  sound : s.Sound S
  derived : s.stores.Derived S s.issued
  issued : t ∈ s.issued

/-- A step of a delivery keeps what holds between two deliveries. -/
theorem Between.step (h : Between S s t) {event : DeliveryEvent}
    (hstep : System.step S s (.delivery i event) = some s') :
  Between S s' t
  where
  sound := h.sound.step hstep
  derived := derived_step h.sound h.derived hstep
  issued := by
    rcases h.sound.step_cases hstep with ⟨_, _, _, _, _, he, -⟩
      | ⟨j, event, stores, delivery, -, -, rfl⟩ | ⟨_, _, _, _, he, -⟩
    · cases he
    · apply h.issued
    · cases he

/-- The step of one delivery. -/
theorem Between.delivery_step (h : Between S s t) {event : DeliveryEvent}
    (hstep : System.step S s (.delivery i event) = some s') :
  Delivery.Steps S s.stores (s.deliveries i) event s'.stores (s'.deliveries i)
  := by
  rcases h.sound.step_cases hstep with ⟨_, _, _, _, _, he, -⟩
    | ⟨j, event', stores, delivery, he, hdel, rfl⟩ | ⟨_, _, _, _, he, -⟩
  · cases he
  · cases he
    simp only [Function.update_self]
    apply hdel
  · cases he

/-- The start of an attempt. -/
theorem Between.start (h : Between S s t) {clock : Clock} {fault : Option AppError} {a : Attempt}
    (hstage : s.stores.Stage t p count)
    (hstep : System.step S s (.delivery i (.start t.jobId clock fault)) = some s₁)
    (hstarted : s₁.deliveries i = .started a) :
  p.next .start = some .processing
    ∧ (s₁.deliveries i).Alone S s₁.stores t (count + 1) s.stores.db.revision
  := by
  have hdel := h.delivery_step hstep
  rw [hstarted] at hdel ⊢
  generalize s.deliveries i = before at hdel
  generalize hstores : s₁.stores = stores at hdel ⊢
  generalize ht : t.jobId = jobId at hdel
  cases hdel with
  | @start _ clock fault db document document' job job' hidle hcount hmoved =>
      have hdocument : document.id = t.documentId := by
        rw [← hmoved.job_document]
        apply (h.sound.linked h.issued job hmoved.job_mem).mpr ht.symm
      obtain ⟨q, hnext, hstage'⟩ := hstage.moved h.sound.coherent hmoved hdocument
      have hq : q = .processing := by cases p <;> cases hnext <;> rfl
      subst hq
      use hnext
      apply Delivery.Alone.running
      · rfl
      · apply hdocument
      · have hplus : count + (job'.attemptCount - job.attemptCount) = count + 1 := by omega
        rw [hplus] at hstage'
        apply hstage' _ rfl
      · apply hmoved.revision
      · intro b chunks hb
        cases hb

/-- The events of an attempt after its start. -/
theorem Between.run_alone : ∀ {events : List DeliveryEvent} {s s' : System}, Between S s t →
    (s.deliveries i).Alone S s.stores t count revision →
    (∀ e ∈ events, ¬ DeliveryEvent.IsStart e) →
    (machine S).run s (events.map (.delivery i)) = some s' →
    Between S s' t ∧ (s'.deliveries i).Alone S s'.stores t count revision
  | [], s, s', h, halone, _, hrun => by
      obtain rfl := Option.some.inj hrun
      use h
  | event :: events, s, s', h, halone, hevents, hrun => by
      rw [List.map_cons] at hrun
      obtain ⟨s₁, hstep, hrun⟩ := (machine S).run_cons_iff.mp hrun
      have hdel := h.delivery_step hstep
      have halone₁ := halone.step h.sound.distinct h.sound.coherent h.derived h.issued
        (h.sound.deliveries i) (hevents event List.mem_cons_self) hdel
      apply run_alone (h.step hstep) halone₁ _ hrun
      intro e he
      apply hevents e (List.mem_cons_of_mem event he)

/-- A failed attempt counts, and leaves the document failed. -/
theorem Between.failedAttempt (h : Between S s t) (hstage : s.stores.Stage t p count)
    (hattempt : FailedAttempt S t.jobId s s') :
  Between S s' t ∧ s'.stores.Stage t .failed (count + 1)
    ∧ s'.stores.db.revision = s.stores.db.revision
  := by
  obtain ⟨i, clock, events, fault, s₁, s₂, a, error, hstart, hstarted, hevents, hrun, hcleaning,
    hclean⟩ := hattempt
  obtain ⟨-, halone⟩ := h.start hstage hstart hstarted
  obtain ⟨h₂, halone₂⟩ := (h.step hstart).run_alone halone hevents hrun
  have hdel := h₂.delivery_step hclean
  rw [hcleaning] at halone₂ hdel
  have hdb : s'.stores.db = s₂.stores.db := by
    generalize s'.stores = stores at hdel
    generalize s'.deliveries i = after at hdel
    cases hdel with
    | clean => rfl
    | interrupt hrunning _ => cases hrunning
  cases halone₂ with
  | running hrunning => cases hrunning
  | recorded hid hstage₂ hrevision =>
      use h₂.step hclean
      rw [Stores.Stage, hdb]
      use hstage₂, hrevision

/-- A successful attempt counts, completes the document and increments the revision. -/
theorem Between.successfulAttempt (h : Between S s t) (hstage : s.stores.Stage t p count)
    (hattempt : SuccessfulAttempt S t.jobId s s') :
  Between S s' t ∧ s'.stores.Completed S t (count + 1)
    ∧ s'.stores.db.revision = s.stores.db.revision + 1
  := by
  obtain ⟨i, clock, events, s₁, a, hstart, hstarted, hevents, hrun, hreturned⟩ := hattempt
  obtain ⟨-, halone⟩ := h.start hstage hstart hstarted
  obtain ⟨h', halone'⟩ := (h.step hstart).run_alone halone hevents hrun
  rw [hreturned] at halone'
  cases halone' with
  | running hrunning => cases hrunning
  | returned hcompleted hrevision => use h', hcompleted

/-- A call that has ended takes no step but the start of another. -/
theorem Between.no_step (h : Between S s t) (hended : (s.deliveries i).attempt = none)
    {event : DeliveryEvent} (hevent : ¬ event.IsStart) :
  System.step S s (.delivery i event) ≠ some s'
  := by
  intro hstep
  have hdel := h.delivery_step hstep
  generalize s.deliveries i = before at hdel hended
  generalize s'.stores = stores at hdel
  generalize s'.deliveries i = after at hdel
  cases hdel with
  | refuse | skip | start => exact hevent trivial
  | interrupt hrunning _ =>
      rw [Delivery.attempt_of_running hrunning] at hended
      cases hended
  | crash hattempt =>
      rw [hended] at hattempt
      cases hattempt
  | _ => cases hended

/-- Further deliveries leave a completed document as it is. -/
theorem Between.furtherDelivery (h : Between S s t) (hcompleted : s.stores.Completed S t count)
    (hfurther : FurtherDelivery S t.jobId s s') :
  Between S s' t ∧ s'.stores.Completed S t count
    ∧ s'.stores.db.revision = s.stores.db.revision
  := by
  obtain ⟨i, clock, fault, events, hevents, hrun⟩ := hfurther
  obtain ⟨s₁, hstart, hrun⟩ := (machine S).run_cons_iff.mp hrun
  have hstores : s₁.stores = s.stores ∧ (s₁.deliveries i).attempt = none := by
    have hdel := h.delivery_step hstart
    generalize s₁.stores = stores at hdel
    generalize s.deliveries i = before at hdel
    generalize t.jobId = jobId at hdel
    generalize hafter : s₁.deliveries i = after at hdel
    cases after with
    | started a =>
        -- a ready document is not started
        obtain ⟨hnext, -⟩ := h.start hcompleted.stage hstart hafter
        cases hnext
    | failing a error =>
        cases hdel with
        | interrupt _ hevent => exact absurd trivial hevent
    | _ =>
        cases hdel <;> exact ⟨rfl, rfl⟩
  cases events with
  | nil =>
      obtain rfl := Option.some.inj hrun
      rw [hstores.1]
      use h.step hstart, hcompleted
  | cons event events =>
      rw [List.map_cons] at hrun
      obtain ⟨s₂, hstep, -⟩ := (machine S).run_cons_iff.mp hrun
      exact absurd hstep ((h.step hstart).no_step hstores.2 (hevents event List.mem_cons_self))

/-! ### Transparency -/

/-- Failed attempts count, one by one. -/
theorem Between.failedAttempts (h : Between S s t) (hstage : s.stores.Stage t p count)
    (hattempts : FailedAttempts S t.jobId n s s') :
  Between S s' t ∧ (∃ q, s'.stores.Stage t q (count + n))
    ∧ s'.stores.db.revision = s.stores.db.revision
  := by
  induction hattempts with
  | none s =>
      use h
      constructor
      · use p
        simpa using hstage
      · rfl
  | @more n s s₁ s' hattempts hlast ih =>
      obtain ⟨h₁, ⟨q, hstage₁⟩, hrevision₁⟩ := ih h hstage
      obtain ⟨h', hstage', hrevision'⟩ := h₁.failedAttempt hstage₁ hlast
      use h'
      constructor
      · use .failed
        push_cast
        rw [← add_assoc]
        apply hstage'
      · rw [hrevision', hrevision₁]

/-- Further deliveries change nothing. -/
theorem Between.furtherDeliveries (h : Between S s t) (hcompleted : s.stores.Completed S t count)
    (hfurther : Relation.ReflTransGen (FurtherDelivery S t.jobId) s s') :
  Between S s' t ∧ s'.stores.Completed S t count
    ∧ s'.stores.db.revision = s.stores.db.revision
  := by
  induction hfurther with
  | refl => use h, hcompleted
  | @tail s₁ s' _ hlast ih =>
      obtain ⟨h₁, hcompleted₁, hrevision₁⟩ := ih
      obtain ⟨h', hcompleted', hrevision'⟩ := h₁.furtherDelivery hcompleted₁ hlast
      use h', hcompleted'
      rw [hrevision', hrevision₁]

/-- Any number of failed attempts, an attempt that succeeds and further deliveries of a job lead
to the chunk rows, the points, the statuses and the revision a single successful attempt leads
to. The attempts are counted. -/
theorem retries_transparent {document : Document} {job : IngestionJob}
    (hreachable : (machine S).Reachable s) (hdocument : document ∈ s.stores.db.documents)
    (hjob : job ∈ s.stores.db.jobs) (hid : job.documentId = document.id)
    (hfailed : FailedAttempts S job.id n s s₁) (hsucceeded : SuccessfulAttempt S job.id s₁ s₂)
    (hfurther : Relation.ReflTransGen (FurtherDelivery S job.id) s₂ s₃)
    (hsingle : SuccessfulAttempt S job.id s s') :
  (∀ chunk, chunk.documentId = document.id →
      (chunk ∈ s₃.stores.db.chunks ↔ chunk ∈ s'.stores.db.chunks))
    ∧ (∀ point, point.documentId = document.id →
      (point ∈ s₃.stores.index ↔ point ∈ s'.stores.index))
    ∧ s₃.stores.db.revision = s'.stores.db.revision
    ∧ s₃.stores.db.revision = s.stores.db.revision + 1
    ∧ ∃ document₃ job₃ document' job',
        s₃.stores.db.getDocument document.id = some document₃
      ∧ s₃.stores.db.jobsForDocument document.id = [job₃]
      ∧ s'.stores.db.getDocument document.id = some document'
      ∧ s'.stores.db.jobsForDocument document.id = [job']
      ∧ document₃.status = document'.status ∧ document₃.status = .ready
      ∧ job₃.status = job'.status ∧ job₃.status = .succeeded
      ∧ job₃.attemptCount = job.attemptCount + n + 1
      ∧ (document.status = .queued → job₃.attemptCount = n + 1)
  := by
  have hs := Sound.of_reachable hreachable
  obtain ⟨t, ht, hnames⟩ := hs.ticket hdocument
  have hb : Between S s t := ⟨hs, derived_of_reachable hreachable, ht⟩
  have hjobid : job.id = t.jobId :=
    (hs.linked ht job hjob).mp (hid.trans hnames.id_eq)
  obtain ⟨p, hat⟩ := hs.coherent.at_of_job hdocument hjob hid
  rw [hnames.id_eq] at hat
  have hstage : s.stores.Stage t p job.attemptCount := ⟨document, job, hat, rfl⟩
  rw [hjobid] at hfailed hsucceeded hfurther hsingle
  obtain ⟨h₁, ⟨q, hstage₁⟩, hrevision₁⟩ := hb.failedAttempts hstage hfailed
  obtain ⟨h₂, hcompleted₂, hrevision₂⟩ := h₁.successfulAttempt hstage₁ hsucceeded
  obtain ⟨-, hcompleted₃, hrevision₃⟩ := h₂.furtherDeliveries hcompleted₂ hfurther
  obtain ⟨-, hcompleted', hrevision'⟩ := hb.successfulAttempt hstage hsingle
  obtain ⟨document₃, job₃, hat₃, hcount₃⟩ := hcompleted₃.stage
  obtain ⟨document', job', hat', -⟩ := hcompleted'.stage
  rw [hnames.id_eq]
  constructor
  · intro chunk hchunk
    have h₃ := hcompleted₃.chunks chunk
    have h' := hcompleted'.chunks chunk
    rw [← h', and_iff_left hchunk, and_iff_left hchunk] at h₃
    apply h₃
  constructor
  · intro point hpoint
    have h₃ := hcompleted₃.points point
    have h' := hcompleted'.points point
    rw [← h', and_iff_left hpoint, and_iff_left hpoint] at h₃
    apply h₃
  constructor
  · rw [hrevision₃, hrevision₂, hrevision₁, hrevision']
  constructor
  · rw [hrevision₃, hrevision₂, hrevision₁]
  use document₃, job₃, document', job', hat₃.get_document, hat₃.jobsForDocument,
    hat'.get_document, hat'.jobsForDocument
  rw [hat₃.document_status, hat'.document_status, hat₃.job_status, hat'.job_status]
  use rfl, rfl, rfl, rfl, hcount₃
  intro hqueued
  have hunattempted : job.attemptCount = 0 := by
    apply hs.coherent.unattempted job hjob
    rw [hat.document_status] at hqueued
    rw [hat.job_status]
    cases p <;> simp [Phase.document] at hqueued
    rfl
  rw [hcount₃, hunattempted, zero_add]

/-- An attempt at the sample document that fails, and whose cleanup fails as well. -/
def sampleFailure : List DeliveryEvent :=
  [.load none, .prepare (some .os), .markFailed (clockFrom 20) none]

/-- The steps of a successful attempt at the sample document after its start. -/
def sampleSuccess : List DeliveryEvent :=
  [.load none, .prepare none, .embed none, .ensure none, .upsert none,
    .finalise (clockFrom 40) none]

/-- The start of a delivery of the sample job. -/
def sampleStart (start : Timestamp) : Event :=
  .delivery 0 (.start sampleJobId (clockFrom start) none)

/-- The cleanup of a failed attempt, itself failing. -/
def sampleCleanup : Event :=
  .delivery 0 (.cleanup (some (.vectorIndex "unavailable", fun _ => false)))

/-- A successful attempt at the sample document after some events, the outcome of each step
evaluated. -/
theorem successfulAttempt_sampleAfter (es : List Event) (start : Timestamp)
    (hrun : ((machine .sample).run initial
      (es ++ [sampleStart start] ++ sampleSuccess.map (.delivery 0))).isSome = true)
    (hstarted : (sampleAfter (es ++ [sampleStart start])).deliveries 0
      = .started ⟨sampleJobId, Services.sampleDocumentId⟩)
    (hreturned : (sampleAfter
      (es ++ [sampleStart start] ++ sampleSuccess.map (.delivery 0))).deliveries 0 = .returned) :
  SuccessfulAttempt .sample sampleJobId (sampleAfter es)
    (sampleAfter (es ++ [sampleStart start] ++ sampleSuccess.map (.delivery 0)))
  := by
  have hstart : ((machine .sample).run initial (es ++ [sampleStart start])).isSome = true := by
    obtain ⟨s, hs⟩ := Option.isSome_iff_exists.mp hrun
    obtain ⟨s₁, hs₁, -⟩ := (machine .sample).run_append_iff.mp hs
    rw [hs₁, Option.isSome_some]
  use 0, clockFrom start, sampleSuccess, sampleAfter (es ++ [sampleStart start]),
    ⟨sampleJobId, Services.sampleDocumentId⟩
  use step_sampleAfter es _ hstart, hstarted
  use by simp [sampleSuccess, DeliveryEvent.IsStart]
  use run_sampleAfter _ _ hrun

/-- The sample document after a failed attempt, a successful one and a further delivery. -/
theorem retries_transparent_sample :
  ∃ job,
    (sampleAfter (sampleUpload ++ [sampleStart 10] ++ sampleFailure.map (.delivery 0)
        ++ [sampleCleanup] ++ [sampleStart 30] ++ sampleSuccess.map (.delivery 0)
        ++ [sampleStart 50])).stores.db.jobsForDocument Services.sampleDocumentId = [job]
      ∧ job.status = .succeeded ∧ job.attemptCount = 2
  := by
  have hreachable : (machine .sample).Reachable (sampleAfter sampleUpload) :=
    reachable_sampleAfter (by decide +kernel)
  have hfailed : FailedAttempt .sample sampleJobId (sampleAfter sampleUpload)
      (sampleAfter (sampleUpload ++ [sampleStart 10] ++ sampleFailure.map (.delivery 0)
        ++ [sampleCleanup])) := by
    use 0, clockFrom 10, sampleFailure, some (.vectorIndex "unavailable", fun _ => false),
      sampleAfter (sampleUpload ++ [sampleStart 10]),
      sampleAfter (sampleUpload ++ [sampleStart 10] ++ sampleFailure.map (.delivery 0)),
      ⟨sampleJobId, Services.sampleDocumentId⟩, .os
    use step_sampleAfter _ _ (by decide +kernel), by decide +kernel
    use by simp [sampleFailure, DeliveryEvent.IsStart]
    use run_sampleAfter _ _ (by decide +kernel), by decide +kernel
    apply step_sampleAfter _ _ (by decide +kernel)
  have hsucceeded := successfulAttempt_sampleAfter
    (sampleUpload ++ [sampleStart 10] ++ sampleFailure.map (.delivery 0) ++ [sampleCleanup])
    30 (by decide +kernel) (by decide +kernel) (by decide +kernel)
  have hsingle := successfulAttempt_sampleAfter sampleUpload 30
    (by decide +kernel) (by decide +kernel) (by decide +kernel)
  have hfurther : FurtherDelivery .sample sampleJobId
      (sampleAfter (sampleUpload ++ [sampleStart 10] ++ sampleFailure.map (.delivery 0)
        ++ [sampleCleanup] ++ [sampleStart 30] ++ sampleSuccess.map (.delivery 0)))
      (sampleAfter (sampleUpload ++ [sampleStart 10] ++ sampleFailure.map (.delivery 0)
        ++ [sampleCleanup] ++ [sampleStart 30] ++ sampleSuccess.map (.delivery 0)
        ++ [sampleStart 50])) := by
    use 0, clockFrom 50, none, []
    use by simp
    apply run_sampleAfter _ _ (by decide +kernel)
  have hdocuments : ((sampleAfter sampleUpload).stores.db.documents.rows.any fun document =>
      document.id = Services.sampleDocumentId && document.status = .queued) = true := by
    decide +kernel
  have hjobs : ((sampleAfter sampleUpload).stores.db.jobs.rows.any fun job =>
      job.id = sampleJobId && job.documentId = Services.sampleDocumentId) = true := by
    decide +kernel
  obtain ⟨document, hdocument, hrow⟩ := List.any_eq_true.mp hdocuments
  obtain ⟨job, hjob, hjobRow⟩ := List.any_eq_true.mp hjobs
  simp only [Bool.and_eq_true, decide_eq_true_eq] at hrow hjobRow
  obtain ⟨hid, hqueued⟩ := hrow
  obtain ⟨hjobId, hjobDocument⟩ := hjobRow
  rw [← hjobId] at hfailed hsucceeded hsingle hfurther
  obtain ⟨-, -, -, -, document₃, job₃, -, -, -, hjobs₃, -, -, -, -, -, hstatus, -, hcount⟩ :=
    retries_transparent hreachable hdocument hjob (hjobDocument.trans hid.symm)
      (.more (.none _) hfailed) hsucceeded (.single hfurther) hsingle
  rw [← hid]
  use job₃, hjobs₃, hstatus
  rw [hcount hqueued]
  rfl

end System

end KnowledgeSearch

import KnowledgeSearch.System.Concurrency
import KnowledgeSearch.System.Withdrawal

/-!
# Fresh runs keep attempts apart

`System.Ordered` is the invariant of the runs in which every transaction finds the rows it saves
as it has read them: an attempt between the commit of `_start_job` and its final or failure
transaction is at a processing document of its own, and what a call of `delete` has removed stays
removed. From it `Concurrent.attempts_exclusive` derives that at most one call runs a job at a
time, and that the attempts counted by a job are those that began.
-/

namespace KnowledgeSearch

open Database

/-! ### Attempts and the rows -/

/-- A call that runs at a document goes on to do so, or has just started its job, or moves it in
its last transaction. -/
theorem Delivery.Steps.runs {S : Services} {s s' : Stores} {delivery delivery' : Delivery}
    {event : DeliveryEvent} (h : Delivery.Steps S s delivery event s' delivery') :
  (s'.db = s.db ∧ ∀ a, delivery'.running = some a → delivery.running = some a)
    ∨ (∃ document document' job job', delivery'.running = some ⟨job.id, document.id⟩
      ∧ Moved .start s.db s'.db document document' job job' [])
    ∨ ∃ a move document document' job job' added, delivery.running = some a
      ∧ delivery'.running = none ∧ document.id = a.documentId
      ∧ Moved move s.db s'.db document document' job job' added
  := by
  cases h with
  | start hidle hcount hmoved =>
      right
      left
      exact ⟨_, _, _, _, rfl, hmoved⟩
  | finalise hid hcount hnone hrows hmoved =>
      right
      right
      exact ⟨_, _, _, _, _, _, _, rfl, rfl, hid, hmoved⟩
  | record hid hcount hstatus hmoved =>
      right
      right
      exact ⟨_, _, _, _, _, _, _, rfl, rfl, hid, hmoved⟩
  | interrupt hrunning hevent =>
      left
      use rfl
      intro a ha
      rw [hrunning]
      apply ha
  | load | prepare | embed | ensure | upsert | upsertPart =>
      left
      use rfl
      intro a ha
      apply ha
  | refuse | skip | unrecorded | recordNothing | clean | crash =>
      left
      use rfl
      intro a ha
      cases ha

/-- The attempts a job counts after a step are those before it and those the step begins. -/
theorem Delivery.Steps.counts {S : Services} {s s' : Stores} {delivery delivery' : Delivery}
    {event : DeliveryEvent} (h : Delivery.Steps S s delivery event s' delivery')
    {job' : IngestionJob} (hjob' : job' ∈ s'.db.jobs) :
  ∃ job ∈ s.db.jobs, job.id = job'.id
    ∧ job'.attemptCount = job.attemptCount + delivery'.starts job.id
  := by
  have hmoved : ∀ {move : Move} {db : Database} {document document' : Document}
      {job job₁ : IngestionJob} {added : List Chunk} (n : ℤ),
      Moved move s.db db document document' job job₁ added → job' ∈ db.jobs →
      job₁.attemptCount = job.attemptCount + n → ∃ j ∈ s.db.jobs, j.id = job'.id
        ∧ job'.attemptCount = j.attemptCount + if job.id = j.id then n else 0 := by
    intro move db document document' job job₁ added n hmoved hjob' hcount
    rcases (hmoved.mem_jobs job').mp hjob' with rfl | ⟨hmem, hne⟩
    · use job, hmoved.job_mem, hmoved.job_revises.1.symm
      rw [if_pos rfl, hcount]
    · use job', hmem, rfl
      rw [if_neg (Ne.symm hne), add_zero]
  cases h with
  | start hidle hcount hmove =>
      obtain ⟨j, hmem, hid, hj⟩ := hmoved 1 hmove hjob' hcount
      use j, hmem, hid
      rw [hj]
      simp only [Delivery.starts, Nat.cast_ite, Nat.cast_one, Nat.cast_zero]
  | finalise hid hcount hnone hrows hmove | record hid hcount hstatus hmove =>
      obtain ⟨j, hmem, hid, hj⟩ := hmoved 0 hmove hjob' (by rw [hcount, add_zero])
      use j, hmem, hid
      rw [hj, ite_self]
      rfl
  | _ =>
      use job', hjob', rfl
      exact (add_zero _).symm

/-- A step of `delete` leaves the attempts alone that the jobs count. -/
theorem Deletion.Steps.counts {S : Services} {s s' : Stores} {deletion deletion' : Deletion}
    {event : DeletionEvent} (h : Deletion.Steps S s deletion event s' deletion')
    (hdb : s.db.Coherent) {job : IngestionJob} (hjob : job ∈ s'.db.jobs) :
  job ∈ s.db.jobs
  := by
  rcases h.changes hdb with hsame | ⟨row, document, job₁, hmoved, -⟩ | ⟨document, -, hremoved⟩
  · rw [hsame] at hjob
    apply hjob
  · rcases (hmoved.mem_jobs job).mp hjob with rfl | ⟨hmem, -⟩
    · apply hmoved.job_mem
    · apply hmem
  · apply ((hremoved.mem_jobs job).mp hjob).1

namespace System

variable {S : Services} {s s' : System}

/-! ### The invariant -/

/-- Every attempt that runs is at a processing document of its own, and what a call of `delete`
has removed is not there. -/
structure Ordered (S : Services) (s : System) : Prop where
  sound : s.Sound S
  processing : ∀ i a, (s.deliveries i).running = some a →
    ∃ document job, s.stores.db.At a.documentId .processing document job
  apart : ∀ i j a b, (s.deliveries i).running = some a → (s.deliveries j).running = some b →
    a.documentId = b.documentId → i = j
  cleared : ∀ i d, (s.deletions i).Cleared s.stores d

namespace Ordered

/-- A sound system in which no call is under way. -/
theorem of_quiescent (h : s.Sound S) (hquiescent : s.Quiescent) :
  s.Ordered S
  := by
  have hnone : ∀ i a, (s.deliveries i).running ≠ some a := by
    intro i a ha
    have hattempt := Delivery.attempt_of_running ha
    rw [hquiescent.2.1 i] at hattempt
    cases hattempt
  constructor
  · apply h
  · intro i a ha
    exact absurd ha (hnone i a)
  · intro i j a b ha
    exact absurd ha (hnone i a)
  · intro i d
    apply Deletion.cleared_of_not_begun
    rw [hquiescent.2.2 i]
    rintro document hdocument
    cases hdocument

/-- No attempt runs at a document that is not there or is being deleted. -/
theorem ne_of_marked (h : s.Ordered S) {d : Uuid} (hmarked : s.stores.db.Marked d) {i : ℕ}
    {a : Attempt} (ha : (s.deliveries i).running = some a) :
  a.documentId ≠ d
  := by
  rintro rfl
  obtain ⟨document, job, hat⟩ := h.processing i a ha
  apply hat.not_marked _ hmarked
  simp [Phase.document]

/-- The document of a call of `delete` that has begun is being deleted. -/
theorem marked_of_deletion (h : s.Ordered S) {i : ℕ} {document : Document}
    (hdocument : (s.deletions i).document = some document) :
  s.stores.db.Marked document.id
  := h.sound.deleting i document hdocument

/-- A step of `process` keeps the attempts at processing documents of their own. -/
theorem delivery_apart {i : ℕ} {event : DeliveryEvent} {stores : Stores} {delivery : Delivery}
    (h : s.Ordered S)
    (hsteps : Delivery.Steps S s.stores (s.deliveries i) event stores delivery) :
  (∀ j a, (Function.update s.deliveries i delivery j).running = some a →
      ∃ document job, stores.db.At a.documentId .processing document job)
    ∧ ∀ j k a b, (Function.update s.deliveries i delivery j).running = some a →
      (Function.update s.deliveries i delivery k).running = some b →
      a.documentId = b.documentId → j = k
  := by
  rcases hsteps.runs with ⟨hdb, hrunning⟩ | ⟨document, document', job, job', hstarted, hmoved⟩
    | ⟨a, move, document, document', job, job', added, hrunning, hended, hid, hmoved⟩
  · -- the attempts are those there were
    have hold : ∀ j a, (Function.update s.deliveries i delivery j).running = some a →
        (s.deliveries j).running = some a := by
      intro j a ha
      by_cases hj : j = i
      · subst hj
        rw [Function.update_self] at ha
        apply hrunning a ha
      · rw [Function.update_of_ne hj] at ha
        apply ha
    constructor
    · intro j a ha
      rw [hdb]
      apply h.processing j a (hold j a ha)
    · intro j k a b ha hb
      apply h.apart j k a b (hold j a ha) (hold k b hb)
  · -- a document that can be started is not one an attempt runs at
    have hne : ∀ j a, (s.deliveries j).running = some a → a.documentId ≠ document.id := by
      intro j a ha
      obtain ⟨row, job₁, hat⟩ := h.processing j a ha
      apply hmoved.ne_of_next h.sound.coherent hat rfl
    constructor
    · intro j a ha
      by_cases hj : j = i
      · subst hj
        rw [Function.update_self, hstarted] at ha
        cases ha
        obtain ⟨p, hat⟩ := h.sound.coherent.at_of_job hmoved.document_mem hmoved.job_mem
          hmoved.job_document
        obtain ⟨q, hnext, hat'⟩ := hmoved.at_self hat
        obtain rfl := Phase.next_start hnext
        use document', job'
      · rw [Function.update_of_ne hj] at ha
        obtain ⟨row, job₁, hat⟩ := h.processing j a ha
        use row, job₁
        apply hmoved.at_other (hne j a ha) hat
    · intro j k a b ha hb hab
      by_cases hj : j = i <;> by_cases hk : k = i
      · rw [hj, hk]
      · rw [hj, Function.update_self, hstarted] at ha
        rw [Function.update_of_ne hk] at hb
        cases ha
        exact absurd hab.symm (hne k b hb)
      · rw [Function.update_of_ne hj] at ha
        rw [hk, Function.update_self, hstarted] at hb
        cases hb
        exact absurd hab (hne j a ha)
      · rw [Function.update_of_ne hj] at ha
        rw [Function.update_of_ne hk] at hb
        apply h.apart j k a b ha hb hab
  · -- the other attempts are at other documents
    have hold : ∀ j b, (Function.update s.deliveries i delivery j).running = some b →
        j ≠ i ∧ (s.deliveries j).running = some b := by
      intro j b hb
      by_cases hj : j = i
      · rw [hj, Function.update_self, hended] at hb
        cases hb
      · rw [Function.update_of_ne hj] at hb
        use hj
    constructor
    · intro j b hb
      obtain ⟨hj, hb⟩ := hold j b hb
      obtain ⟨row, job₁, hat⟩ := h.processing j b hb
      use row, job₁
      apply hmoved.at_other _ hat
      rintro hbd
      apply hj (h.apart j i b a hb hrunning (hbd.trans hid))
    · intro j k b b' hb hb'
      apply h.apart j k b b' (hold j b hb).2 (hold k b' hb').2

/-- Steps of a delivery preserve the invariant. -/
theorem delivery {i : ℕ} {event : DeliveryEvent} {stores : Stores} {delivery : Delivery}
    (h : s.Ordered S)
    (hsteps : Delivery.Steps S s.stores (s.deliveries i) event stores delivery) :
  ({ s with stores, deliveries := Function.update s.deliveries i delivery } : System).Ordered S
  where
  sound := h.sound.delivery hsteps
  processing := (h.delivery_apart hsteps).1
  apart := (h.delivery_apart hsteps).2
  cleared := by
    intro k d
    by_cases hbegun : ∃ document, (s.deletions k).document = some document ∧ document.id = d
    · obtain ⟨document, hdocument, rfl⟩ := hbegun
      apply (h.cleared k document.id).mono
      · apply hsteps.unindexed (h.sound.deliveries i)
        intro a ha
        apply h.ne_of_marked (h.marked_of_deletion hdocument) ha
      · intro hunfiled
        apply hunfiled.less
        rw [hsteps.fs_eq]
        apply FileSystem.Less.refl
    · apply Deletion.cleared_of_not_begun
      intro document hdocument hid
      apply hbegun
      use document, hdocument

/-- Steps of a deletion preserve the invariant. -/
theorem deletion {i : ℕ} {event : DeletionEvent} {stores : Stores} {deletion : Deletion}
    (h : s.Ordered S)
    (hsteps : Deletion.Steps S s.stores (s.deletions i) event stores deletion) :
  ({ s with stores, deletions := Function.update s.deletions i deletion } : System).Ordered S
  where
  sound := h.sound.deletion hsteps
  processing := by
    intro j a ha
    obtain ⟨row, job, hat⟩ := h.processing j a ha
    use row, job
    rcases hsteps.changes h.sound.coherent with hdb | ⟨row, document, job₁, hmoved, -⟩
      | ⟨document, hdocument, hremoved⟩
    · simp only [hdb]
      apply hat
    · apply hmoved.at_other (hmoved.ne_of_next h.sound.coherent hat rfl) hat
    · apply hremoved.at_other _ hat
      apply h.ne_of_marked (h.marked_of_deletion hdocument) ha
  apart := h.apart
  cleared := by
    intro k d
    by_cases hk : k = i
    · subst hk
      simp only [Function.update_self]
      by_cases hbegun : ∃ document, deletion.document = some document ∧ document.id = d
      · obtain ⟨document, hdocument, rfl⟩ := hbegun
        have hfollows := (h.sound.deletion hsteps).deletions k
        simp only [Function.update_self] at hfollows
        obtain ⟨t, ht, hnames⟩ := hfollows document hdocument
        have hcleared := h.cleared k document.id
        rw [hnames.id_eq] at hcleared ⊢
        apply hsteps.cleared h.sound.stores h.sound.distinct ht (h.sound.deletions k) hcleared
      · apply Deletion.cleared_of_not_begun
        intro document hdocument hid
        apply hbegun
        use document, hdocument
    · simp only [Function.update_of_ne hk]
      apply (h.cleared k d).mono hsteps.unindexed
      intro hunfiled
      apply hunfiled.less (hsteps.less (h.sound.deletions i))

/-- Steps of calls of `process` and `delete` preserve the invariant. -/
theorem takes {event : Event} (h : s.Ordered S) (htakes : s.Takes S event s') :
  s'.Ordered S
  := by
  cases htakes with
  | delivery hsteps => apply h.delivery hsteps
  | deletion hsteps => apply h.deletion hsteps

end Ordered

/-- The attempts a job counts after a step of a call are those before it and those the step
begins. -/
theorem Takes.counts {event : Event} (htakes : s.Takes S event s') (hdb : s.stores.db.Coherent)
    {job' : IngestionJob} (hjob' : job' ∈ s'.stores.db.jobs) :
  ∃ job ∈ s.stores.db.jobs, job.id = job'.id
    ∧ job'.attemptCount = job.attemptCount + s'.starts event job.id
  := by
  cases htakes with
  | delivery hsteps =>
      simp only [starts, Function.update_self]
      apply hsteps.counts hjob'
  | deletion hsteps =>
      use job', hsteps.counts hdb hjob', rfl
      exact (add_zero _).symm

end System

/-! ### Fresh runs -/

namespace Concurrent

variable {S : Services} {c₀ c c' : Concurrent}

/-- No two calls run the same job, and each job counts the attempts that have begun, beside those
it counted at first; a job that was queued counted none. -/
def Exclusive (c₀ c : Concurrent) : Prop :=
  (∀ i j a b, (c.system.deliveries i).running = some a → (c.system.deliveries j).running = some b →
      a.jobId = b.jobId → i = j)
    ∧ ∀ job ∈ c.system.stores.db.jobs, ∃ job₀ ∈ c₀.system.stores.db.jobs, job₀.id = job.id
      ∧ job.attemptCount = job₀.attemptCount + c.begun job.id
      ∧ (job₀.status = .queued → job.attemptCount = c.begun job.id)

/-- The invariant of a fresh run. -/
structure Counted (S : Services) (c₀ c : Concurrent) : Prop where
  ordered : c.system.Ordered S
  counts : ∀ job ∈ c.system.stores.db.jobs, ∃ job₀ ∈ c₀.system.stores.db.jobs, job₀.id = job.id
    ∧ job.attemptCount = job₀.attemptCount + c.begun job.id

namespace Counted

/-- A step of a fresh run preserves the invariant. -/
theorem step {access : Access} (h : Counted S c₀ c) (hfresh : c.fresh access = true)
    (hstep : Concurrent.step S c access = some c') :
  Counted S c₀ c'
  := by
  rcases takes_of_step h.ordered.sound hfresh hstep with ⟨hsystem, hbegun⟩ | ⟨event, htakes, hbegun⟩
  · constructor
    · rw [hsystem]
      apply h.ordered
    · rw [hsystem, hbegun]
      apply h.counts
  · constructor
    · apply h.ordered.takes htakes
    · intro job' hjob'
      obtain ⟨job, hjob, hid, hcount⟩ := htakes.counts h.ordered.sound.coherent hjob'
      obtain ⟨job₀, hjob₀, hid₀, hcount₀⟩ := h.counts job hjob
      use job₀, hjob₀, hid₀.trans hid
      rw [hcount, hcount₀, hid, hbegun, Nat.cast_add, add_assoc]

/-- The invariant holds at the end of a fresh run. -/
theorem of_run {es : List Access} (hstart : (machine S).Start c₀)
    (hfresh : (machine S).Meets (fun c access => c.fresh access = true) c₀ es)
    (hrun : (machine S).run c₀ es = some c) :
  Counted S c₀ c
  := by
  obtain ⟨s, hreachable, hquiescent, rfl⟩ := hstart
  apply (machine S).run_induction (I := Counted S (of s)) _ _ hfresh hrun
  · intro c access c' h hfresh hstep
    apply h.step hfresh hstep
  · constructor
    · apply System.Ordered.of_quiescent (System.Sound.of_reachable hreachable) hquiescent
    · intro job hjob
      use job, hjob, rfl
      exact (add_zero _).symm

/-- Attempts at the same job are attempts at the same document. -/
theorem documentId_eq (h : Counted S c₀ c) {i j : ℕ} {a b : Attempt}
    (ha : (c.system.deliveries i).running = some a)
    (hb : (c.system.deliveries j).running = some b) (hab : a.jobId = b.jobId) :
  a.documentId = b.documentId
  := by
  obtain ⟨t, ht, hta⟩ := (h.ordered.sound.deliveries i).attempt (Delivery.attempt_of_running ha)
  obtain ⟨u, hu, hub⟩ := (h.ordered.sound.deliveries j).attempt (Delivery.attempt_of_running hb)
  obtain rfl : t = u := by
    apply h.ordered.sound.distinct.jobs t ht u hu
    rw [← hta.jobId_eq, ← hub.jobId_eq, hab]
  rw [hta.documentId_eq, hub.documentId_eq]

end Counted

/-- In a fresh run at most one call runs a job at a time, and a job counts the attempts that have
begun. -/
theorem attempts_exclusive {es : List Access} (hstart : (machine S).Start c₀)
    (hfresh : (machine S).Meets (fun c access => c.fresh access = true) c₀ es)
    (hrun : (machine S).run c₀ es = some c) :
  c₀.Exclusive c
  := by
  have h := Counted.of_run hstart hfresh hrun
  constructor
  · intro i j a b ha hb hab
    apply h.ordered.apart i j a b ha hb (h.documentId_eq ha hb hab)
  · intro job hjob
    obtain ⟨job₀, hjob₀, hid, hcount⟩ := h.counts job hjob
    use job₀, hjob₀, hid, hcount
    intro hqueued
    obtain ⟨s, hreachable, -, rfl⟩ := hstart
    have hzero : job₀.attemptCount = 0 :=
      (System.Sound.of_reachable hreachable).coherent.unattempted job₀ hjob₀ hqueued
    rw [hcount, hzero, zero_add]

/-! ### The sample job -/

/-- The sample deployment after a run that begins in a given state. -/
def sampleRun (s : System) (es : List Access) : Concurrent :=
  ((machine .sample).run (of s) es).getD (of s)

theorem run_sampleRun {s : System} {es : List Access}
    (h : ((machine .sample).run (of s) es).isSome = true) :
  (machine .sample).run (of s) es = some (sampleRun s es)
  := by
  obtain ⟨c, hc⟩ := Option.isSome_iff_exists.mp h
  rw [sampleRun, hc, Option.getD_some]

/-- Calls number zero of the sample deployment may be followed by overlapping transactions once
they have ended. -/
theorem start_sampleAfter {es : List Event}
    (h : ((System.machine .sample).run System.initial es).isSome = true)
    (hcalls : ∀ e ∈ es, e.call = 0)
    (hended : ((System.sampleAfter es).submissions 0).ids = none
      ∧ ((System.sampleAfter es).deliveries 0).attempt = none
      ∧ ((System.sampleAfter es).deletions 0).document = none) :
  (machine .sample).Start (of (System.sampleAfter es))
  := by
  use System.sampleAfter es, System.reachable_sampleAfter h
  use System.quiescent_sampleAfter h hcalls hended

theorem start_sampleUpload :
  (machine .sample).Start (of (System.sampleAfter System.sampleUpload))
  := by
  apply start_sampleAfter
  · decide +kernel
  · simp [System.sampleUpload, Event.call]
  · decide +kernel

/-- The statements of `_start_job` of a delivery of the sample job. -/
def sampleStartReads (i : ℕ) : List Access :=
  [.read (.delivery i) (.startJob System.sampleJobId),
    .read (.delivery i) (.startJob System.sampleJobId)]

/-- The commit of `_start_job` of a delivery of the sample job. -/
def sampleStartCommit (i : ℕ) (start : Timestamp) : Access :=
  .commit (.delivery i (.start System.sampleJobId (System.clockFrom start) none))

/-- Two deliveries of the sample job, the second of which begins to read after the first has
committed its start. -/
def sampleSeparate : List Access :=
  sampleStartReads 0 ++ [sampleStartCommit 0 10] ++ sampleStartReads 1 ++ [sampleStartCommit 1 20]

/-- Two deliveries of the sample job that both read before either commits. -/
def sampleOverlap : List Access :=
  sampleStartReads 0 ++ sampleStartReads 1 ++ [sampleStartCommit 0 10, sampleStartCommit 1 20]

theorem attempts_exclusive_sample :
  (of (System.sampleAfter System.sampleUpload)).Exclusive
    (sampleRun (System.sampleAfter System.sampleUpload) sampleSeparate)
  := by
  refine attempts_exclusive start_sampleUpload ?_ (run_sampleRun ?_)
  · decide +kernel
  · decide +kernel

/-- Of two deliveries that read the queued job before either commits both run it. -/
theorem not_attempts_exclusive_sampleOverlap :
  ¬ ∀ (c₀ c : Concurrent) (es : List Access), (machine .sample).Start c₀ →
    (machine .sample).run c₀ es = some c → c₀.Exclusive c
  := by
  intro h
  obtain ⟨hexclusive, -⟩ := h _ (sampleRun (System.sampleAfter System.sampleUpload) sampleOverlap)
    sampleOverlap start_sampleUpload (run_sampleRun (by decide +kernel))
  have hsame := hexclusive 0 1 ⟨System.sampleJobId, Services.sampleDocumentId⟩
    ⟨System.sampleJobId, Services.sampleDocumentId⟩ (by decide +kernel) (by decide +kernel) rfl
  cases hsame

end Concurrent

end KnowledgeSearch

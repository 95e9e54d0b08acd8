import KnowledgeSearch.System.Retries
import KnowledgeSearch.System.Times
import KnowledgeSearch.System.Withdrawal

/-!
# Recovery

A document is recoverable when calls of `process` and `delete` in which nothing fails settle it:
they leave it ready, or nothing of it. A document that was left processing by a worker that died,
or whose failure was not recorded, is refused by both calls. `System.recoverable_iff` says that
these are the only ones, and that they do not occur in runs whose steps are `Recorded`. It is about
timed steps: of a row that a save stamps with the time it has, nothing is said.
-/

namespace KnowledgeSearch

open Database

/-! ### Calls in which nothing fails -/

/-- The step is one of a call that has begun, no service fails in it, the process does not die,
and the clock reads `clock`. -/
def DeliveryEvent.Healthy (clock : Clock) : DeliveryEvent → Prop
  | finalise clock' fault | markFailed clock' fault => clock' = clock ∧ fault = none
  | load fault | prepare fault | embed fault | ensure fault => fault = none
  | upsert fault | cleanup fault => fault = none
  | start _ _ _ | crash => False

/-- How many steps of a call of `process` are to come at most. -/
def Delivery.remaining : Delivery → ℕ
  | started _ => 8
  | loaded _ _ => 7
  | prepared _ _ _ => 6
  | embedded _ _ _ _ => 5
  | ensured _ _ _ _ => 4
  | upserted _ _ => 3
  | failing _ _ => 2
  | cleaning _ _ => 1
  | idle | returned | raised _ | died => 0

/-- Before the final transaction of a delivery or its failure transaction, there is always a
healthy step, and it leaves the database alone. -/
theorem Delivery.proceeds {S : Services} {s : Stores} {delivery : Delivery} {a : Attempt}
    (ha : delivery.running = some a) (hupserted : ∀ chunks, delivery ≠ .upserted a chunks)
    (hfailing : ∀ error, delivery ≠ .failing a error) (clock : Clock) :
  ∃ (event : DeliveryEvent) (s' : Stores) (delivery' : Delivery), event.Healthy clock
    ∧ delivery.step S s event = some (s', delivery') ∧ s'.db = s.db
    ∧ delivery'.running = some a ∧ delivery'.remaining < delivery.remaining
  := by
  cases delivery with
  | started b =>
      obtain rfl := Option.some.inj ha
      use .load none
      cases hget : s.db.getDocument b.documentId <;>
        simp [step, hget, DeliveryEvent.Healthy, running, attempt, remaining]
  | loaded b document =>
      obtain rfl := Option.some.inj ha
      use .prepare none
      cases hprepare : prepareStored S s document <;>
        simp [step, hprepare, DeliveryEvent.Healthy, running, attempt, remaining]
  | prepared b document chunks =>
      obtain rfl := Option.some.inj ha
      use .embed none
      simp [step, DeliveryEvent.Healthy, running, attempt, remaining]
  | embedded b document chunks vectors =>
      obtain rfl := Option.some.inj ha
      use .ensure none
      simp [step, DeliveryEvent.Healthy, running, attempt, remaining]
  | ensured b document chunks vectors =>
      obtain rfl := Option.some.inj ha
      use .upsert none
      cases hupsert : s.index.upsert document chunks vectors (fun _ => true) <;>
        simp [step, hupsert, DeliveryEvent.Healthy, running, attempt, remaining]
  | upserted b chunks =>
      obtain rfl := Option.some.inj ha
      exact absurd rfl (hupserted chunks)
  | failing b error =>
      obtain rfl := Option.some.inj ha
      exact absurd rfl (hfailing error)
  | idle | cleaning | returned | raised | died => cases ha

theorem DeliveryEvent.Healthy.not_start {event : DeliveryEvent} {clock : Clock}
    (h : event.Healthy clock) :
  ¬ event.IsStart
  := by
  cases event with
  | start => cases h
  | _ => exact not_false

/-- The readings of the clock in consecutive steps, `time k` in the step `k`, do not go back, and go on
from one step to the next. -/
structure Chronological (time : ℕ → Clock) : Prop where
  within : ∀ k m n, m ≤ n → time k m ≤ time k n
  across : ∀ k m n, time k m < time (k + 1) n

theorem Chronological.first_le {time : ℕ → Clock} (h : Chronological time) (k n : ℕ) :
  time k 0 ≤ time k n
  := h.within k 0 n (Nat.zero_le n)

theorem Chronological.tail {time : ℕ → Clock} (h : Chronological time) :
  Chronological fun k => time (k + 1)
  where
  within k := h.within (k + 1)
  across k := h.across (k + 1)

/-- A call of `process` or of `delete`. -/
inductive Call where
  | process (jobId : Uuid)
  | delete (documentId : Uuid)

/-- The call is one of `process` for the job of the document `d`, or one of `delete` for it. -/
def Call.Concerns (db : Database) (d : Uuid) : Call → Prop
  | process jobId => ∃ job ∈ db.jobs, job.documentId = d ∧ job.id = jobId
  | delete documentId => documentId = d

/-- The step ends an attempt and records nothing: the worker dies, or the transaction that is to
record the failure raises. -/
def Delivery.Lapses (s : Stores) (delivery : Delivery) (event : DeliveryEvent) : Prop :=
  event = .crash
    ∨ ∃ a error clock fault error', delivery = .failing a error ∧ event = .markFailed clock fault
      ∧ transaction fault (markFailed clock a.documentId a.jobId (failureCode error) s.db)
        = .error error'

/-- A document that is processing after a step of a delivery has that delivery at it, or was there
before and did not have it, unless the delivery lapses. -/
theorem Delivery.Steps.processing {S : Services} {s s' : Stores} {delivery delivery' : Delivery}
    {event : DeliveryEvent} (h : Delivery.Steps S s delivery event s' delivery') {row : Document}
    (hrow : row ∈ s'.db.documents) (hprocessing : row.status = .processing) :
  (∃ a, delivery'.running = some a ∧ a.documentId = row.id)
    ∨ row ∈ s.db.documents ∧ ((∀ a, delivery.running = some a → a.documentId ≠ row.id)
      ∨ delivery.Lapses s event)
  := by
  -- the delivery stays at its document
  have hstays : ∀ {a : Attempt}, s'.db = s.db → delivery.running = some a →
      delivery'.running = some a → (∃ a, delivery'.running = some a ∧ a.documentId = row.id)
        ∨ row ∈ s.db.documents ∧ ((∀ a, delivery.running = some a → a.documentId ≠ row.id)
          ∨ delivery.Lapses s event) := by
    intro a hdb ha ha'
    by_cases hid : a.documentId = row.id
    · left
      use a, ha'
    · right
      rw [← hdb]
      use hrow
      left
      intro b hb
      rw [ha] at hb
      obtain rfl := Option.some.inj hb
      apply hid
  -- the delivery was at a document that is not processing any more
  have hleaves : ∀ {a : Attempt}, delivery.running = some a → a.documentId ≠ row.id →
      ∀ b, delivery.running = some b → b.documentId ≠ row.id := by
    intro a ha hne b hb
    rw [ha] at hb
    obtain rfl := Option.some.inj hb
    apply hne
  cases h with
  | refuse hidle | skip hidle =>
      right
      use hrow
      left
      intro a ha
      rw [attempt_of_running ha] at hidle
      cases hidle
  | @start _ clock fault db document document' job job' hidle hcount hmoved =>
      rcases (hmoved.mem_documents row).mp hrow with rfl | ⟨hold, -⟩
      · left
        use ⟨job.id, document.id⟩, rfl, hmoved.document_revises.id_eq.symm
      · right
        use hold
        left
        intro a ha
        rw [attempt_of_running ha] at hidle
        cases hidle
  | load | prepare | embed | ensure | upsert | upsertPart => apply hstays rfl rfl rfl
  | interrupt hrunning _ => apply hstays rfl hrunning rfl
  | finalise hid hcount hnone hrows hmoved =>
      obtain ⟨hold, hne⟩ := hmoved.processing_mem (by simp) hrow hprocessing
      right
      use hold
      left
      rw [hid] at hne
      apply hleaves rfl hne.symm
  | unrecorded hmark =>
      right
      use hrow
      right
      right
      exact ⟨_, _, _, _, _, rfl, rfl, hmark⟩
  | recordNothing hstatus =>
      right
      use hrow
      left
      apply hleaves rfl
      intro hid
      apply hstatus row hrow hid.symm hprocessing
  | record hid hcount hstatus hmoved =>
      obtain ⟨hold, hne⟩ := hmoved.processing_mem (by simp) hrow hprocessing
      right
      use hold
      left
      rw [hid] at hne
      apply hleaves rfl hne.symm
  | clean =>
      right
      use hrow
      left
      intro a ha
      cases ha
  | crash =>
      right
      use hrow, Or.inr (Or.inl rfl)

namespace System

variable {S : Services} {s s₁ s' : System} {i : ℕ} {t : Ticket} {d : Uuid} {time : ℕ → Clock}

/-- The calls run one after the other, each to its end in timed steps, and nothing fails in these. -/
inductive Completes (S : Services) : (ℕ → Clock) → List Call → System → System → Prop
  | nil (time : ℕ → Clock) (s : System) : Completes S time [] s s
  | process {time : ℕ → Clock} {s s₁ s' : System} {i : ℕ} {jobId : Uuid}
      {events : List DeliveryEvent} {calls : List Call}
      (hhealthy : ∀ (k : ℕ) (event : DeliveryEvent), events[k]? = some event →
        event.Healthy (time (k + 1)))
      (hrun : (timed S).run s ((.start jobId (time 0) none :: events).map (.delivery i)) = some s₁)
      (hended : (s₁.deliveries i).attempt = none)
      (hrest : Completes S (fun k => time (events.length + 1 + k)) calls s₁ s') :
      Completes S time (.process jobId :: calls) s s'
  | delete {time : ℕ → Clock} {s s₁ s' : System} {i : ℕ} {documentId : Uuid}
      {events : List DeletionEvent} {calls : List Call}
      (hhealthy : ∀ event ∈ events, event.Healthy)
      (hrun : (timed S).run s ((.mark documentId (time 0) none :: events).map (.deletion i))
        = some s₁)
      (hended : (s₁.deletions i).document = none)
      (hrest : Completes S (fun k => time (events.length + 1 + k)) calls s₁ s') :
      Completes S time (.delete documentId :: calls) s s'

/-- The document is ready, or nothing of it is left. -/
def Settled (s : System) (d : Uuid) : Prop :=
  (∃ document ∈ s.stores.db.documents, document.id = d ∧ document.status = .ready)
    ∨ s.stores.Gone d

/-- Some calls for the document settle it when nothing fails, at whatever time they are made: the
clock must have gone on from the times stored for the document. -/
def Recoverable (S : Services) (s : System) (d : Uuid) : Prop :=
  ∃ calls : List Call, (∀ call ∈ calls, call.Concerns s.stores.db d)
    ∧ ∀ time, Chronological time → s.stores.db.StoredBefore d (time 0 0) →
      ∃ s', Completes S time calls s s' ∧ s'.Settled d

theorem Quiescent.not_running (h : s.Quiescent) {a : Attempt} :
  (s.deliveries i).running ≠ some a
  := by
  intro ha
  have hattempt := Delivery.attempt_of_running ha
  rw [h.2.1 i] at hattempt
  cases hattempt

/-! ### Interrupted documents -/

/-- The document is processing, but no delivery is at it any more. -/
structure Interrupted (S : Services) (s : System) (d : Uuid) : Prop where
  sound : s.Sound S
  processing : ∃ document job, s.stores.db.At d .processing document job
  unattended : ∀ i a, (s.deliveries i).running = some a → a.documentId ≠ d

namespace Interrupted

/-- When no call is under way, processing documents are interrupted. -/
theorem of_quiescent {document : Document} (hs : s.Sound S) (hquiescent : s.Quiescent)
    (hdocument : document ∈ s.stores.db.documents) (hprocessing : document.status = .processing) :
  s.Interrupted S document.id
  where
  sound := hs
  processing := ⟨document, hs.coherent.at_processing hdocument hprocessing⟩
  unattended _ _ ha := absurd ha hquiescent.not_running

/-- A call of `process` does nothing for an interrupted document. -/
theorem delivery_step {event : DeliveryEvent} (h : s.Interrupted S d)
    (hstep : System.step S s (.delivery i event) = some s') :
  s'.Interrupted S d
  := by
  have hsound := h.sound.step hstep
  have hunattended := h.unattended i
  obtain ⟨document, job, hat⟩ := h.processing
  rcases h.sound.step_cases hstep with ⟨_, _, _, _, _, he, -⟩
    | ⟨j, event', stores, delivery, he, hdel, rfl⟩ | ⟨_, _, _, _, he, -⟩
  · cases he
  · cases he
    have hnext : (∃ document job, stores.db.At d .processing document job)
        ∧ ∀ a, delivery.running = some a → a.documentId ≠ d := by
      generalize s.deliveries i = before at hdel hunattended
      cases hdel with
      | @start _ clock fault db row row' job₁ job' hidle hcount hmoved =>
          have hne : d ≠ row.id := hmoved.ne_of_next h.sound.coherent hat rfl
          use ⟨document, job, hmoved.at_other hne hat⟩
          intro a ha
          obtain rfl := Option.some.inj ha
          apply hne.symm
      | finalise hid hcount hnone hrows hmoved =>
          have hne := hunattended _ rfl
          rw [← hid] at hne
          use ⟨document, job, hmoved.at_other hne.symm hat⟩
          intro a ha
          cases ha
      | record hid hcount hstatus hmoved =>
          have hne := hunattended _ rfl
          rw [← hid] at hne
          use ⟨document, job, hmoved.at_other hne.symm hat⟩
          intro a ha
          cases ha
      | interrupt hrunning _ =>
          use ⟨document, job, hat⟩
          intro a ha
          obtain rfl := Option.some.inj ha
          apply hunattended _ hrunning
      | _ =>
          use ⟨document, job, hat⟩
          first
            | exact hunattended
            | intro a ha
              cases ha
    constructor
    · apply hsound
    · apply hnext.1
    · intro k a ha
      by_cases hk : k = i
      · subst hk
        simp only [Function.update_self] at ha
        apply hnext.2 a ha
      · simp only [Function.update_of_ne hk] at ha
        apply h.unattended k a ha
  · cases he

/-- A call of `delete` does nothing for an interrupted document. -/
theorem deletion_step {event : DeletionEvent} (h : s.Interrupted S d)
    (hstep : System.step S s (.deletion i event) = some s') :
  s'.Interrupted S d
  := by
  have hsound := h.sound.step hstep
  obtain ⟨document, job, hat⟩ := h.processing
  rcases h.sound.step_cases hstep with ⟨_, _, _, _, _, he, -⟩ | ⟨_, _, _, _, he, -⟩
    | ⟨j, event', stores, deletion, he, hdel, rfl⟩
  · cases he
  · cases he
  · cases he
    constructor
    · apply hsound
    · use document, job
      rcases hdel.changes h.sound.coherent with hdb | ⟨row, row', job₁, hmoved, -⟩
        | ⟨row, hrow, hremoved⟩
      · simp only [hdb]
        apply hat
      · apply hmoved.at_other (hmoved.ne_of_next h.sound.coherent hat rfl) hat
      · apply hremoved.at_other _ hat
        rintro rfl
        -- the document of a call of `delete` is being deleted
        have hdeleting := h.sound.deleting i row hrow document hat.document_mem hat.document_id
        rw [hat.document_status] at hdeleting
        cases hdeleting
    · apply h.unattended

theorem deliveries_run {events : List DeliveryEvent} (h : s.Interrupted S d)
    (hrun : (machine S).run s (events.map (.delivery i)) = some s') :
  s'.Interrupted S d
  := by
  apply (machine S).run_map_invariant _ h hrun
  intro s e s' h hstep
  apply h.delivery_step hstep

theorem deletions_run {events : List DeletionEvent} (h : s.Interrupted S d)
    (hrun : (machine S).run s (events.map (.deletion i)) = some s') :
  s'.Interrupted S d
  := by
  apply (machine S).run_map_invariant _ h hrun
  intro s e s' h hstep
  apply h.deletion_step hstep

/-- No sequence of calls changes an interrupted document. -/
theorem completes {calls : List Call} (h : s.Interrupted S d)
    (hcalls : Completes S time calls s s') :
  s'.Interrupted S d
  := by
  induction hcalls with
  | nil => apply h
  | process _ hrun _ _ ih => apply ih (h.deliveries_run (run_timed_iff.mp hrun).1)
  | delete _ hrun _ _ ih => apply ih (h.deletions_run (run_timed_iff.mp hrun).1)

theorem not_settled (h : s.Interrupted S d) :
  ¬ s.Settled d
  := by
  obtain ⟨document, job, hat⟩ := h.processing
  rintro (⟨row, hrow, hid, hready⟩ | hgone)
  · obtain rfl := Table.eq_of_key_eq hrow hat.document_mem (hid.trans hat.document_id.symm)
    rw [hat.document_status] at hready
    cases hready
  · apply hgone.documents document hat.document_mem hat.document_id

/-- An interrupted document is not recoverable. -/
theorem not_recoverable (h : s.Interrupted S d) :
  ¬ s.Recoverable S d
  := by
  rintro ⟨calls, -, hcalls⟩
  obtain ⟨document, job, hat⟩ := h.processing
  -- a clock that starts after the times stored for the document, and ticks once a step
  have htime : ∃ now, s.stores.db.StoredBefore d now := by
    use max document.updatedAt (max job.updatedAt (job.startedAt.getD 0)) + 1
    constructor
    · intro row hrow hid
      rw [Table.eq_of_key_eq hrow hat.document_mem (hid.trans hat.document_id.symm)]
      apply Int.lt_add_one_of_le (le_max_left _ _)
    · intro j hj hid
      rw [hat.job_unique j hj hid]
      use Int.lt_add_one_of_le (le_max_of_le_right (le_max_left _ _))
      intro started hs
      rw [hs]
      exact Int.lt_add_one_of_le (le_max_of_le_right (le_max_right _ _))
  obtain ⟨now, hnow⟩ := htime
  have hchronological : Chronological fun k _ => now + k := by
    constructor
    · intro _ _ _ _
      rfl
    · intro k _ _
      simp
  have hstored : s.stores.db.StoredBefore d (now + (0 : ℕ)) := hnow.mono (by simp)
  obtain ⟨s', hcompletes, hsettled⟩ := hcalls _ hchronological hstored
  apply (h.completes hcompletes).not_settled hsettled

end Interrupted

/-! ### Completing a call of `process` -/

/-- A step of an attempt on its own. -/
theorem Between.advance {event : DeliveryEvent} {stores : Stores} {delivery : Delivery} {count : ℤ}
    {revision : ℕ} (h : Between S s t)
    (halone : (s.deliveries i).Alone S s.stores t count revision) (hevent : ¬ event.IsStart)
    (hstep : (s.deliveries i).step S s.stores event = some (stores, delivery)) :
  ∃ s₁, System.step S s (.delivery i event) = some s₁ ∧ s₁.stores = stores
    ∧ s₁.deliveries i = delivery ∧ Between S s₁ t ∧ delivery.Alone S stores t count revision
  := by
  have hsystem : System.step S s (.delivery i event)
      = some { s with stores, deliveries := Function.update s.deliveries i delivery } := by
    simp [System.step, hstep]
  have halone' := halone.step h.sound.distinct h.sound.coherent h.derived h.issued
    (h.sound.deliveries i) hevent (h.sound.delivery_steps hstep)
  use { s with stores, deliveries := Function.update s.deliveries i delivery }, hsystem, rfl
  use Function.update_self .., h.step hsystem

/-- The rest of a call of `process` in which nothing fails ends, and leaves its document ready or
failed. -/
def Ends (S : Services) (i : ℕ) (t : Ticket) (count : ℤ) (time : ℕ → Clock) (s : System) : Prop :=
  ∃ (events : List DeliveryEvent) (s' : System),
    (∀ (k : ℕ) (event : DeliveryEvent), events[k]? = some event → event.Healthy (time k))
    ∧ (timed S).run s (events.map (.delivery i)) = some s' ∧ Between S s' t
    ∧ (s'.deliveries i).attempt = none
    ∧ (s'.stores.Stage t .ready count ∨ s'.stores.Stage t .failed count)
    ∧ s'.stores.db.StoredBefore t.documentId (time events.length 0)

/-- The call has ended. -/
theorem Ends.done {count : ℤ} (h : Between S s t) (hended : (s.deliveries i).attempt = none)
    (hstage : s.stores.Stage t .ready count ∨ s.stores.Stage t .failed count)
    (hstored : s.stores.db.StoredBefore t.documentId (time 0 0)) :
  Ends S i t count time s
  := by
  use [], s
  simp [h, hended, hstage, hstored]

/-- One more healthy step before the end. -/
theorem Ends.step {count : ℤ} {event : DeliveryEvent} (hhealthy : event.Healthy (time 0))
    (htimed : s.Timed (.delivery i event))
    (hstep : System.step S s (.delivery i event) = some s₁)
    (h : Ends S i t count (fun k => time (k + 1)) s₁) :
  Ends S i t count time s
  := by
  obtain ⟨events, s', hevents, hrun, h', hended, hstage, hstored⟩ := h
  use event :: events, s'
  constructor
  · intro k e he
    cases k with
    | zero =>
        obtain rfl := Option.some.inj he
        apply hhealthy
    | succ k => apply hevents k e he
  constructor
  · apply (timed S).run_cons_iff.mpr
    use s₁, step_timed_iff.mpr ⟨htimed, hstep⟩, hrun
  · exact ⟨h', hended, hstage, hstored⟩

/-- A healthy step of an attempt is timed when the clock has gone on from the stored times. -/
theorem timed_of_healthy {a : Attempt} {clock : Clock} {event : DeliveryEvent}
    (ha : (s.deliveries i).running = some a) (hstored : s.stores.db.StoredBefore a.documentId (clock 0))
    (hclock : ∀ n, clock 0 ≤ clock n) (hhealthy : event.Healthy clock) :
  s.Timed (.delivery i event)
  := by
  intro stamping hstamping
  cases event with
  | finalise _ _ | markFailed _ _ =>
      obtain ⟨rfl, -⟩ := hhealthy
      obtain ⟨b, hb, rfl⟩ := Option.map_eq_some_iff.mp hstamping
      obtain rfl := Option.some.inj (ha.symm.trans hb)
      apply hstored.new le_rfl _ _ (hclock 1)
  | start => cases hhealthy
  | _ => cases hstamping

/-- An attempt on its own ends when nothing fails. -/
theorem Between.ends {count : ℤ} {revision : ℕ} {a : Attempt} : ∀ (n : ℕ) {s : System}
    {time : ℕ → Clock}, Between S s t → Chronological time →
    s.stores.db.StoredBefore t.documentId (time 0 0) → (s.deliveries i).running = some a →
    (s.deliveries i).Alone S s.stores t count revision → (s.deliveries i).remaining ≤ n →
    Ends S i t count time s
  | 0, s, time, h, htime, hstored, ha, halone, hn => by
      cases hi : s.deliveries i <;> simp [hi, Delivery.remaining, Delivery.running,
        Delivery.attempt] at hn ha
  | n + 1, s, time, h, htime, hstored, ha, halone, hn => by
      have hnow : ∀ m, time 0 m < time 1 0 := fun m => htime.across 0 m 0
      obtain ⟨hid, ⟨document, job, hat, hcount⟩, -⟩ := halone.stage_of_running ha
      -- a healthy step is timed
      have htimed : ∀ {event : DeliveryEvent}, event.Healthy (time 0) → s.Timed (.delivery i event) := by
        intro event hhealthy
        apply timed_of_healthy ha _ (htime.first_le 0) hhealthy
        rw [hid]
        apply hstored
      -- a step that leaves the attempt running
      have hrunning : ∀ {event : DeliveryEvent} {stores : Stores} {delivery : Delivery},
          event.Healthy (time 0) →
          (s.deliveries i).step S s.stores event = some (stores, delivery) →
          stores.db = s.stores.db → delivery.running = some a →
          delivery.remaining < (s.deliveries i).remaining → Ends S i t count time s := by
        intro event stores delivery hhealthy hstep hdb ha₁ hless
        obtain ⟨s₁, hsystem, rfl, hi, h₁, halone₁⟩ := h.advance halone hhealthy.not_start hstep
        subst hi
        apply Ends.step hhealthy (htimed hhealthy) hsystem
        apply h₁.ends n htime.tail _ ha₁ halone₁ (by omega)
        rw [hdb]
        apply hstored.mono (hnow 0).le
      by_cases hupserted : ∃ chunks, s.deliveries i = .upserted a chunks
      · obtain ⟨chunks, hi⟩ := hupserted
        cases hfinalise : finalise (time 0) a.documentId a.jobId chunks s.stores.db with
        | error e =>
            have hstep : (s.deliveries i).step S s.stores (.finalise (time 0) none)
                = some (s.stores, .failing a e) := by
              simp [hi, Delivery.step, hfinalise]
            have hhealthy : DeliveryEvent.Healthy (time 0) (.finalise (time 0) none) := ⟨rfl, rfl⟩
            apply hrunning hhealthy hstep
            · rfl
            · rfl
            · rw [hi]
              simp [Delivery.remaining]
        | ok db =>
            have hstep : (s.deliveries i).step S s.stores (.finalise (time 0) none)
                = some ({ s.stores with db }, .returned) := by
              simp [hi, Delivery.step, hfinalise]
            have hhealthy : DeliveryEvent.Healthy (time 0) (.finalise (time 0) none) := ⟨rfl, rfl⟩
            obtain ⟨s₁, hsystem, hstores, hreturned, h₁, halone₁⟩ :=
              h.advance halone hhealthy.not_start hstep
            apply Ends.step hhealthy (htimed hhealthy) hsystem
            apply Ends.done h₁
            · rw [hreturned]
              rfl
            · cases halone₁ with
              | returned hcompleted _ =>
                  rw [hstores]
                  apply Or.inl hcompleted.stage
              | running hb => cases hb
            · rw [hstores]
              apply (hstored.mono (hnow 0).le).finalise hnow hfinalise
      by_cases hfailing : ∃ error, s.deliveries i = .failing a error
      · obtain ⟨error, hi⟩ := hfailing
        have hjobId : job.id = a.jobId := by
          apply (h.sound.linked_delivery (Delivery.attempt_of_running ha) job hat.job_mem).mp
          rw [hid, hat.job_document]
        obtain ⟨hjobTime, hstarted⟩ := hstored.jobs job hat.job_mem hat.job_document
        obtain ⟨db, hmark⟩ : ∃ db, markFailed (time 0) t.documentId job.id (failureCode error)
            s.stores.db = .ok db := hat.markFailed_isOk
          (hstored.documents document hat.document_mem hat.document_id).le
          (le_trans hjobTime.le (htime.first_le 0 1))
          (fun started hs => le_trans (hstarted started hs).le (htime.first_le 0 1)) error
        rw [hjobId, ← hid] at hmark
        have hstep : (s.deliveries i).step S s.stores (.markFailed (time 0) none)
            = some ({ s.stores with db }, .cleaning a error) := by
          simp [hi, Delivery.step, hmark]
        have hhealthy : DeliveryEvent.Healthy (time 0) (.markFailed (time 0) none) := ⟨rfl, rfl⟩
        obtain ⟨s₁, hsystem, hstores, hcleaning, h₁, halone₁⟩ :=
          h.advance halone hhealthy.not_start hstep
        apply Ends.step hhealthy (htimed hhealthy) hsystem
        -- the cleanup follows
        obtain ⟨s₂, hcleanup, hdb₂, hraised⟩ : ∃ s₂,
            System.step S s₁ (.delivery i (.cleanup none)) = some s₂
              ∧ s₂.stores.db = s₁.stores.db ∧ s₂.deliveries i = .raised error := by
          simp [System.step, Delivery.step, hcleaning]
        have hcleanupHealthy : DeliveryEvent.Healthy (time 1) (.cleanup none) := rfl
        have hcleanupTimed : s₁.Timed (.delivery i (.cleanup none)) := by
          rintro _ ⟨⟩
        apply Ends.step hcleanupHealthy hcleanupTimed hcleanup
        apply Ends.done (h₁.step hcleanup)
        · rw [hraised]
          rfl
        · right
          rw [Stores.Stage, hdb₂, hstores]
          cases halone₁ with
          | recorded _ hstage _ => apply hstage
          | running hb => cases hb
        · rw [hdb₂, hstores]
          apply (hstored.mono (lt_trans (hnow 0) (htime.across 1 0 0)).le).markFailed _ hmark
          intro m
          apply lt_trans (hnow m) (htime.across 1 0 0)
      · obtain ⟨event, stores, delivery, hhealthy, hstep, hdb, ha₁, hless⟩ :=
          Delivery.proceeds (S := S) (s := s.stores) ha (not_exists.mp hupserted)
            (not_exists.mp hfailing) (time 0)
        apply hrunning hhealthy hstep hdb ha₁ hless

/-! ### Recovery -/

/-- A delivery leaves the deletions where they stand. -/
theorem deletions_of_deliveries {events : List DeliveryEvent} {s : System}
    (hrun : (machine S).run s (events.map (.delivery i)) = some s') :
  s'.deletions = s.deletions
  := by
  apply (machine S).run_map_invariant (I := fun s' => s'.deletions = s.deletions) _ rfl hrun
  intro s₁ event s₂ hsame hstep
  obtain ⟨⟨stores, delivery⟩, -, hs₂⟩ := Option.bind_eq_some_iff.mp hstep
  rw [← Option.some.inj hs₂]
  apply hsame

/-- The steps of a call of `delete` after the first are timed, as they stamp no rows. -/
theorem meets_timed_of_healthy {events : List DeletionEvent} (hhealthy : ∀ event ∈ events, event.Healthy) :
  (machine S).Meets Timed s (events.map (.deletion i))
  := by
  apply Machine.meets_of_forall
  intro s e he stamping hstamping
  obtain ⟨event, hevent, rfl⟩ := List.mem_map.mp he
  cases event with
  | mark => cases hhealthy _ hevent
  | _ => cases hstamping

/-- A call of `delete` on its own removes a document that it may mark. -/
theorem Sound.completes_delete {document : Document} (h : s.Sound S) (ht : t ∈ s.issued)
    (hnames : t.Names document) (hdocument : document ∈ s.stores.db.documents)
    (hdeletions : ∀ j, (s.deletions j).document = none)
    (hdeliveries : ∀ j, (s.deliveries j).attempt = none)
    (hstatus : document.status = .deleting
      ∨ (document.status = .ready ∨ document.status = .failed) ∧ document.updatedAt < time 0 0) :
  ∃ s', Completes S time [.delete document.id] s s' ∧ s'.Settled document.id
  := by
  have hunattempted : ∀ j a, (s.deliveries j).attempt = some a → a.documentId ≠ t.documentId := by
    intro j a ha
    rw [hdeliveries j] at ha
    cases ha
  have hcleared : ∀ j, (s.deletions j).Cleared s.stores t.documentId := by
    intro j
    apply Deletion.cleared_of_not_begun
    rw [hdeletions j]
    intro document' hdocument'
    cases hdocument'
  obtain ⟨events, s', hhealthy, hrun, hreturned, hgone⟩ :=
    h.delete_completes (i := 0) ht hnames hdocument (hdeletions 0) hunattempted hcleared
      (hstatus.imp_right fun hmarkable => ⟨hmarkable.1, hmarkable.2.le⟩)
  have hmeets : (machine S).Meets Timed s
      ((.mark document.id (time 0) none :: events).map (.deletion 0)) := by
    constructor
    · rintro _ ⟨⟩
      constructor
      · intro row hrow hid hlisted
        obtain rfl := Table.eq_of_key_eq hrow hdocument hid
        rcases hstatus with hdeleting | ⟨-, hbefore⟩
        · simp [hdeleting] at hlisted
        · apply hbefore.ne
      · intro job _ _ hlisted
        cases hlisted
    · intro _ _
      apply meets_timed_of_healthy hhealthy
  use s'
  constructor
  · apply Completes.delete hhealthy (run_timed_iff.mpr ⟨hrun, hmeets⟩)
    · rw [hreturned]
      rfl
    · apply Completes.nil
  · apply Or.inr hgone

/-- A call of `process` for a ticket begins with a timed step when the clock has gone on from the stored
times. -/
theorem Between.timed_start (h : Between S s t) (hstored : s.stores.db.StoredBefore t.documentId (time 0 0))
    (htime : Chronological time) :
  s.Timed (.delivery i (.start t.jobId (time 0) none))
  := by
  intro stamping hstamping
  obtain ⟨row, hrow, rfl⟩ := Option.map_eq_some_iff.mp hstamping
  have hdocument : row.documentId = t.documentId :=
    (h.sound.linked h.issued row (Table.mem_of_get hrow)).mpr (Table.get_eq_some_iff.mp hrow).2
  rw [← hdocument] at hstored
  apply hstored.new (htime.first_le 0 2) _ _ (htime.first_le 0 3)

/-- A queued document is recoverable when no call is under way: its job is processed, and
whatever comes of it is deleted. -/
theorem Between.recoverable_of_queued {document : Document} {job : IngestionJob}
    (h : Between S s t) (hquiescent : s.Quiescent)
    (hat : s.stores.db.At t.documentId .queued document job) (htime : Chronological time)
    (hstored : s.stores.db.StoredBefore t.documentId (time 0 0)) :
  ∃ s', Completes S time [.process job.id, .delete t.documentId] s s' ∧ s'.Settled t.documentId
  := by
  obtain ⟨-, hdeliveries, hdeletions⟩ := hquiescent
  have hjobId : job.id = t.jobId := (h.sound.linked h.issued job hat.job_mem).mp hat.job_document
  obtain ⟨hjobTime, -⟩ := hstored.jobs job hat.job_mem hat.job_document
  obtain ⟨db, hstartJob⟩ : ∃ db, startJob (time 0) job.id s.stores.db = .ok (some t.documentId, db) :=
    hat.startJob_isOk
    (le_trans (hstored.documents document hat.document_mem hat.document_id).le (htime.first_le 0 2))
    (le_trans hjobTime.le (htime.first_le 0 3))
  obtain ⟨s₁, hstart, hdb, hstarted⟩ : ∃ s₁,
      System.step S s (.delivery 0 (.start t.jobId (time 0) none)) = some s₁
        ∧ s₁.stores.db = db ∧ s₁.deliveries 0 = .started ⟨t.jobId, t.documentId⟩ := by
    rw [hjobId] at hstartJob
    simp [System.step, Delivery.step, hdeliveries 0, hstartJob]
  obtain ⟨-, halone⟩ := h.start ⟨document, job, hat, rfl⟩ hstart hstarted
  have hstored₁ : s₁.stores.db.StoredBefore t.documentId (time 1 0) := by
    rw [hdb]
    apply (hstored.mono (htime.across 0 0 0).le).startJob _ hstartJob
    exact fun n => htime.across 0 n 0
  have htimed := h.timed_start hstored htime (i := 0)
  have hrunning : (s₁.deliveries 0).running = some ⟨t.jobId, t.documentId⟩ := by
    rw [hstarted]
    rfl
  obtain ⟨events, s₂, hevents, hrun, h₂, hended, hstage, hstored₂⟩ :=
    (h.step hstart).ends _ htime.tail hstored₁ hrunning halone le_rfl
  have htimedRun : (timed S).run s
      ((.start t.jobId (time 0) none :: events).map (.delivery 0)) = some s₂ := by
    apply (timed S).run_cons_iff.mpr
    use s₁, step_timed_iff.mpr ⟨htimed, hstart⟩, hrun
  have hrun' := (run_timed_iff.mp htimedRun).1
  obtain ⟨document₂, hmem₂, hid₂, hstatus₂⟩ : ∃ document₂ ∈ s₂.stores.db.documents,
      document₂.id = t.documentId
        ∧ (document₂.status = .ready ∨ document₂.status = .failed) := by
    rcases hstage with ⟨document₂, job₂, hat₂, -⟩ | ⟨document₂, job₂, hat₂, -⟩
    · use document₂, hat₂.document_mem, hat₂.document_id, Or.inl hat₂.document_status
    · use document₂, hat₂.document_mem, hat₂.document_id, Or.inr hat₂.document_status
  obtain ⟨u, hu, hnames⟩ := h₂.sound.ticket hmem₂
  obtain rfl := h₂.sound.distinct.documents u hu t h₂.issued (hnames.id_eq.symm.trans hid₂)
  have hdeletions₂ : ∀ j, (s₂.deletions j).document = none := by
    intro j
    rw [deletions_of_deliveries hrun']
    apply hdeletions
  have hdeliveries₂ : ∀ j, (s₂.deliveries j).attempt = none := by
    intro j
    by_cases hj : j = 0
    · rw [hj]
      apply hended
    · obtain ⟨-, hother, -⟩ := others_of_run (j := j) hrun' (by simp [Event.call, Ne.symm hj])
      rw [hother]
      apply hdeliveries
  obtain ⟨s', hdelete, hsettled⟩ : ∃ s', Completes S (fun k => time (events.length + 1 + k))
      [.delete document₂.id] s₂ s' ∧ s'.Settled document₂.id := h₂.sound.completes_delete
    hu hnames hmem₂ hdeletions₂ hdeliveries₂
    (Or.inr ⟨hstatus₂, hstored₂.documents document₂ hmem₂ hid₂⟩)
  rw [hid₂] at hdelete hsettled
  use s'
  constructor
  · rw [hjobId]
    apply Completes.process hevents htimedRun hended hdelete
  · apply hsettled

/-- When no call is under way, documents that are not processing are recoverable. -/
theorem recoverable_of_ne_processing {document : Document} (hreachable : (machine S).Reachable s)
    (hquiescent : s.Quiescent) (hdocument : document ∈ s.stores.db.documents)
    (hstatus : document.status ≠ .processing) :
  s.Recoverable S document.id
  := by
  have hs := Sound.of_reachable hreachable
  obtain ⟨t, ht, hnames⟩ := hs.ticket hdocument
  obtain ⟨p, job, hat⟩ := hs.coherent.documents document hdocument
  have hdelete : document.status = .deleting ∨ document.status = .failed →
      s.Recoverable S document.id := by
    intro hdeletable
    use [.delete document.id]
    constructor
    · simp [Call.Concerns]
    · intro time _ hstored
      obtain ⟨-, hdeliveries, hdeletions⟩ := hquiescent
      apply hs.completes_delete ht hnames hdocument hdeletions hdeliveries
      rcases hdeletable with hdeleting | hfailed
      · apply Or.inl hdeleting
      · apply Or.inr ⟨Or.inr hfailed, hstored.documents document hdocument rfl⟩
  cases p with
  | queued =>
      use [.process job.id, .delete document.id]
      constructor
      · simp only [List.mem_cons, List.not_mem_nil, or_false, forall_eq_or_imp, forall_eq,
          Call.Concerns, and_true]
        use job, hat.job_mem, hat.job_document
      · intro time htime hstored
        have hb : Between S s t := ⟨hs, derived_of_reachable hreachable, ht⟩
        rw [hnames.id_eq] at hat hstored ⊢
        apply hb.recoverable_of_queued hquiescent hat htime hstored
  | processing => exact absurd hat.document_status hstatus
  | ready =>
      use []
      constructor
      · simp
      · intro time _ _
        use s, .nil time s
        left
        use document, hdocument, rfl, hat.document_status
  | failed => apply hdelete (Or.inr hat.document_status)
  | deletingReady | deletingFailed => apply hdelete (Or.inl hat.document_status)

/-! ### Runs that record their failures -/

/-- The document `d` does not depend on the delivery `i`: it is not processing, or another delivery
is at it. -/
def Spared (s : System) (i : ℕ) (d : Uuid) : Prop :=
  (∀ document ∈ s.stores.db.documents, document.id = d → document.status ≠ .processing)
    ∨ ∃ j a, j ≠ i ∧ (s.deliveries j).running = some a ∧ a.documentId = d

/-- The steps that leave no document interrupted: when a worker dies during an attempt, or the
transaction that is to record the failure of one raises, the document does not depend on it. That
transaction raises when the database fails, or the clock is behind the stored times. -/
def Recorded (s : System) : Event → Prop
  | .delivery i .crash =>
      ∀ a, (s.deliveries i).running = some a → s.Spared i a.documentId
  | .delivery i (.markFailed clock fault) =>
      ∀ a error, s.deliveries i = .failing a error →
        (fault = none
          ∧ (∀ document ∈ s.stores.db.documents, document.id = a.documentId →
            document.updatedAt ≤ clock 0)
          ∧ ∀ job ∈ s.stores.db.jobs, job.documentId = a.documentId → job.updatedAt ≤ clock 1
            ∧ ∀ started ∈ job.startedAt, started ≤ clock 1)
        ∨ s.Spared i a.documentId
  | _ => True

/-- Every processing document has a delivery at it. -/
def Attended (s : System) : Prop :=
  ∀ document ∈ s.stores.db.documents, document.status = .processing →
    ∃ i a, (s.deliveries i).running = some a ∧ a.documentId = document.id

/-- A delivery at a document that depends on it does not lapse in a recorded step. -/
theorem Sound.spared_of_recorded {event : DeliveryEvent} {a : Attempt} {row : Document}
    (h : s.Sound S) (hrecorded : s.Recorded (.delivery i event))
    (hlapses : (s.deliveries i).Lapses s.stores event)
    (ha : (s.deliveries i).running = some a) (hrow : row ∈ s.stores.db.documents)
    (hid : a.documentId = row.id) (hprocessing : row.status = .processing) :
  ∃ j b, j ≠ i ∧ (s.deliveries j).running = some b ∧ b.documentId = row.id
  := by
  have hspared : s.Spared i a.documentId := by
    rcases hlapses with rfl | ⟨b, error, clock, fault, error', hfailing, rfl, hmark⟩
    · apply hrecorded a ha
    · have hab : a = b := by
        rw [hfailing] at ha
        apply (Option.some.inj ha).symm
      subst hab
      rcases hrecorded a error hfailing with ⟨rfl, hdocuments, hjobs⟩ | hspared
      · -- the transaction succeeds after all
        obtain ⟨job, hat⟩ := h.coherent.at_processing hrow hprocessing
        have hjobId : job.id = a.jobId := by
          apply (h.linked_delivery (Delivery.attempt_of_running ha) job hat.job_mem).mp
          rw [hid, hat.job_document]
        obtain ⟨hjobTime, hstarted⟩ := hjobs job hat.job_mem (hat.job_document.trans hid.symm)
        obtain ⟨db, hok⟩ := hat.markFailed_isOk (hdocuments row hrow hid.symm) hjobTime hstarted error
        rw [← hid, hjobId] at hok
        rw [transaction_none, hok] at hmark
        cases hmark
      · apply hspared
  rcases hspared with hnot | ⟨j, b, hj, hb, hbd⟩
  · exact absurd hprocessing (hnot row hrow hid.symm)
  · use j, b, hj, hb
    rw [hbd, hid]

/-- Recorded steps leave every processing document attended. -/
theorem Attended.step {e : Event} (h : s.Attended) (hs : s.Sound S) (hrecorded : s.Recorded e)
    (hstep : System.step S s e = some s') :
  s'.Attended
  := by
  intro row hrow hprocessing
  rcases hs.step_cases hstep with ⟨i, event, stores, submission, issued, -, hsub, hissue, rfl⟩
    | ⟨i, event, stores, delivery, rfl, hdel, rfl⟩ | ⟨i, event, stores, deletion, -, hdel, rfl⟩
  · apply h row _ hprocessing
    rcases hsub.changes (hs.submissions i) with hdb | ⟨document, job, -, -, hinserted⟩
      | ⟨_, _, _, _, hmoved⟩
    · rw [← hdb]
      apply hrow
    · rcases (hinserted.mem_documents row).mp hrow with hold | rfl
      · apply hold
      · rw [hinserted.document_status] at hprocessing
        cases hprocessing
    · apply (hmoved.processing_mem (by simp) hrow hprocessing).1
  · rcases hdel.processing hrow hprocessing with ⟨a, ha, hid⟩ | ⟨hold, hbefore⟩
    · use i, a
      simp only [Function.update_self]
      use ha, hid
    · have hother : ∃ j b, j ≠ i ∧ (s.deliveries j).running = some b ∧ b.documentId = row.id := by
        obtain ⟨j, b, hb, hbd⟩ := h row hold hprocessing
        by_cases hj : j = i
        · subst hj
          rcases hbefore with hnot | hlapses
          · exact absurd hbd (hnot b hb)
          · apply hs.spared_of_recorded hrecorded hlapses hb hold hbd hprocessing
        · use j, b
      obtain ⟨j, b, hj, hb, hbd⟩ := hother
      use j, b
      simp only [Function.update_of_ne hj]
      use hb, hbd
  · apply h row _ hprocessing
    rcases hdel.changes hs.coherent with hdb | ⟨_, _, _, hmoved, -⟩ | ⟨_, -, hremoved⟩
    · rw [← hdb]
      apply hrow
    · apply (hmoved.processing_mem (by simp) hrow hprocessing).1
    · apply ((hremoved.mem_documents row).mp hrow).1

/-- When no call is under way after timed steps, the recoverable documents are those that are not
processing; and when the steps are also recorded all documents are recoverable. -/
theorem recoverable_iff {es : List Event} (htimed : (timed S).run initial es = some s)
    (hquiescent : s.Quiescent) :
  (∀ document ∈ s.stores.db.documents,
      s.Recoverable S document.id ↔ document.status ≠ .processing)
    ∧ ((machine S).Meets Recorded initial es →
      ∀ document ∈ s.stores.db.documents, s.Recoverable S document.id)
  := by
  obtain ⟨hrun, -⟩ := run_timed_iff.mp htimed
  have hreachable : (machine S).Reachable s := ⟨initial, es, rfl, hrun⟩
  constructor
  · intro document hdocument
    constructor
    · intro hrecoverable hprocessing
      have hinterrupted : s.Interrupted S document.id :=
        .of_quiescent (Sound.of_reachable hreachable) hquiescent hdocument hprocessing
      apply hinterrupted.not_recoverable hrecoverable
    · apply recoverable_of_ne_processing hreachable hquiescent hdocument
  · intro hrecorded document hdocument
    apply recoverable_of_ne_processing hreachable hquiescent hdocument
    intro hprocessing
    have hattended : s.Sound S ∧ s.Attended := by
      apply (machine S).run_induction _ _ hrecorded hrun
      · rintro s e s' ⟨hs, hattended⟩ hr hstep
        use hs.step hstep
        apply hattended.step hs hr hstep
      · use Sound.initial
        simp [Attended, initial, Stores.initial, Database.initial]
    obtain ⟨i, a, ha, -⟩ := hattended.2 document hdocument hprocessing
    apply hquiescent.not_running ha

/-- The sample document is recoverable once it is uploaded. -/
theorem recoverable_iff_sample :
  (sampleAfter sampleUpload).Recoverable .sample Services.sampleDocumentId
  := by
  have hrun : (timed .sample).run initial sampleUpload = some (sampleAfter sampleUpload) :=
    run_timed_iff.mpr ⟨run_sampleAfter [] _ (by decide +kernel), by decide +kernel⟩
  have hquiescent : (sampleAfter sampleUpload).Quiescent :=
    quiescent_sampleAfter (by decide +kernel) (by simp [sampleUpload, Event.call])
      (by decide +kernel)
  have hrecorded : (machine .sample).Meets Recorded initial sampleUpload := by
    apply Machine.meets_of_forall
    intro s e he
    simp only [sampleUpload, List.mem_cons, List.not_mem_nil, or_false] at he
    rcases he with rfl | rfl | rfl | rfl | rfl <;> trivial
  have hrows : ((sampleAfter sampleUpload).stores.db.documents.rows.any fun document =>
      document.id = Services.sampleDocumentId) = true := by
    decide +kernel
  obtain ⟨document, hdocument, hid⟩ := List.any_eq_true.mp hrows
  rw [← of_decide_eq_true hid]
  apply (recoverable_iff hrun hquiescent).2 hrecorded document hdocument

/-- The worker of the sample document dies during an attempt. -/
def sampleCrash : List Event :=
  sampleUpload ++ [sampleStart 10, .delivery 0 .crash]

/-- A document whose worker died is not recoverable. -/
theorem not_recoverable_sampleCrash :
  ¬ ∀ S es s, (timed S).run initial es = some s → s.Quiescent →
    ∀ document ∈ s.stores.db.documents, s.Recoverable S document.id
  := by
  intro hall
  have hrun : (machine .sample).run initial sampleCrash = some (sampleAfter sampleCrash) :=
    run_sampleAfter [] _ (by decide +kernel)
  have htimed : (timed .sample).run initial sampleCrash = some (sampleAfter sampleCrash) :=
    run_timed_iff.mpr ⟨hrun, by decide +kernel⟩
  have hquiescent : (sampleAfter sampleCrash).Quiescent :=
    quiescent_sampleAfter (by decide +kernel)
      (by simp [sampleCrash, sampleUpload, sampleStart, Event.call]) (by decide +kernel)
  have hrows : ((sampleAfter sampleCrash).stores.db.documents.rows.any fun document =>
      document.status = .processing) = true := by
    decide +kernel
  obtain ⟨document, hdocument, hprocessing⟩ := List.any_eq_true.mp hrows
  have hreachable : (machine .sample).Reachable (sampleAfter sampleCrash) :=
    ⟨initial, sampleCrash, rfl, hrun⟩
  have hinterrupted : (sampleAfter sampleCrash).Interrupted .sample document.id :=
    .of_quiescent (Sound.of_reachable hreachable) hquiescent hdocument
      (of_decide_eq_true hprocessing)
  apply hinterrupted.not_recoverable
  apply hall .sample sampleCrash _ htimed hquiescent document hdocument

end System

end KnowledgeSearch

import KnowledgeSearch.Providers.RedisQueue
import KnowledgeSearch.System.Messages

/-!
# The messages sent to Redis

`Dispatching` has the messages that have been sent and not been cancelled beside the system whose calls send
and cancel them, and `Dispatching.Represents` relates them with the list of jobs that is the queue of the
system. The two may come apart when cancelling a message succeeds and seems to fail; then the document of the
message is being deleted.

A message stays on record when a worker takes it or when it expires: a delivery of a job is a step of the
system, whatever makes a worker call `process_ingestion_job`.
-/

namespace KnowledgeSearch

open RedisIngestionQueue (message messageId)

/-- The system and the messages that have been sent and not been cancelled. -/
structure Dispatching where
  system : System
  sent : List QueuedJob

/-- A step of the system that does not call the queue, or a call of the queue. -/
inductive DispatchEvent where
  | service (event : Event)
  | enqueue (call : ℕ) (fault : Option Bool)
  | cancel (call : ℕ) (fault : Option Bool)

def Event.callsQueue : Event → Bool
  | .submission _ (.enqueue _) | .deletion _ (.cancel _) => true
  | _ => false

namespace Dispatching

/-- A step, in which the calls of the queue have the outcome Redis gives them. -/
def step (S : Services) (s : Dispatching) : DispatchEvent → Option Dispatching
  | .service event =>
      if event.callsQueue then none
      else (System.step S s.system event).map fun system => { s with system }
  | .enqueue i fault =>
      match s.system.submissions i with
      | .inserted _ job =>
          let (sent, outcome) := RedisIngestionQueue.enqueue s.sent job.id fault
          (System.step S s.system (.submission i (.enqueue outcome))).map fun system =>
            ⟨system, sent⟩
      | _ => none
  | .cancel i fault =>
      match s.system.deletions i with
      | .cancelling _ (jobId :: _) =>
          let (sent, error) := RedisIngestionQueue.cancel s.sent jobId fault
          (System.step S s.system (.deletion i (.cancel error))).map fun system => ⟨system, sent⟩
      | _ => none

def initial : Dispatching where
  system := .initial
  sent := []

def machine (S : Services) : Machine Dispatching DispatchEvent where
  Start s := s = initial
  step := step S

/-- The message for the job of a ticket has been sent and not been cancelled, unless the document is being
deleted or is gone. -/
def Keeps (S : Services) (s : Dispatching) (t : Ticket) : Prop :=
  message t.jobId ∈ s.sent ∨ s.system.Conceals S t.documentId

/-- The messages on record are among those for the jobs of the queue, and those of the calls that have
returned are kept. -/
structure Represents (S : Services) (s : Dispatching) : Prop where
  reachable : (System.machine S).Reachable s.system
  sent : s.sent.Sublist (s.system.stores.queue.map message)
  returned : ∀ i document job, s.system.submissions i = .returned document job →
    ∃ t ∈ s.system.issued, t.documentId = document.id ∧ t.jobId = job.id ∧ s.Keeps S t

variable {S : Services} {s s' : Dispatching} {t : Ticket} {e : DispatchEvent}

end Dispatching

/-! ### The steps of the system -/

/-- A call of `submit` returns with the message it sent. -/
theorem Submission.returned_of_step {S : Services} {s s' : Stores} {submission : Submission}
    {event : SubmissionEvent} {document : Document} {job : IngestionJob}
    (h : submission.step S s event = some (s', .returned document job)) :
  submission = .inserted document job ∧ event = .enqueue .accepted
  := by
  cases event with
  | enqueue outcome =>
      cases submission with
      | inserted document' job' =>
          simp only [step] at h
          split at h
          · cases h
            exact ⟨rfl, rfl⟩
          · cases h
          · cases h
      | _ => cases h
  | begin filename contentType source documentId jobId =>
      simp only [step] at h
      split at h
      · cases h
      split at h
      · cases h
      split at h <;> cases h
  | save fault =>
      cases submission with
      | accepted t filename source =>
          simp only [step] at h
          split at h <;> cases h
      | _ => cases h
  | build clock =>
      cases submission with
      | saved t filename stored =>
          simp only [step] at h
          split at h <;> cases h
      | _ => cases h
  | insert fault =>
      cases submission with
      | built document job =>
          simp only [step] at h
          split at h <;> cases h
      | _ => cases h
  | removeFile fault =>
      cases submission with
      | conflicted document job | compensating document job error =>
          simp only [step] at h
          split at h <;> cases h
      | _ => cases h
  | lookUp fault =>
      cases submission with
      | lookingUp document job =>
          simp only [step] at h
          split at h <;> cases h
      | _ => cases h
  | markDispatchFailed clock fault =>
      cases submission with
      | undelivered document job message =>
          simp only [step] at h
          split at h <;> cases h
      | _ => cases h
  | crash =>
      simp only [step] at h
      split at h <;> cases h

/-- Calls that have returned stay so, until they are begun again. -/
theorem System.returned_of_step {S : Services} {s s' : System} {e : Event} {i : ℕ}
    {document : Document} {job : IngestionJob} (hstep : step S s e = some s')
    (hi : s'.submissions i = .returned document job) :
  s.submissions i = .returned document job
    ∨ e = .submission i (.enqueue .accepted) ∧ s.submissions i = .inserted document job
  := by
  rcases step_eq_some hstep with ⟨j, event, stores, submission, issued, rfl, hsub, -, rfl⟩
    | ⟨_, _, _, _, -, -, rfl⟩ | ⟨_, _, _, _, -, -, rfl⟩
  · by_cases hij : i = j
    · subst hij
      simp only [Function.update_self] at hi
      subst hi
      obtain ⟨hinserted, rfl⟩ := Submission.returned_of_step hsub
      right
      use rfl
    · left
      simpa only [Function.update_of_ne hij] using hi
  · apply Or.inl hi
  · apply Or.inl hi

/-- A step that does not call the queue leaves its messages. -/
theorem System.queue_eq_of_step {S : Services} {s s' : System} {e : Event} (hs : s.Sound S)
    (hcancels : s.Cancels) (hstep : step S s e = some s') (hcalls : e.callsQueue = false) :
  s'.stores.queue = s.stores.queue
  := by
  rcases step_eq_some hstep with ⟨i, event, stores, submission, issued, rfl, hsub, -, rfl⟩
    | ⟨i, event, stores, delivery, rfl, hdel, rfl⟩ | ⟨i, event, stores, deletion, rfl, hdel, rfl⟩
  · have hsent := Submission.sends_of_step hsub
    generalize s.submissions i = before at hsent
    cases hsent with
    | begin hqueue | quiet hqueue => exact hqueue
    | send => cases hcalls
  · apply (hs.delivery_steps hdel).queue_eq
  · have hwithholds := Deletion.withholds_of_step hs.stores (hcancels i) hdel
    generalize s.deletions i = before at hwithholds
    cases hwithholds with
    | quiet hqueue => exact hqueue
    | cancel => cases hcalls

namespace Dispatching

variable {S : Services} {s s' : Dispatching} {t : Ticket} {e : DispatchEvent}

/-- A step of Redis is one of the system. -/
inductive Calls (S : Services) (s s' : Dispatching) : DispatchEvent → Prop
  | service {event : Event} (hcalls : event.callsQueue = false)
      (hstep : System.step S s.system event = some s'.system) (hsent : s'.sent = s.sent) :
      Calls S s s' (.service event)
  | enqueue {i : ℕ} {fault : Option Bool} {document : Document} {job : IngestionJob}
      (hi : s.system.submissions i = .inserted document job)
      (hstep : System.step S s.system (.submission i
        (.enqueue (RedisIngestionQueue.enqueue s.sent job.id fault).2)) = some s'.system)
      (hsent : s'.sent = (RedisIngestionQueue.enqueue s.sent job.id fault).1) :
      Calls S s s' (.enqueue i fault)
  | cancel {i : ℕ} {fault : Option Bool} {document : Document} {jobId : Uuid} {jobIds : List Uuid}
      (hi : s.system.deletions i = .cancelling document (jobId :: jobIds))
      (hstep : System.step S s.system (.deletion i
        (.cancel (RedisIngestionQueue.cancel s.sent jobId fault).2)) = some s'.system)
      (hsent : s'.sent = (RedisIngestionQueue.cancel s.sent jobId fault).1) :
      Calls S s s' (.cancel i fault)

theorem calls_of_step (h : step S s e = some s') :
  Calls S s s' e
  := by
  cases e with
  | service event =>
      simp only [step] at h
      split at h
      · cases h
      rename_i hcalls
      obtain ⟨system, hstep, rfl⟩ := Option.map_eq_some_iff.mp h
      exact Calls.service (Bool.eq_false_iff.mpr hcalls) hstep rfl
  | enqueue i fault =>
      simp only [step] at h
      split at h
      · rename_i document job hi
        obtain ⟨system, hstep, rfl⟩ := Option.map_eq_some_iff.mp h
        exact Calls.enqueue hi hstep rfl
      · cases h
  | cancel i fault =>
      simp only [step] at h
      split at h
      · rename_i document jobId jobIds hi
        obtain ⟨system, hstep, rfl⟩ := Option.map_eq_some_iff.mp h
        exact Calls.cancel hi hstep rfl
      · cases h

theorem Calls.exists_step (h : Calls S s s' e) :
  ∃ event, System.step S s.system event = some s'.system
  := by
  cases h with
  | service _ hstep | enqueue _ hstep | cancel _ hstep => exact ⟨_, hstep⟩

/-! ### The messages -/

/-- Messages that are kept stay so. -/
theorem Keeps.step (hreachable : (System.machine S).Reachable s.system) (ht : t ∈ s.system.issued)
    (h : s.Keeps S t) (hcalls : Calls S s s' e) :
  s'.Keeps S t
  := by
  obtain ⟨event, hsystem⟩ := hcalls.exists_step
  rcases h with hmem | hconceals
  · cases hcalls with
    | service _ _ hsent =>
        left
        rw [hsent]
        apply hmem
    | @enqueue i fault _ _ _ _ hsent =>
        left
        rw [hsent]
        cases fault with
        | none => exact List.mem_append_left _ hmem
        | some delivered =>
            cases delivered with
            | false => exact hmem
            | true => exact List.mem_append_left _ hmem
    | @cancel i fault document jobId jobIds hi hstep hsent =>
        have hs := System.Sound.of_reachable hreachable
        by_cases hid : t.jobId = jobId
        · -- the message that is cancelled is that of the document
          rw [← hid] at hi
          right
          apply (hs.conceals_of_cancelling (System.sends_of_reachable hreachable).2 ht hi).step hsystem
        · left
          have hother : message t.jobId ∈ s.sent.filter (·.jobId ≠ messageId jobId) := by
            apply List.mem_filter.mpr ⟨hmem, _⟩
            apply decide_eq_true
            intro heq
            apply hid (RedisIngestionQueue.messageId_injective heq)
          rw [hsent]
          cases fault with
          | none => exact hother
          | some cancelled =>
              cases cancelled with
              | false => exact hmem
              | true => exact hother
  · right
    apply hconceals.step hsystem

/-- A call that sends a message sends it for the job of the system. -/
theorem sent_enqueue {stores stores' : Stores} {document : Document} {job : IngestionJob}
    {submission : Submission} {sent : List QueuedJob} {fault : Option Bool}
    (h : (Submission.inserted document job).step S stores
      (.enqueue (RedisIngestionQueue.enqueue sent job.id fault).2) = some (stores', submission))
    (hsent : sent.Sublist (stores.queue.map message)) :
  (RedisIngestionQueue.enqueue sent job.id fault).1.Sublist (stores'.queue.map message)
  := by
  have hmore : (sent ++ [message job.id]).Sublist ((stores.queue ++ [job.id]).map message) := by
    rw [List.map_append]
    apply hsent.append (List.Sublist.refl _)
  cases fault with
  | none =>
      cases h
      exact hmore
  | some delivered =>
      cases h
      cases delivered with
      | false => exact hsent
      | true => exact hmore

/-- A call that cancels a message cancels that of the system, unless it fails. -/
theorem sent_cancel {stores stores' : Stores} {document : Document} {jobId : Uuid}
    {jobIds : List Uuid} {deletion : Deletion} {sent : List QueuedJob} {fault : Option Bool}
    (h : (Deletion.cancelling document (jobId :: jobIds)).step S stores
      (.cancel (RedisIngestionQueue.cancel sent jobId fault).2) = some (stores', deletion))
    (hsent : sent.Sublist (stores.queue.map message)) :
  (RedisIngestionQueue.cancel sent jobId fault).1.Sublist (stores'.queue.map message)
  := by
  cases fault with
  | none =>
      cases h
      simp only [RedisIngestionQueue.cancel, ← RedisIngestionQueue.filter_map_message]
      apply hsent.filter
  | some cancelled =>
      cases h
      cases cancelled with
      | false => exact hsent
      | true => exact List.filter_sublist.trans hsent

/-- A step keeps the messages on record among those for the jobs of the queue. -/
theorem Represents.sent_step (h : s.Represents S) (hcalls : Calls S s s' e) :
  s'.sent.Sublist (s'.system.stores.queue.map message)
  := by
  cases hcalls with
  | service hcalls hstep hsent =>
      have hs := System.Sound.of_reachable h.reachable
      have hcancels := (System.sends_of_reachable h.reachable).2
      rw [hsent, System.queue_eq_of_step hs hcancels hstep hcalls]
      apply h.sent
  | enqueue hi hstep hsent =>
      obtain ⟨hsub, -⟩ := System.step_submission hstep
      rw [hi] at hsub
      rw [hsent]
      apply sent_enqueue hsub h.sent
  | cancel hi hstep hsent =>
      obtain ⟨⟨stores, deletion⟩, hdel, hs'⟩ := Option.bind_eq_some_iff.mp hstep
      rw [hi] at hdel
      rw [hsent, ← Option.some.inj hs']
      apply sent_cancel hdel h.sent

/-- A call that returns has just sent the message for the job of its ticket. -/
theorem Represents.returned_step (h : s.Represents S) (hcalls : Calls S s s' e) {i : ℕ}
    {document : Document} {job : IngestionJob}
    (hi : s'.system.submissions i = .returned document job) :
  ∃ t ∈ s'.system.issued, t.documentId = document.id ∧ t.jobId = job.id ∧ s'.Keeps S t
  := by
  have hs := System.Sound.of_reachable h.reachable
  obtain ⟨event, hsystem⟩ := hcalls.exists_step
  have hissued := System.issued_subset_of_step hsystem
  have hbefore : s.system.submissions i = .returned document job →
      ∃ t ∈ s'.system.issued, t.documentId = document.id ∧ t.jobId = job.id ∧ s'.Keeps S t := by
    intro hi
    obtain ⟨t, ht, hdocument, hjob, hkeeps⟩ := h.returned i document job hi
    use t, hissued ht, hdocument, hjob, hkeeps.step h.reachable ht hcalls
  cases hcalls with
  | service hcalls hstep hsent =>
      rcases System.returned_of_step hstep hi with hi | ⟨rfl, -⟩
      · apply hbefore hi
      · cases hcalls
  | cancel _ hstep =>
      rcases System.returned_of_step hstep hi with hi | ⟨heq, -⟩
      · apply hbefore hi
      · cases heq
  | @enqueue j fault document' job' hj hstep hsent =>
      rcases System.returned_of_step hstep hi with hi | ⟨heq, hinserted⟩
      · apply hbefore hi
      · obtain ⟨rfl, houtcome⟩ := Event.submission.inj heq
        obtain ⟨rfl, rfl⟩ := Submission.inserted.inj (hj.symm.trans hinserted)
        have hfollows := hs.submissions j
        rw [hinserted] at hfollows
        obtain ⟨t, ht, hnames, -, hjob, -⟩ := hfollows
        use t, hissued ht, hnames.id_eq.symm, hjob.symm
        left
        rw [hsent, ← hjob]
        cases fault with
        | none => exact List.mem_append_right _ (List.mem_singleton_self _)
        | some delivered => cases houtcome

theorem Represents.step (h : s.Represents S) (hstep : step S s e = some s') :
  s'.Represents S
  where
  reachable := by
    obtain ⟨event, hsystem⟩ := (calls_of_step hstep).exists_step
    apply h.reachable.step hsystem
  sent := h.sent_step (calls_of_step hstep)
  returned _ _ _ hi := h.returned_step (calls_of_step hstep) hi

theorem Represents.of_reachable (h : (machine S).Reachable s) :
  s.Represents S
  := by
  apply h.induction
  · rintro s rfl
    refine ⟨⟨.initial, [], rfl, rfl⟩, List.Sublist.refl _, ?_⟩
    intro i document job hi
    cases hi
  · intro s e s' hs hstep
    apply hs.step hstep

/-- Whatever fails, the messages that have been sent and not been cancelled are of different jobs, each of
them makes a worker process the job of an upload, and the message for an upload that was accepted is not
cancelled until the document is being deleted or is gone. -/
theorem messages_dispatched {es : List DispatchEvent} (decimal : Char → Option ℕ)
    (h : (machine S).Reachable s) (hrun : (machine S).run s es = some s') :
  (s'.sent.map QueuedJob.jobId).Nodup
    ∧ (∀ job ∈ s'.sent, ∃ t ∈ s'.system.issued,
      processIngestionJob decimal job = some t.jobId ∧ job = message t.jobId)
    ∧ ∀ i document job, s.system.submissions i = .returned document job →
      message job.id ∈ s'.sent ∨ s'.system.Conceals S document.id
  := by
  have hs' := Represents.of_reachable (h.run hrun)
  refine ⟨?_, ?_, ?_⟩
  · have hnodup := (System.sends_of_reachable hs'.reachable).1.nodup
    have hids : (s'.sent.map QueuedJob.jobId).Sublist
        ((s'.system.stores.queue.map message).map QueuedJob.jobId) := hs'.sent.map _
    apply List.Nodup.sublist hids
    rw [List.map_map]
    apply hnodup.map
    apply RedisIngestionQueue.messageId_injective
  · intro job hjob
    obtain ⟨jobId, hqueued, rfl⟩ := List.mem_map.mp (hs'.sent.subset hjob)
    obtain ⟨t, ht, rfl⟩ := System.Posted.of_reachable hs'.reachable jobId hqueued
    use t, ht, processIngestionJob_message decimal t.jobId
  · intro i document job hi
    obtain ⟨t, ht, hdocument, hjob, hkeeps⟩ := (Represents.of_reachable h).returned i document job hi
    have hlater : (t ∈ s'.system.issued ∧ (System.machine S).Reachable s'.system) ∧ s'.Keeps S t := by
      apply (machine S).run_invariant (I := fun u : Dispatching =>
        (t ∈ u.system.issued ∧ (System.machine S).Reachable u.system) ∧ u.Keeps S t) _
        ⟨⟨ht, (Represents.of_reachable h).reachable⟩, hkeeps⟩ hrun
      rintro u e u' ⟨⟨ht, hreachable⟩, hkeeps⟩ hstep
      have hcalls := calls_of_step hstep
      obtain ⟨event, hsystem⟩ := hcalls.exists_step
      use ⟨System.issued_subset_of_step hsystem ht, hreachable.step hsystem⟩
      apply hkeeps.step hreachable ht hcalls
    rw [← hdocument, ← hjob]
    apply hlater.2

/-- The upload of the sample document, with the call of the queue at its end. -/
def sampleUpload : List DispatchEvent :=
  (System.sampleUpload.take 4).map .service ++ [.enqueue 0 none]

/-- The sample deployment after some events. -/
def sampleAfter (es : List DispatchEvent) : Dispatching :=
  ((machine .sample).run initial es).getD initial

/-- The document and the job of a call that has returned. -/
def sampleReturned : Submission → Option (Document × IngestionJob)
  | .returned document job => some (document, job)
  | _ => none

theorem sampleReturned_eq_some {submission : Submission} {rows : Document × IngestionJob}
    (h : sampleReturned submission = some rows) :
  submission = .returned rows.1 rows.2
  := by
  cases submission with
  | returned document job => rw [← Option.some.inj h]
  | _ => cases h

/-- The message for the sample document has been sent and is not cancelled while the document is
processed. -/
theorem messages_dispatched_sample :
  message System.sampleJobId
      ∈ (sampleAfter (sampleUpload ++ (System.sampleIndexing 0 10).map .service)).sent
    ∨ (sampleAfter (sampleUpload ++ (System.sampleIndexing 0 10).map .service)).system.Conceals .sample
      Services.sampleDocumentId
  := by
  have hisSome : ((machine .sample).run initial
      (sampleUpload ++ (System.sampleIndexing 0 10).map .service)).isSome = true := by
    decide +kernel
  obtain ⟨s', hs'⟩ := Option.isSome_iff_exists.mp hisSome
  obtain ⟨s, hs, hrun⟩ := (machine .sample).run_append_iff.mp hs'
  have hreachable : (machine .sample).Reachable s := ⟨initial, sampleUpload, rfl, hs⟩
  have hids : (sampleReturned ((sampleAfter sampleUpload).system.submissions 0)).map
      (fun rows => (rows.1.id, rows.2.id)) = some (Services.sampleDocumentId, System.sampleJobId) := by
    decide +kernel
  obtain ⟨rows, hrows, hids⟩ := Option.map_eq_some_iff.mp hids
  have hreturned := sampleReturned_eq_some hrows
  rw [sampleAfter, hs, Option.getD_some] at hreturned
  have hkept := (messages_dispatched (fun _ => none) hreachable hrun).2.2 0 _ _ hreturned
  rw [sampleAfter, hs', Option.getD_some, ← (Prod.mk.inj hids).1, ← (Prod.mk.inj hids).2]
  apply hkept

end Dispatching

end KnowledgeSearch

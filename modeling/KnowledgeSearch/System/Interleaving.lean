import KnowledgeSearch.Application.Documents
import KnowledgeSearch.Application.Ingestion
import KnowledgeSearch.Foundations.Machine

/-!
# Calls that interleave

`System` is the stores together with any number of calls of `submit`, `process` and `delete`
that are under way, and `machine` the machine in which each step is a step of one of them.

A transaction is one step, as if transactions came one after the other. The sessions of the program
ask for no more than the isolation READ COMMITTED, under which the statements of transactions that
overlap interleave: `Concurrent` has these, and shows which properties need the transactions to be
atomic.

Generated identifiers are new: `submit` starts only with identifiers no earlier submission
drew. `System.issued` lists the tickets drawn so far.
-/

namespace KnowledgeSearch

/-- The stores and the calls under way. -/
structure System where
  stores : Stores
  issued : List Ticket
  submissions : ℕ → Submission
  deliveries : ℕ → Delivery
  deletions : ℕ → Deletion

/-- A step of one of the calls. -/
inductive Event where
  | submission (call : ℕ) (event : SubmissionEvent)
  | delivery (call : ℕ) (event : DeliveryEvent)
  | deletion (call : ℕ) (event : DeletionEvent)

/-- The number of the call that takes the step. -/
def Event.call : Event → ℕ
  | submission i _ | delivery i _ | deletion i _ => i

/-- The tickets drawn after a step that left a submission where it stands; an accepted
submission has just drawn its ticket. -/
def issue (issued : List Ticket) : Submission → Option (List Ticket)
  | .accepted t _ _ =>
      if issued.all fun u => u.documentId ≠ t.documentId && u.jobId ≠ t.jobId then
        some (t :: issued)
      else none
  | _ => some issued

/-- Tickets are never given back. -/
theorem subset_of_issue {issued issued' : List Ticket} {submission : Submission}
    (h : issue issued submission = some issued') :
  issued ⊆ issued'
  := by
  cases submission with
  | accepted t filename source =>
      simp only [issue] at h
      split at h
      · obtain rfl := Option.some.inj h
        apply List.subset_cons_self
      · cases h
  | _ =>
      obtain rfl := Option.some.inj h
      apply List.Subset.refl

namespace System

/-- A step of the system. -/
def step (S : Services) (s : System) : Event → Option System
  | .submission i e => do
      let (stores, submission) ← (s.submissions i).step S s.stores e
      let issued ← issue s.issued submission
      some { s with stores, issued, submissions := Function.update s.submissions i submission }
  | .delivery i e => do
      let (stores, delivery) ← (s.deliveries i).step S s.stores e
      some { s with stores, deliveries := Function.update s.deliveries i delivery }
  | .deletion i e => do
      let (stores, deletion) ← (s.deletions i).step S s.stores e
      some { s with stores, deletions := Function.update s.deletions i deletion }

/-- A new deployment without calls. -/
def initial : System where
  stores := .initial
  issued := []
  submissions := fun _ => .idle
  deliveries := fun _ => .idle
  deletions := fun _ => .idle

/-- The machine of the interleaved calls. -/
def machine (S : Services) : Machine System Event where
  Start s := s = initial
  step := step S

/-- No call is under way. -/
def Quiescent (s : System) : Prop :=
  (∀ i, (s.submissions i).ids = none) ∧ (∀ i, (s.deliveries i).attempt = none)
    ∧ ∀ i, (s.deletions i).document = none

/-- A step is one of a submission, which may draw a ticket, of a delivery, or of a
deletion. -/
theorem step_eq_some {S : Services} {s s' : System} {e : Event} (h : step S s e = some s') :
  (∃ i event stores submission issued, e = .submission i event
      ∧ (s.submissions i).step S s.stores event = some (stores, submission)
      ∧ issue s.issued submission = some issued
      ∧ s' = { s with
          stores, issued, submissions := Function.update s.submissions i submission })
    ∨ (∃ i event stores delivery, e = .delivery i event
      ∧ (s.deliveries i).step S s.stores event = some (stores, delivery)
      ∧ s' = { s with stores, deliveries := Function.update s.deliveries i delivery })
    ∨ ∃ i event stores deletion, e = .deletion i event
      ∧ (s.deletions i).step S s.stores event = some (stores, deletion)
      ∧ s' = { s with stores, deletions := Function.update s.deletions i deletion }
  := by
  cases e with
  | submission i event =>
      left
      obtain ⟨⟨stores, submission⟩, hstep, h⟩ := Option.bind_eq_some_iff.mp h
      obtain ⟨issued, hissued, h⟩ := Option.bind_eq_some_iff.mp h
      use i, event, stores, submission, issued, rfl, hstep, hissued, (Option.some.inj h).symm
  | delivery i event =>
      right
      left
      obtain ⟨⟨stores, delivery⟩, hstep, h⟩ := Option.bind_eq_some_iff.mp h
      use i, event, stores, delivery, rfl, hstep, (Option.some.inj h).symm
  | deletion i event =>
      right
      right
      obtain ⟨⟨stores, deletion⟩, hstep, h⟩ := Option.bind_eq_some_iff.mp h
      use i, event, stores, deletion, rfl, hstep, (Option.some.inj h).symm

/-- A step leaves calls of another number where they stand. -/
theorem others_of_step {S : Services} {s s' : System} {e : Event} {j : ℕ}
    (hstep : step S s e = some s') (hcall : e.call ≠ j) :
  s'.submissions j = s.submissions j ∧ s'.deliveries j = s.deliveries j
    ∧ s'.deletions j = s.deletions j
  := by
  rcases step_eq_some hstep with ⟨i, _, _, _, _, rfl, -, -, rfl⟩ | ⟨i, _, _, _, rfl, -, rfl⟩
    | ⟨i, _, _, _, rfl, -, rfl⟩
  · use Function.update_of_ne hcall.symm .., rfl
  · use rfl, Function.update_of_ne hcall.symm ..
  · use rfl, rfl
    apply Function.update_of_ne hcall.symm

/-- Tickets that are drawn stay drawn. -/
theorem issued_subset_of_step {S : Services} {s s' : System} {e : Event}
    (h : step S s e = some s') :
  s.issued ⊆ s'.issued
  := by
  rcases step_eq_some h with ⟨_, _, _, _, issued, -, -, hissue, rfl⟩
    | ⟨_, _, _, _, -, -, rfl⟩ | ⟨_, _, _, _, -, -, rfl⟩
  · apply subset_of_issue hissue
  · apply List.Subset.refl
  · apply List.Subset.refl

theorem issued_subset_of_run {S : Services} {s s' : System} {es : List Event}
    (h : (machine S).run s es = some s') :
  s.issued ⊆ s'.issued
  := by
  apply (machine S).run_invariant (I := fun t => s.issued ⊆ t.issued) _ (List.Subset.refl _) h
  intro t e t' hsub hstep
  apply List.Subset.trans hsub (issued_subset_of_step hstep)

/-- Steps leave calls of other numbers where they stand. -/
theorem others_of_run {S : Services} {j : ℕ} :
    ∀ {es : List Event} {s s' : System}, (machine S).run s es = some s' →
      (∀ e ∈ es, e.call ≠ j) →
      s'.submissions j = s.submissions j ∧ s'.deliveries j = s.deliveries j
        ∧ s'.deletions j = s.deletions j
  | [], s, s', hrun, _ => by
      obtain rfl := Option.some.inj hrun
      use rfl, rfl
  | e :: es, s, s', hrun, hcalls => by
      obtain ⟨t, hstep, hrun⟩ := (machine S).run_cons_iff.mp hrun
      have hrest : ∀ f ∈ es, f.call ≠ j := by
        intro f hf
        apply hcalls f (List.mem_cons_of_mem e hf)
      obtain ⟨hsubmission, hdelivery, hdeletion⟩ := others_of_run hrun hrest
      obtain ⟨hsubmission', hdelivery', hdeletion'⟩ :=
        others_of_step hstep (hcalls e List.mem_cons_self)
      rw [hsubmission, hdelivery, hdeletion]
      use hsubmission', hdelivery'

/-! ### The sample document -/

/-- The wall clock at a given moment and after. -/
def clockFrom (start : Timestamp) : Clock := fun n => start + n

/-- The identifier of the job of the sample document. -/
def sampleJobId : Uuid := 0x2222222222224222a222222222222222

/-- The upload of the sample document, by a call of `submit` in which nothing fails. -/
def sampleUpload : List Event :=
  [.submission 0 (.begin "alpha.txt".toList (some "text/plain".toList) [Services.sampleContent]
      Services.sampleDocumentId sampleJobId),
    .submission 0 (.save none), .submission 0 (.build (clockFrom 0)), .submission 0 (.insert none),
    .submission 0 (.enqueue .accepted)]

/-- The steps of the delivery `i` of the sample job up to the upsert, nothing failing. -/
def sampleIndexing (i : ℕ) (start : Timestamp) : List Event :=
  [.delivery i (.start sampleJobId (clockFrom start) none), .delivery i (.load none),
    .delivery i (.prepare none), .delivery i (.embed none), .delivery i (.ensure none),
    .delivery i (.upsert none)]

/-- The sample deployment after some events. -/
def sampleAfter (es : List Event) : System :=
  ((machine .sample).run initial es).getD initial

/-- The sample deployment goes from one state to another by the events between them. -/
theorem run_sampleAfter (es fs : List Event)
    (h : ((machine .sample).run initial (es ++ fs)).isSome = true) :
  (machine .sample).run (sampleAfter es) fs = some (sampleAfter (es ++ fs))
  := by
  obtain ⟨s, hs⟩ := Option.isSome_iff_exists.mp h
  obtain ⟨t, ht, hrun⟩ := (machine .sample).run_append_iff.mp hs
  rw [sampleAfter, sampleAfter, ht, hs, Option.getD_some, Option.getD_some, hrun]

theorem step_sampleAfter (es : List Event) (e : Event)
    (h : ((machine .sample).run initial (es ++ [e])).isSome = true) :
  step .sample (sampleAfter es) e = some (sampleAfter (es ++ [e]))
  := by
  obtain ⟨s, hstep, hs⟩ := (machine .sample).run_cons_iff.mp (run_sampleAfter es [e] h)
  rw [← hs]
  apply hstep

theorem reachable_sampleAfter {es : List Event}
    (h : ((machine .sample).run initial es).isSome = true) :
  (machine .sample).Reachable (sampleAfter es)
  := by
  use initial, es, rfl
  apply run_sampleAfter [] es h

/-- When only calls of the number zero take steps, calls of other numbers have not begun. -/
theorem idle_sampleAfter {es : List Event} {j : ℕ}
    (h : ((machine .sample).run initial es).isSome = true) (hcalls : ∀ e ∈ es, e.call = 0)
    (hj : j ≠ 0) :
  (sampleAfter es).submissions j = .idle ∧ (sampleAfter es).deliveries j = .idle
    ∧ (sampleAfter es).deletions j = .idle
  := by
  apply others_of_run (run_sampleAfter [] es h)
  intro e he
  rw [hcalls e he]
  apply hj.symm

/-- When only calls of the number zero take steps and they have ended, no call is under way. -/
theorem quiescent_sampleAfter {es : List Event}
    (h : ((machine .sample).run initial es).isSome = true) (hcalls : ∀ e ∈ es, e.call = 0)
    (hended : ((sampleAfter es).submissions 0).ids = none
      ∧ ((sampleAfter es).deliveries 0).attempt = none
      ∧ ((sampleAfter es).deletions 0).document = none) :
  (sampleAfter es).Quiescent
  := by
  have hboth : ∀ j, ((sampleAfter es).submissions j).ids = none
      ∧ ((sampleAfter es).deliveries j).attempt = none
      ∧ ((sampleAfter es).deletions j).document = none := by
    intro j
    by_cases hj : j = 0
    · rw [hj]
      apply hended
    · obtain ⟨hsubmission, hdelivery, hdeletion⟩ := idle_sampleAfter h hcalls hj
      rw [hsubmission, hdelivery, hdeletion]
      use rfl, rfl
      rfl
  use fun j => (hboth j).1, fun j => (hboth j).2.1
  exact fun j => (hboth j).2.2

end System

end KnowledgeSearch

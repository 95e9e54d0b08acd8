import KnowledgeSearch.Application.Sessions
import KnowledgeSearch.System.Soundness

/-!
# Transactions that overlap

`Concurrent` is the system together with the transactions of `process` and `delete` that have
begun to read, and `Concurrent.machine` the machine in which each step is a statement of one of
them, the commit of one, or another step of a call. Calls of `submit` take no steps here: a run
begins when no call is under way.

A run is fresh when every transaction that goes on to save rows, or to delete what they refer to,
finds them at its commit as it has read them. `Concurrent.takes_of_step` is the connection with
the steps of the system: a step of a fresh run does to the system nothing, or what a step of
`process` or `delete` may do.
-/

namespace KnowledgeSearch

open Database

/-! ### The machine -/

/-- A call that may have a transaction open. -/
inductive Caller where
  | delivery (call : ℕ)
  | deletion (call : ℕ)
  deriving DecidableEq

/-- The call of `process` or `delete` that takes the step. -/
def Event.caller : Event → Option Caller
  | .submission _ _ => none
  | .delivery i _ => some (.delivery i)
  | .deletion i _ => some (.deletion i)

/-- The attempts at a job that begin when a call comes to stand there. -/
def Delivery.starts : Delivery → Uuid → ℕ
  | started a, jobId => if a.jobId = jobId then 1 else 0
  | _, _ => 0

namespace System

/-- The transaction a step commits. -/
def session (s : System) : Event → Option Session
  | .submission _ _ => none
  | .delivery i event => (s.deliveries i).session event
  | .deletion i event => (s.deletions i).session event

/-- A step that commits what its transaction has read. -/
def commit (s : System) (reads : Reads) : Event → Option System
  | .submission _ _ => none
  | .delivery i event => do
      let (stores, delivery) ← (s.deliveries i).commit s.stores reads event
      some { s with stores, deliveries := Function.update s.deliveries i delivery }
  | .deletion i event => do
      let (stores, deletion) ← (s.deletions i).commit s.stores reads event
      some { s with stores, deletions := Function.update s.deletions i deletion }

/-- The attempts at a job that the step that led here has begun. -/
def starts (s : System) : Event → Uuid → ℕ
  | .delivery i _ => (s.deliveries i).starts
  | .submission _ _ | .deletion _ _ => fun _ => 0

end System

/-- The system, the transactions that have begun to read, and for each job the number of the
attempts that have begun. -/
structure Concurrent where
  system : System
  opened : Caller → Option (Session × Reads)
  begun : Uuid → ℕ

/-- A step: one without a transaction that saves rows, a statement of such a transaction, or its
commit. -/
inductive Access where
  | call (event : Event)
  | read (caller : Caller) (session : Session)
  | commit (event : Event)

namespace Concurrent

/-- What the open transaction of a call has read. -/
def reads (c : Concurrent) (caller : Caller) (session : Session) : Reads :=
  match c.opened caller with
  | some (session', reads) => if session' = session then reads else .none
  | none => .none

/-- The state after a step of a call, which has no transaction open then. -/
def advance (c : Concurrent) (caller : Caller) (event : Event) (system : System) : Concurrent where
  system := system
  opened := Function.update c.opened caller none
  begun jobId := c.begun jobId + system.starts event jobId

/-- A step. -/
def step (S : Services) (c : Concurrent) : Access → Option Concurrent
  | .call event => do
      let caller ← event.caller
      if (c.system.session event).isSome then none
      else
        let system ← System.step S c.system event
        some (c.advance caller event system)
  | .read caller session => do
      let reads ← session.read c.system.stores.db (c.reads caller session)
      some { c with opened := Function.update c.opened caller (some (session, reads)) }
  | .commit event => do
      let caller ← event.caller
      let (session, reads) ← c.opened caller
      if c.system.session event = some session ∧ reads.statements = session.statements then
        let system ← c.system.commit reads event
        some (c.advance caller event system)
      else none

/-- The system before any transaction has begun to read. -/
def of (s : System) : Concurrent where
  system := s
  opened := fun _ => none
  begun := fun _ => 0

/-- The machine of the overlapping transactions. -/
def machine (S : Services) : Machine Concurrent Access where
  Start c := ∃ s, (System.machine S).Reachable s ∧ s.Quiescent ∧ c = of s
  step := step S

/-- A transaction that commits and goes on to save rows, or to delete what they refer to, finds
them as it has read them. -/
def fresh (c : Concurrent) : Access → Bool
  | .commit event =>
      (event.caller.bind c.opened).all fun o =>
        !o.1.acts o.2 || o.2 = o.1.readAll c.system.stores.db
  | .call _ | .read _ _ => true

/-! ### Steps of fresh runs -/

end Concurrent

/-- A step of the system taken by a call of `process` or of `delete`. -/
inductive System.Takes (S : Services) (s : System) : Event → System → Prop
  | delivery {i : ℕ} {event : DeliveryEvent} {stores : Stores} {delivery : Delivery}
      (h : Delivery.Steps S s.stores (s.deliveries i) event stores delivery) :
      Takes S s (.delivery i event)
        { s with stores, deliveries := Function.update s.deliveries i delivery }
  | deletion {i : ℕ} {event : DeletionEvent} {stores : Stores} {deletion : Deletion}
      (h : Deletion.Steps S s.stores (s.deletions i) event stores deletion) :
      Takes S s (.deletion i event)
        { s with stores, deletions := Function.update s.deletions i deletion }

variable {S : Services}

/-- A commit of `process` that saves no rows refuses or skips the job. -/
theorem Delivery.Steps.of_commit {s s' : Stores} {delivery delivery' : Delivery}
    {event : DeliveryEvent} {session : Session} {reads : Reads}
    (hsession : delivery.session event = some session) (hacts : session.acts reads = false)
    (hcommit : delivery.commit s reads event = some (s', delivery')) :
  Delivery.Steps S s delivery event s' delivery'
  := by
  cases event with
  | start jobId clock fault =>
      simp only [Delivery.session] at hsession
      split at hsession
      · cases hsession
      rename_i hidle
      cases hsession
      simp only [Option.isSome_iff_ne_none, ne_eq, not_not] at hidle
      simp only [commit] at hcommit
      split at hcommit
      · cases hcommit
        apply Steps.refuse hidle
      · rename_i db hstart
        cases hcommit
        rcases startJobFrom_eq_ok (transaction_eq_ok_iff.mp hstart).2 with ⟨-, rfl⟩ | htrue
        · apply Steps.skip hidle
        · rw [hacts] at htrue
          cases htrue
      · rename_i documentId db hstart
        rcases startJobFrom_eq_ok (transaction_eq_ok_iff.mp hstart).2 with ⟨hnone, -⟩ | htrue
        · cases hnone
        · rw [hacts] at htrue
          cases htrue
  | finalise clock fault =>
      cases delivery with
      | upserted a chunks =>
          cases hsession
          cases hacts
      | _ => cases hsession
  | markFailed clock fault =>
      cases delivery with
      | failing a error =>
          cases hsession
          cases hacts
      | _ => cases hsession
  | _ => cases hsession

/-- A commit of `delete` that neither saves nor deletes a row refuses the document. -/
theorem Deletion.Steps.of_commit {s s' : Stores} {deletion deletion' : Deletion}
    {event : DeletionEvent} {session : Session} {reads : Reads}
    (hsession : deletion.session event = some session) (hacts : session.acts reads = false)
    (hcommit : deletion.commit s reads event = some (s', deletion')) :
  Deletion.Steps S s deletion event s' deletion'
  := by
  cases event with
  | mark documentId clock fault =>
      simp only [Deletion.session] at hsession
      split at hsession
      · cases hsession
      rename_i hidle
      cases hsession
      simp only [Option.isSome_iff_ne_none, ne_eq, not_not] at hidle
      simp only [commit] at hcommit
      split at hcommit
      · cases hcommit
        apply Steps.refuse hidle
      · rename_i document jobIds db hmark
        have htrue := markDeletingFrom_eq_ok (transaction_eq_ok_iff.mp hmark).2
        rw [hacts] at htrue
        cases htrue
  | finish fault =>
      cases deletion with
      | finishing document =>
          cases hsession
          cases hacts
      | _ => cases hsession
  | _ => cases hsession

namespace System

variable {s s' : System}

/-- A commit to the database that was read is a step of the system. -/
theorem commit_readAll {event : Event} {session : Session}
    (hsession : s.session event = some session) :
  s.commit (session.readAll s.stores.db) event = step S s event
  := by
  cases event with
  | submission i event => cases hsession
  | delivery i event => simp only [commit, step, Delivery.commit_readAll (S := S) hsession]
  | deletion i event => simp only [commit, step, Deletion.commit_readAll (S := S) hsession]

/-- A step of a call of `process` or `delete` from a sound state. -/
theorem Sound.takes {event : Event} (h : s.Sound S) (hcaller : event.caller.isSome)
    (hstep : System.step S s event = some s') :
  Takes S s event s'
  := by
  rcases h.step_cases hstep with ⟨_, _, _, _, _, rfl, -⟩ | ⟨i, event, stores, delivery, rfl, hdel, rfl⟩
    | ⟨i, event, stores, deletion, rfl, hdel, rfl⟩
  · cases hcaller
  · apply Takes.delivery hdel
  · apply Takes.deletion hdel

/-- A commit that saves no rows is a step of the call all the same. -/
theorem Takes.of_commit {event : Event} {session : Session} {reads : Reads}
    (hsession : s.session event = some session) (hacts : session.acts reads = false)
    (hcommit : s.commit reads event = some s') :
  Takes S s event s'
  := by
  cases event with
  | submission i event => cases hsession
  | delivery i event =>
      obtain ⟨⟨stores, delivery⟩, hdelivery, h⟩ := Option.bind_eq_some_iff.mp hcommit
      cases h
      apply Takes.delivery
      apply Delivery.Steps.of_commit hsession hacts hdelivery
  | deletion i event =>
      obtain ⟨⟨stores, deletion⟩, hdeletion, h⟩ := Option.bind_eq_some_iff.mp hcommit
      cases h
      apply Takes.deletion
      apply Deletion.Steps.of_commit hsession hacts hdeletion

end System

namespace Concurrent

variable {c c' : Concurrent}

/-- A step of a fresh run does nothing to the system, or is a step of a call that is counted. -/
theorem takes_of_step {access : Access} (h : c.system.Sound S) (hfresh : c.fresh access = true)
    (hstep : step S c access = some c') :
  (c'.system = c.system ∧ c'.begun = c.begun)
    ∨ ∃ event, c.system.Takes S event c'.system
      ∧ ∀ jobId, c'.begun jobId = c.begun jobId + c'.system.starts event jobId
  := by
  cases access with
  | call event =>
      right
      obtain ⟨caller, hcaller, hstep⟩ := Option.bind_eq_some_iff.mp hstep
      split at hstep
      · cases hstep
      obtain ⟨system, hsystem, hstep⟩ := Option.bind_eq_some_iff.mp hstep
      cases hstep
      use event
      constructor
      · apply h.takes _ hsystem
        rw [hcaller]
        rfl
      · intro jobId
        rfl
  | read caller session =>
      left
      obtain ⟨reads, -, hstep⟩ := Option.bind_eq_some_iff.mp hstep
      cases hstep
      use rfl
  | commit event =>
      right
      obtain ⟨caller, hcaller, hstep⟩ := Option.bind_eq_some_iff.mp hstep
      obtain ⟨⟨session, reads⟩, hopened, hstep⟩ := Option.bind_eq_some_iff.mp hstep
      simp only at hstep
      split at hstep
      · rename_i hsession
        obtain ⟨system, hsystem, hstep⟩ := Option.bind_eq_some_iff.mp hstep
        cases hstep
        use event
        constructor
        · simp only [fresh, hcaller, Option.bind_some, hopened, Option.all_some, Bool.or_eq_true,
            Bool.not_eq_true', decide_eq_true_eq] at hfresh
          rcases hfresh with hacts | rfl
          · apply System.Takes.of_commit hsession.1 hacts hsystem
          · rw [System.commit_readAll (S := S) hsession.1] at hsystem
            apply h.takes _ hsystem
            rw [hcaller]
            rfl
        · intro jobId
          rfl
      · cases hstep

end Concurrent

end KnowledgeSearch

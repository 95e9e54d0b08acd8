import KnowledgeSearch.System.Responses
import KnowledgeSearch.System.Submissions

/-!
# Messages are sent once

A submission sends the message for its job once, and a deletion cancels the messages for the jobs of its
own document only. `System.Sends` and `System.Cancels` say so of every reachable state.
-/

namespace KnowledgeSearch

variable {S : Services}

/-! ### The steps that change the queue -/

/-- The job of a submission whose message is still to be sent. -/
def Submission.unsent : Submission → Option Uuid
  | accepted t _ _ | saved t _ _ => some t.jobId
  | built _ job | inserted _ job => some job.id
  | _ => none

/-- What a step of a submission does to the messages. -/
inductive Submission.Sends (s s' : Stores) :
    Submission → SubmissionEvent → Submission → Prop
  | begin {submission : Submission} {event : SubmissionEvent} {t : Ticket} {filename : Text}
      {source : List Bytes} (hqueue : s'.queue = s.queue) :
      Sends s s' submission event (.accepted t filename source)
  | quiet {submission submission' : Submission} {event : SubmissionEvent} (hqueue : s'.queue = s.queue)
      (hunsent : submission'.unsent = submission.unsent ∨ submission'.unsent = none) :
      Sends s s' submission event submission'
  | send {submission' : Submission} {document : Document} {job : IngestionJob}
      {outcome : EnqueueOutcome} (hsent : submission'.unsent = none)
      (hqueue : s'.queue = s.queue ++ [job.id]) :
      Sends s s' (.inserted document job) (.enqueue outcome) submission'

/-- What a call of the queue does to the messages. -/
theorem Submission.Sends.of_deliver {s : Stores} {submission' : Submission} {document : Document}
    {job : IngestionJob} {outcome : EnqueueOutcome} (hsent : submission'.unsent = none)
    (delivered : Bool) :
  Sends s (s.deliver delivered job.id) (.inserted document job) (.enqueue outcome) submission'
  := by
  cases delivered with
  | false => exact Sends.quiet rfl (Or.inr hsent)
  | true => exact Sends.send hsent rfl

theorem Submission.sends_of_step {s s' : Stores} {submission submission' : Submission}
    {event : SubmissionEvent} (h : submission.step S s event = some (s', submission')) :
  Sends s s' submission event submission'
  := by
  cases event with
  | begin filename contentType source documentId jobId =>
      simp only [step] at h
      split at h
      · cases h
      split at h
      · cases h
        exact Sends.quiet rfl (Or.inr rfl)
      split at h
      · cases h
        exact Sends.quiet rfl (Or.inr rfl)
      · cases h
        exact Sends.begin rfl
  | save fault =>
      cases submission with
      | accepted t filename source =>
          simp only [step] at h
          split at h
          · cases h
            exact Sends.quiet rfl (Or.inr rfl)
          · cases h
            exact Sends.quiet rfl (Or.inl rfl)
      | _ => cases h
  | build clock =>
      cases submission with
      | saved t filename stored =>
          simp only [step] at h
          split at h
          · cases h
            exact Sends.quiet rfl (Or.inr rfl)
          · rename_i document job hbuild
            cases h
            obtain ⟨-, -, -, -, -, -, -, hjob, -⟩ := buildSubmission_spec hbuild
            apply Sends.quiet rfl
            left
            simp only [unsent, hjob]
      | _ => cases h
  | insert fault =>
      cases submission with
      | built document job =>
          simp only [step] at h
          split at h
          · cases h
            exact Sends.quiet rfl (Or.inr rfl)
          · cases h
            exact Sends.quiet rfl (Or.inr rfl)
          · cases h
            exact Sends.quiet rfl (Or.inl rfl)
      | _ => cases h
  | removeFile fault =>
      cases submission with
      | conflicted document job | compensating document job error =>
          simp only [step] at h
          split at h <;> cases h <;> exact Sends.quiet rfl (Or.inr rfl)
      | _ => cases h
  | lookUp fault =>
      cases submission with
      | lookingUp document job =>
          simp only [step] at h
          split at h <;> cases h <;> exact Sends.quiet rfl (Or.inr rfl)
      | _ => cases h
  | enqueue outcome =>
      cases submission with
      | inserted document job =>
          simp only [step] at h
          split at h <;> cases h <;> exact Sends.of_deliver rfl _
      | _ => cases h
  | markDispatchFailed clock fault =>
      cases submission with
      | undelivered document job message =>
          simp only [step] at h
          split at h <;> cases h <;> exact Sends.quiet rfl (Or.inr rfl)
      | _ => cases h
  | crash =>
      simp only [step] at h
      split at h <;> cases h
      exact Sends.quiet rfl (Or.inr rfl)

/-- The jobs whose messages a deletion is still to cancel are those of tickets for its document. -/
def Deletion.Cancels (tickets : List Ticket) : Deletion → Prop
  | cancelling document jobIds =>
      ∀ jobId ∈ jobIds, ∃ t ∈ tickets, t.documentId = document.id ∧ t.jobId = jobId
  | _ => True

theorem Deletion.Cancels.mono {tickets tickets' : List Ticket} {deletion : Deletion}
    (h : deletion.Cancels tickets) (hsub : tickets ⊆ tickets') :
  deletion.Cancels tickets'
  := by
  cases deletion with
  | cancelling document jobIds =>
      intro jobId hjobId
      obtain ⟨t, ht, hids⟩ := h jobId hjobId
      use t, hsub ht
  | _ => trivial

theorem Deletion.Cancels.cancelFrom {tickets : List Ticket} {document : Document} {jobIds : List Uuid}
    (h : ∀ jobId ∈ jobIds, ∃ t ∈ tickets, t.documentId = document.id ∧ t.jobId = jobId) :
  (Deletion.cancelFrom document jobIds).Cancels tickets
  := by
  cases jobIds with
  | nil => trivial
  | cons jobId jobIds => exact h

/-- What a step of a deletion does to the messages. -/
inductive Deletion.Withholds (tickets : List Ticket) (s s' : Stores) :
    Deletion → DeletionEvent → Deletion → Prop
  | quiet {deletion deletion' : Deletion} {event : DeletionEvent} (hqueue : s'.queue = s.queue)
      (hcancels : deletion'.Cancels tickets) : Withholds tickets s s' deletion event deletion'
  | cancel {deletion' : Deletion} {document : Document} {jobId : Uuid} {jobIds : List Uuid}
      (hqueue : s'.queue = s.queue.filter (· ≠ jobId)) (hcancels : deletion'.Cancels tickets) :
      Withholds tickets s s' (.cancelling document (jobId :: jobIds)) (.cancel none) deletion'

theorem Database.mem_jobsForDocument {db : Database} {documentId : Uuid} {job : IngestionJob} :
  job ∈ db.jobsForDocument documentId ↔ job ∈ db.jobs ∧ job.documentId = documentId
  := by
  rw [jobsForDocument, (List.perm_insertionSort _ _).mem_iff, List.mem_filter, decide_eq_true_iff]
  rfl

/-- A deletion begins with the jobs of its document. -/
theorem exists_of_markDeleting {clock : Clock} {documentId : Uuid} {db db' : Database}
    {document : Document} {jobIds : List Uuid}
    (h : markDeleting clock documentId db = .ok ((document, jobIds), db')) {jobId : Uuid}
    (hjobId : jobId ∈ jobIds) :
  ∃ job ∈ db.jobs, job.documentId = document.id ∧ job.id = jobId
  := by
  have hjobs : ∃ rows, rows.jobs = db.jobs
      ∧ jobIds = (Database.jobsForDocument rows document.id).map fun job => job.id := by
    unfold markDeleting at h
    split at h
    · cases h
    obtain ⟨marked, -, h⟩ := bind_eq_ok_iff.mp h
    cases marked with
    | none =>
        cases h
        use db
    | some row =>
        obtain ⟨saved, hsave, h⟩ := bind_eq_ok_iff.mp h
        cases h
        obtain ⟨-, rfl⟩ := Database.saveDocument_eq_ok_iff.mp hsave
        exact ⟨_, rfl, rfl⟩
  obtain ⟨rows, hsame, rfl⟩ := hjobs
  obtain ⟨job, hjob, hid⟩ := List.mem_map.mp hjobId
  obtain ⟨hjob, hdocument⟩ := Database.mem_jobsForDocument.mp hjob
  rw [hsame] at hjob
  use job, hjob, hdocument

theorem Deletion.withholds_of_step {s s' : Stores} {deletion deletion' : Deletion}
    {event : DeletionEvent} {tickets : List Ticket} (hs : s.Follows tickets)
    (hcancels : deletion.Cancels tickets) (h : deletion.step S s event = some (s', deletion')) :
  Withholds tickets s s' deletion event deletion'
  := by
  cases event with
  | mark documentId clock fault =>
      simp only [step] at h
      split at h
      · cases h
      split at h
      · cases h
        exact Withholds.quiet rfl trivial
      · rename_i document jobIds db hmark
        cases h
        have hjobs : (cancelFrom document jobIds).Cancels tickets := by
          apply Cancels.cancelFrom
          intro jobId hjobId
          obtain ⟨job, hjob, hdocument, rfl⟩ :=
            exists_of_markDeleting (transaction_eq_ok_iff.mp hmark).2 hjobId
          obtain ⟨t, ht, htdocument, hid⟩ := hs.jobs job hjob
          use t, ht, htdocument.symm.trans hdocument, hid.symm
        exact Withholds.quiet rfl hjobs
  | cancel fault =>
      cases deletion with
      | cancelling document jobIds =>
          cases jobIds with
          | nil => cases h
          | cons jobId jobIds =>
              simp only [step] at h
              split at h
              · cases h
                exact Withholds.quiet rfl trivial
              · cases h
                have hrest : (cancelFrom document jobIds).Cancels tickets := by
                  apply Cancels.cancelFrom
                  intro other hother
                  apply hcancels other (List.mem_cons_of_mem jobId hother)
                exact Withholds.cancel rfl hrest
      | _ => cases h
  | clear fault =>
      cases deletion with
      | clearing document =>
          simp only [step] at h
          split at h <;> cases h <;> exact Withholds.quiet rfl trivial
      | _ => cases h
  | removeFile fault =>
      cases deletion with
      | removing document =>
          simp only [step] at h
          split at h <;> cases h <;> exact Withholds.quiet rfl trivial
      | _ => cases h
  | finish fault =>
      cases deletion with
      | finishing document =>
          simp only [step] at h
          split at h <;> cases h <;> exact Withholds.quiet rfl trivial
      | _ => cases h
  | crash =>
      simp only [step] at h
      split at h <;> cases h
      exact Withholds.quiet rfl trivial

/-! ### The invariant -/

namespace System

variable {s s' : System}

/-- Deletions cancel the messages for the jobs of their own documents. -/
def Cancels (s : System) : Prop :=
  ∀ i, (s.deletions i).Cancels s.issued

/-- A message for a job is not sent again: no submission that is to send one has the job of a message, or
of another submission. -/
structure Sends (s : System) : Prop where
  nodup : s.stores.queue.Nodup
  unsent : ∀ i jobId, (s.submissions i).unsent = some jobId → jobId ∉ s.stores.queue
    ∧ (∃ t ∈ s.issued, t.jobId = jobId)
    ∧ ∀ j, (s.submissions j).unsent = some jobId → i = j

theorem unsent_update {submissions : ℕ → Submission} {submission : Submission} {i k : ℕ} {jobId : Uuid}
    (h : (Function.update submissions i submission k).unsent = some jobId) :
  k = i ∧ submission.unsent = some jobId ∨ k ≠ i ∧ (submissions k).unsent = some jobId
  := by
  by_cases hki : k = i
  · subst hki
    rw [Function.update_self] at h
    apply Or.inl ⟨rfl, h⟩
  · rw [Function.update_of_ne hki] at h
    apply Or.inr ⟨hki, h⟩

/-- A step that sends no message and has no other submission send one. -/
theorem Sends.quiet {stores : Stores} {submission : Submission} {i : ℕ} {issued : List Ticket}
    {deliveries : ℕ → Delivery} {deletions : ℕ → Deletion} (h : s.Sends)
    (hqueue : stores.queue.Sublist s.stores.queue) (hsub : s.issued ⊆ issued)
    (hunsent : submission.unsent = (s.submissions i).unsent ∨ submission.unsent = none) :
  Sends ⟨stores, issued, Function.update s.submissions i submission, deliveries, deletions⟩
  := by
  have hbefore : ∀ k jobId, (Function.update s.submissions i submission k).unsent = some jobId →
      (s.submissions k).unsent = some jobId := by
    intro k jobId hk
    rcases unsent_update hk with ⟨rfl, hown⟩ | ⟨-, hother⟩
    · rcases hunsent with hsame | hnone
      · rw [← hsame, hown]
      · rw [hnone] at hown
        cases hown
    · apply hother
  constructor
  · apply h.nodup.sublist hqueue
  · intro k jobId hk
    obtain ⟨hmem, ⟨t, ht, hid⟩, hunique⟩ := h.unsent k jobId (hbefore k jobId hk)
    refine ⟨fun hqueued => hmem (hqueue.subset hqueued), ⟨t, hsub ht, hid⟩, ?_⟩
    intro j hj
    apply hunique j (hbefore j jobId hj)

/-- The step with which a submission draws its ticket. -/
theorem Sends.begin {t : Ticket} {filename : Text} {source : List Bytes} {i : ℕ} {stores : Stores}
    {issued : List Ticket} {deliveries : ℕ → Delivery} {deletions : ℕ → Deletion} (h : s.Sends)
    (hposted : s.Posted) (hqueue : stores.queue = s.stores.queue)
    (hissue : issue s.issued (.accepted t filename source) = some issued) :
  Sends ⟨stores, issued, Function.update s.submissions i (.accepted t filename source), deliveries,
    deletions⟩
  := by
  simp only [issue] at hissue
  split at hissue
  · rename_i hfresh
    obtain rfl := Option.some.inj hissue
    have hnew : ∀ u ∈ s.issued, u.jobId ≠ t.jobId := by
      intro u hu
      have hboth := List.all_eq_true.mp hfresh u hu
      rw [Bool.and_eq_true] at hboth
      apply of_decide_eq_true hboth.2
    have hother : ∀ k, (s.submissions k).unsent ≠ some t.jobId := by
      intro k hk
      obtain ⟨-, ⟨u, hu, hid⟩, -⟩ := h.unsent k t.jobId hk
      apply hnew u hu hid
    constructor
    · rw [hqueue]
      apply h.nodup
    · intro k jobId hk
      rcases unsent_update hk with ⟨rfl, hown⟩ | ⟨-, hbefore⟩
      · obtain rfl := Option.some.inj hown
        refine ⟨?_, ⟨t, List.mem_cons_self, rfl⟩, ?_⟩
        · rw [hqueue]
          intro hmem
          obtain ⟨u, hu, hid⟩ := hposted _ hmem
          apply hnew u hu hid
        · intro j hj
          rcases unsent_update hj with ⟨rfl, -⟩ | ⟨-, hj'⟩
          · rfl
          · exact absurd hj' (hother j)
      · obtain ⟨hmem, ⟨u, hu, hid⟩, hunique⟩ := h.unsent k jobId hbefore
        refine ⟨hqueue ▸ hmem, ⟨u, List.mem_cons_of_mem _ hu, hid⟩, ?_⟩
        intro j hj
        rcases unsent_update hj with ⟨rfl, hown⟩ | ⟨-, hj'⟩
        · obtain rfl := Option.some.inj hown
          exact absurd hbefore (hother k)
        · apply hunique j hj'
  · cases hissue

/-- The step with which a submission sends its message. -/
theorem Sends.send {document : Document} {job : IngestionJob} {submission : Submission} {i : ℕ}
    {stores : Stores} {issued : List Ticket} {deliveries : ℕ → Delivery} {deletions : ℕ → Deletion}
    (h : s.Sends) (hi : s.submissions i = .inserted document job) (hsent : submission.unsent = none)
    (hqueue : stores.queue = s.stores.queue ++ [job.id]) (hsub : s.issued ⊆ issued) :
  Sends ⟨stores, issued, Function.update s.submissions i submission, deliveries, deletions⟩
  := by
  have hunsent : (s.submissions i).unsent = some job.id := by
    rw [hi]
    rfl
  obtain ⟨hnew, -, hown⟩ := h.unsent i job.id hunsent
  have hbefore : ∀ k jobId, (Function.update s.submissions i submission k).unsent = some jobId →
      k ≠ i ∧ (s.submissions k).unsent = some jobId := by
    intro k jobId hk
    rcases unsent_update hk with ⟨-, hk⟩ | hk
    · rw [hsent] at hk
      cases hk
    · apply hk
  constructor
  · rw [hqueue]
    apply List.Nodup.append h.nodup (List.nodup_singleton _)
    rw [List.disjoint_singleton]
    apply hnew
  · intro k jobId hk
    obtain ⟨hki, hk⟩ := hbefore k jobId hk
    obtain ⟨hmem, ⟨u, hu, hid⟩, hunique⟩ := h.unsent k jobId hk
    refine ⟨?_, ⟨u, hsub hu, hid⟩, ?_⟩
    · rw [hqueue, List.mem_append, List.mem_singleton]
      rintro (hmem' | rfl)
      · apply hmem hmem'
      · apply hki (hown k hk).symm
    · intro j hj
      apply hunique j (hbefore j jobId hj).2

/-- Every step preserves that messages are sent once and cancelled with their documents. -/
theorem sends_step {e : Event} (hs : s.Sound S) (hposted : s.Posted) (hsends : s.Sends)
    (hcancels : s.Cancels) (hstep : step S s e = some s') :
  s'.Sends ∧ s'.Cancels
  := by
  rcases step_eq_some hstep with ⟨i, event, stores, submission, issued, -, hsub, hissue, rfl⟩
    | ⟨i, event, stores, delivery, -, hdel, rfl⟩ | ⟨i, event, stores, deletion, -, hdel, rfl⟩
  · have hissued := subset_of_issue hissue
    constructor
    · have hsent := Submission.sends_of_step hsub
      generalize hi : s.submissions i = before at hsent
      cases hsent with
      | begin hqueue => apply hsends.begin hposted hqueue hissue
      | quiet hqueue hunsent =>
          rw [← hi] at hunsent
          apply hsends.quiet _ hissued hunsent
          rw [hqueue]
      | send hsent hqueue => apply hsends.send hi hsent hqueue hissued
    · intro j
      apply (hcancels j).mono hissued
  · constructor
    · constructor
      · rw [(hs.delivery_steps hdel).queue_eq]
        apply hsends.nodup
      · rw [(hs.delivery_steps hdel).queue_eq]
        apply hsends.unsent
    · apply hcancels
  · have hwithholds := Deletion.withholds_of_step hs.stores (hcancels i) hdel
    have hboth : stores.queue.Sublist s.stores.queue ∧ deletion.Cancels s.issued := by
      generalize s.deletions i = before at hwithholds
      cases hwithholds with
      | quiet hqueue hcancels =>
          rw [hqueue]
          use List.Sublist.refl _
      | cancel hqueue hcancels =>
          rw [hqueue]
          use List.filter_sublist
    obtain ⟨hsublist, hdeletion⟩ := hboth
    constructor
    · constructor
      · apply hsends.nodup.sublist hsublist
      · intro k jobId hk
        obtain ⟨hmem, hrest⟩ := hsends.unsent k jobId hk
        use fun hqueued => hmem (hsublist.subset hqueued)
    · intro j
      by_cases hji : j = i
      · subst hji
        simp only [Function.update_self]
        apply hdeletion
      · simp only [Function.update_of_ne hji]
        apply hcancels j

theorem sends_of_reachable (h : (machine S).Reachable s) :
  s.Sends ∧ s.Cancels
  := by
  have hall : s.Sound S ∧ s.Posted ∧ s.Sends ∧ s.Cancels := by
    apply h.induction
    · rintro s rfl
      refine ⟨Sound.initial, by simp [Posted, initial, Stores.initial], ⟨?_, ?_⟩, fun _ => trivial⟩
      · exact List.nodup_nil
      · intro i jobId hi
        cases hi
    · rintro s e s' ⟨hs, hposted, hsends, hcancels⟩ hstep
      use hs.step hstep, hposted.step hs hstep
      apply sends_step hs hposted hsends hcancels hstep
  apply hall.2.2

/-! ### Messages of documents that are deleted -/

/-- A call of `delete` hides its document. -/
theorem Sound.conceals (h : s.Sound S) {i : ℕ} {document : Document}
    (hi : (s.deletions i).document = some document) :
  s.Conceals S document.id
  := by
  obtain ⟨t, ht, hnames⟩ := h.deletions i document hi
  use t, hnames.id_eq.symm
  constructor
  · apply h
  · apply ht
  · intro j hj
    apply h.pending j _ hj
    apply Known.deletion i document hi hnames.id_eq
  · rw [← hnames.id_eq]
    apply h.deleting i document hi

/-- A message that is cancelled is for the job of a document that is being deleted. -/
theorem Sound.conceals_of_cancelling (h : s.Sound S) (hcancels : s.Cancels) {t : Ticket}
    (ht : t ∈ s.issued) {i : ℕ} {document : Document} {jobIds : List Uuid}
    (hi : s.deletions i = .cancelling document (t.jobId :: jobIds)) :
  s.Conceals S t.documentId
  := by
  have hcancel := hcancels i
  rw [hi] at hcancel
  obtain ⟨u, hu, hdocument, hjob⟩ := hcancel t.jobId List.mem_cons_self
  obtain rfl := h.distinct.jobs u hu t ht hjob
  rw [hdocument]
  apply h.conceals
  rw [hi]
  rfl

end System

end KnowledgeSearch

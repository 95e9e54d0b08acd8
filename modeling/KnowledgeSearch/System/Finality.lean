import KnowledgeSearch.System.Exclusion

/-!
# Deletion is final

In a fresh run nothing comes back of a document once a call of `delete` has returned: no attempt
runs at a document that is not there, so no call adds rows, files or points of it. When a
transaction is committed on rows that have changed since, points of a deleted document may stay.
-/

namespace KnowledgeSearch

open Database

/-! ### Rows that are gone -/

namespace Stores.Gone

variable {s s' : Stores} {d : Uuid}

/-- Nothing is left of a document whose rows are kept, when neither points nor files of it are
added. -/
theorem keeps (h : s.Gone d) (hkeeps : Keeps d s.db s'.db) (hunindexed : s'.Unindexed d)
    (hunfiled : s'.Unfiled d) :
  s'.Gone d
  where
  documents document hdocument hid :=
    h.documents document ((hkeeps.documents document hid).mp hdocument) hid
  jobs job hjob hid := h.jobs job ((hkeeps.jobs job hid).mp hjob) hid
  chunks chunk hchunk hid := h.chunks chunk ((hkeeps.chunks chunk hid).mp hchunk) hid
  unindexed := hunindexed
  unfiled := hunfiled

/-- A document that is gone is not one that moves. -/
theorem ne_of_moved (h : s.Gone d) {move : Move} {db : Database} {document document' : Document}
    {job job' : IngestionJob} {added : List Chunk}
    (hmoved : Moved move s.db db document document' job job' added) :
  d ≠ document.id
  := (h.documents document hmoved.document_mem).symm

end Stores.Gone

namespace System

variable {S : Services} {s s' : System} {d : Uuid}

/-- A step of a call leaves a document gone that is gone. -/
theorem Takes.gone {event : Event} (htakes : s.Takes S event s') (h : s.Ordered S)
    (hgone : s.stores.Gone d) :
  s'.stores.Gone d
  := by
  cases htakes with
  | @delivery i event stores delivery hsteps =>
      have hkeeps : Keeps d s.stores.db stores.db := by
        rcases hsteps.moves with hdb | ⟨_, _, _, _, _, _, hmoved⟩
        · rw [hdb]
          apply Keeps.refl
        · apply hmoved.keeps (hgone.ne_of_moved hmoved)
      apply hgone.keeps hkeeps
      · apply hsteps.unindexed (h.sound.deliveries i) _ hgone.unindexed
        intro a ha hid
        obtain ⟨document, job, hat⟩ := h.processing i a ha
        apply hgone.documents document hat.document_mem (hat.document_id.trans hid)
      · apply hgone.unfiled.less
        rw [hsteps.fs_eq]
        apply FileSystem.Less.refl
  | @deletion i event stores deletion hsteps =>
      have hkeeps : Keeps d s.stores.db stores.db := by
        rcases hsteps.changes h.sound.coherent with hdb | ⟨_, _, _, hmoved, -⟩
          | ⟨document, -, hremoved⟩
        · rw [hdb]
          apply Keeps.refl
        · apply hmoved.keeps (hgone.ne_of_moved hmoved)
        · by_cases hid : d = document.id
          · -- removing it once more removes nothing
            subst hid
            constructor
            · intro row hrow
              rw [hremoved.mem_documents]
              apply and_iff_left_of_imp
              apply hgone.documents row
            · intro job hjob
              rw [hremoved.mem_jobs]
              apply and_iff_left_of_imp
              apply hgone.jobs job
            · intro chunk hchunk
              rw [hremoved.mem_chunks]
              apply and_iff_left_of_imp
              apply hgone.chunks chunk
          · apply hremoved.keeps hid
      apply hgone.keeps hkeeps
      · apply hsteps.unindexed hgone.unindexed
      · apply hgone.unfiled.less (hsteps.less (h.sound.deletions i))

/-- A call of `delete` that returns leaves nothing of the document. -/
theorem Takes.gone_of_returned {event : Event} (htakes : s.Takes S event s') (h : s.Ordered S)
    {i : ℕ} (hbegun : (s.deletions i).document.isSome) (hreturned : s'.deletions i = .returned d) :
  s'.stores.Gone d
  := by
  cases htakes with
  | delivery hsteps =>
      rw [hreturned] at hbegun
      cases hbegun
  | @deletion j event stores deletion hsteps =>
      by_cases hij : i = j
      · subst hij
        simp only [Function.update_self] at hreturned
        apply hsteps.gone h.sound.coherent hbegun (h.cleared i d) hreturned
      · simp only [Function.update_of_ne hij] at hreturned
        rw [hreturned] at hbegun
        cases hbegun

end System

namespace Concurrent

variable {S : Services} {c₀ c c' c'' : Concurrent} {d : Uuid}

/-- What is gone stays gone in a fresh run. -/
theorem Counted.gone_run {es : List Access} (h : Counted S c₀ c) (hgone : c.system.stores.Gone d)
    (hfresh : (machine S).Meets (fun c access => c.fresh access = true) c es)
    (hrun : (machine S).run c es = some c') :
  c'.system.stores.Gone d
  := by
  have hpreserved : ∀ (b : Concurrent) (access : Access) (b' : Concurrent),
      Counted S c₀ b ∧ b.system.stores.Gone d → b.fresh access = true →
      Concurrent.step S b access = some b' → Counted S c₀ b' ∧ b'.system.stores.Gone d := by
    rintro b access b' ⟨h, hgone⟩ hfresh hstep
    use h.step hfresh hstep
    rcases takes_of_step h.ordered.sound hfresh hstep with ⟨hsystem, -⟩ | ⟨event, htakes, -⟩
    · rw [hsystem]
      apply hgone
    · apply htakes.gone h.ordered hgone
  apply ((machine S).run_induction hpreserved ⟨h, hgone⟩ hfresh hrun).2

/-- In a fresh run, from the step on in which a call of `delete` returns, nothing is left of its
document: neither rows nor its file nor points. -/
theorem deletion_final {es fs : List Access} {access : Access} {i : ℕ}
    (hstart : (machine S).Start c₀)
    (hfresh : (machine S).Meets (fun c access => c.fresh access = true) c₀ (es ++ access :: fs))
    (hrun : (machine S).run c₀ es = some c) (hbegun : (c.system.deletions i).document.isSome)
    (hstep : step S c access = some c') (hreturned : c'.system.deletions i = .returned d)
    (hlater : (machine S).run c' fs = some c'') :
  c''.system.stores.Gone d
  := by
  obtain ⟨hes, haccess, hfs⟩ := ((machine S).meets_append_iff hrun).mp hfresh
  have h := Counted.of_run hstart hes hrun
  apply (h.step haccess hstep).gone_run _ (hfs c' hstep) hlater
  rcases takes_of_step h.ordered.sound haccess hstep with ⟨hsystem, -⟩ | ⟨event, htakes, -⟩
  · rw [hsystem] at hreturned
    rw [hreturned] at hbegun
    cases hbegun
  · apply htakes.gone_of_returned h.ordered hbegun hreturned

/-! ### The sample document -/

/-- A delivery of the sample job that fails. -/
def sampleFailure : List Event :=
  [.delivery 0 (.start System.sampleJobId (System.clockFrom 10) none),
    .delivery 0 (.load (some .database)), .delivery 0 (.markFailed (System.clockFrom 20) none),
    .delivery 0 (.cleanup none)]

theorem start_sampleFailure :
  (machine .sample).Start (of (System.sampleAfter (System.sampleUpload ++ sampleFailure)))
  := by
  apply start_sampleAfter
  · decide +kernel
  · simp [System.sampleUpload, sampleFailure, Event.call]
  · decide +kernel

/-- The first transaction of a call of `delete` at the sample document. -/
def sampleMarking : List Access :=
  [.read (.deletion 1) (.markDeleting Services.sampleDocumentId),
    .read (.deletion 1) (.markDeleting Services.sampleDocumentId),
    .commit (.deletion 1 (.mark Services.sampleDocumentId (System.clockFrom 30) none))]

/-- The rest of the call up to the commit of its last transaction. -/
def sampleRemoval : List Access :=
  [.call (.deletion 1 (.removeFile none)),
    .read (.deletion 1) (.deleteDocument Services.sampleDocumentId)]

/-- The commit of the last transaction of the call. -/
def sampleFinish : Access :=
  .commit (.deletion 1 (.finish none))

/-- A call of `delete` of the failed sample document, during which the job is delivered again; the
delivery begins to read after the mark. -/
def sampleFreshDeletion : List Access :=
  sampleMarking ++ sampleStartReads 2 ++ [.call (.deletion 1 (.cancel none)),
    .call (.deletion 1 (.clear none)), sampleStartCommit 2 40] ++ sampleRemoval

/-- Nothing is left of the sample document after the call, nor after one more delivery of its
job. -/
theorem deletion_final_sample :
  (sampleRun (System.sampleAfter (System.sampleUpload ++ sampleFailure))
    (sampleFreshDeletion ++ sampleFinish :: (sampleStartReads 2 ++ [sampleStartCommit 2 50]))
    ).system.stores.Gone Services.sampleDocumentId
  := by
  have hwhole : (machine .sample).run
      (of (System.sampleAfter (System.sampleUpload ++ sampleFailure)))
      (sampleFreshDeletion ++ sampleFinish :: (sampleStartReads 2 ++ [sampleStartCommit 2 50]))
        = some _ := run_sampleRun (by decide +kernel)
  obtain ⟨c, hrun, hrest⟩ := (machine .sample).run_append_iff.mp hwhole
  obtain ⟨c', hstep, hlater⟩ := (machine .sample).run_cons_iff.mp hrest
  change step .sample c sampleFinish = some c' at hstep
  have hc : c = sampleRun (System.sampleAfter (System.sampleUpload ++ sampleFailure))
      sampleFreshDeletion := by
    rw [sampleRun, hrun, Option.getD_some]
  have hc' : c' = sampleRun (System.sampleAfter (System.sampleUpload ++ sampleFailure))
      (sampleFreshDeletion ++ [sampleFinish]) := by
    have hfinished : (machine .sample).run
        (of (System.sampleAfter (System.sampleUpload ++ sampleFailure)))
        (sampleFreshDeletion ++ [sampleFinish]) = some c' := by
      apply (machine .sample).run_append_iff.mpr
      use c, hrun
      apply (machine .sample).run_cons_iff.mpr
      use c', hstep
      rfl
    rw [sampleRun, hfinished, Option.getD_some]
  refine deletion_final (i := 1) start_sampleFailure ?_ hrun ?_ hstep ?_ hlater
  · decide +kernel
  · rw [hc]
    decide +kernel
  · rw [hc']
    decide +kernel

/-- A call of `delete` of the failed sample document while the job is delivered again; the delivery
has read the failed rows before the mark and commits after it. -/
def sampleStaleDeletion : List Access :=
  sampleStartReads 2 ++ sampleMarking ++ [sampleStartCommit 2 40,
    .call (.delivery 2 (.load none)), .call (.delivery 2 (.prepare none)),
    .call (.deletion 1 (.cancel none)), .call (.deletion 1 (.clear none)),
    .call (.delivery 2 (.embed none)), .call (.delivery 2 (.ensure none)),
    .call (.delivery 2 (.upsert none)),
    .read (.delivery 2) (.finalise Services.sampleDocumentId System.sampleJobId),
    .read (.delivery 2) (.finalise Services.sampleDocumentId System.sampleJobId),
    .read (.delivery 2) (.finalise Services.sampleDocumentId System.sampleJobId),
    .commit (.delivery 2 (.finalise (System.clockFrom 50) none))]
    ++ sampleRemoval ++ [sampleFinish]

/-- A step of another call leaves a delivery where it stands. -/
theorem deliveries_of_step {access : Access} {j : ℕ} (hstep : step S c access = some c')
    (hcall : ∀ event, access = .call event ∨ access = .commit event → event.call ≠ j) :
  c'.system.deliveries j = c.system.deliveries j
  := by
  cases access with
  | call event =>
      obtain ⟨caller, -, hstep⟩ := Option.bind_eq_some_iff.mp hstep
      split at hstep
      · cases hstep
      obtain ⟨system, hsystem, hstep⟩ := Option.bind_eq_some_iff.mp hstep
      cases hstep
      apply (System.others_of_step hsystem (hcall event (Or.inl rfl))).2.1
  | read caller session =>
      obtain ⟨reads, -, hstep⟩ := Option.bind_eq_some_iff.mp hstep
      cases hstep
      rfl
  | commit event =>
      obtain ⟨caller, -, hstep⟩ := Option.bind_eq_some_iff.mp hstep
      obtain ⟨⟨session, reads⟩, -, hstep⟩ := Option.bind_eq_some_iff.mp hstep
      simp only at hstep
      split at hstep
      · obtain ⟨system, hsystem, hstep⟩ := Option.bind_eq_some_iff.mp hstep
        cases hstep
        cases event with
        | submission i event => cases hsystem
        | delivery i event =>
            obtain ⟨⟨stores, delivery⟩, -, hsystem⟩ := Option.bind_eq_some_iff.mp hsystem
            cases hsystem
            apply Function.update_of_ne (hcall _ (Or.inr rfl)).symm
        | deletion i event =>
            obtain ⟨⟨stores, deletion⟩, -, hsystem⟩ := Option.bind_eq_some_iff.mp hsystem
            cases hsystem
            rfl
      · cases hstep

/-- Deliveries of other numbers than the calls of a run stay where they stand. -/
theorem deliveries_of_run {es : List Access} {j : ℕ} (hrun : (machine S).run c es = some c')
    (hcalls : ∀ access ∈ es, ∀ event, access = .call event ∨ access = .commit event →
      event.call ≠ j) :
  c'.system.deliveries j = c.system.deliveries j
  := by
  induction es generalizing c with
  | nil =>
      obtain rfl := Option.some.inj hrun
      rfl
  | cons access es ih =>
      obtain ⟨b, hstep, hrun⟩ := (machine S).run_cons_iff.mp hrun
      rw [ih hrun fun access' hmem => hcalls access' (List.mem_cons_of_mem access hmem)]
      apply deliveries_of_step hstep (hcalls access List.mem_cons_self)

/-- The call of `delete` has returned and the delivery has ended, and a point of the sample
document is left. -/
theorem not_deletion_final_sampleStale :
  ¬ ∀ (c₀ c : Concurrent) (es : List Access) (i : ℕ) (d : Uuid), (machine .sample).Start c₀ →
    (machine .sample).run c₀ es = some c → c.system.deletions i = .returned d →
    (∀ j, (c.system.deliveries j).attempt = none) → c.system.stores.Gone d
  := by
  intro h
  have hrun : (machine .sample).run
      (of (System.sampleAfter (System.sampleUpload ++ sampleFailure))) sampleStaleDeletion
        = some _ := run_sampleRun (by decide +kernel)
  have hended : ∀ j, ((sampleRun (System.sampleAfter (System.sampleUpload ++ sampleFailure))
      sampleStaleDeletion).system.deliveries j).attempt = none := by
    intro j
    by_cases hj : j = 1 ∨ j = 2
    · rcases hj with rfl | rfl
      · decide +kernel
      · decide +kernel
    · rw [deliveries_of_run hrun]
      · obtain ⟨s, -, hquiescent, hs⟩ := start_sampleFailure
        rw [hs]
        apply hquiescent.2.1
      · simp [sampleStaleDeletion, sampleStartReads, sampleMarking, sampleStartCommit,
          sampleRemoval, sampleFinish, Event.call]
        omega
  have hgone := h _ _ sampleStaleDeletion 1 Services.sampleDocumentId start_sampleFailure hrun
    (by decide +kernel) hended
  have hleft : ((sampleRun (System.sampleAfter (System.sampleUpload ++ sampleFailure))
      sampleStaleDeletion).system.stores.index.rows.any fun point =>
        point.documentId = Services.sampleDocumentId) = true := by
    decide +kernel
  obtain ⟨point, hpoint, hid⟩ := List.any_eq_true.mp hleft
  apply hgone.unindexed point hpoint
  simpa using hid

end Concurrent

end KnowledgeSearch

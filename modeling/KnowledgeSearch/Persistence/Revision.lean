import KnowledgeSearch.Foundations.Calls
import KnowledgeSearch.Persistence.Repositories

/-!
# The corpus revision

`SqlAlchemyCorpusRevisionRepository` as the statements of its transactions. `increment` reads the row
with a lock that its transaction holds until it ends, and other transactions wait for; `current` reads
what has been committed. Any statement may fail, and then the transaction is rolled back; when a commit
fails, the transaction may have been committed all the same.

`Revision.increments_counted` says that the calls are increments and readings of one counter, and
`Revision.increments_complete` that no transaction waits for good.
-/

namespace KnowledgeSearch

inductive RevisionOperation where
  | increment
  | current
  deriving DecidableEq

/-- The statement a transaction executes next: it selects the row, writes it after it has read a
revision, or commits what it has written. -/
inductive RevisionStage where
  | selecting
  | writing (revision : ℕ)
  | committing (revision : ℕ)
  deriving DecidableEq

/-- The committed row, unless there is none, and the transaction that has locked it. -/
structure Revision where
  row : Option ℕ
  holder : Option ℕ

/-- The error a statement fails with, and whether it has been carried out. -/
abbrev RevisionFault := AppError × Bool

/-- The revision an operation returns. -/
abbrev RevisionResult := Except AppError ℕ

namespace Revision

/-- The error when the migrations have not been run. -/
def missing : AppError :=
  .lookup "corpus revision singleton does not exist"

/-- `SqlAlchemyCorpusRevisionRepository.increment`, with the rest of its transaction. -/
def increment (i : ℕ) : RevisionStage → Option RevisionFault → Revision →
    Option (Revision × (RevisionStage ⊕ RevisionResult))
  | .selecting, some fault, revision => some (revision, .inr (.error fault.1))
  | .selecting, none, ⟨none, holder⟩ => some (⟨none, holder⟩, .inr (.error missing))
  -- the row is locked by another transaction
  | .selecting, none, ⟨some _, some _⟩ => none
  | .selecting, none, ⟨some n, none⟩ => some (⟨some n, some i⟩, .inl (.writing n))
  | .writing n, none, revision => some (revision, .inl (.committing (n + 1)))
  | .writing _, some fault, ⟨row, _⟩ => some (⟨row, none⟩, .inr (.error fault.1))
  | .committing n, none, _ => some (⟨some n, none⟩, .inr (.ok n))
  | .committing n, some fault, ⟨row, _⟩ =>
      some (⟨if fault.2 then some n else row, none⟩, .inr (.error fault.1))

/-- `SqlAlchemyCorpusRevisionRepository.current`, in the transaction of
`PostgresCorpusRevisionProvider.current`. -/
def current : Option RevisionFault → Revision → Revision × (RevisionStage ⊕ RevisionResult)
  | some fault, revision => (revision, .inr (.error fault.1))
  | none, revision =>
      (revision, .inr (match revision.row with
        | none => .error missing
        | some n => .ok n))

/-- The methods of the repository. -/
def methods : Staged Revision RevisionOperation RevisionStage RevisionResult (Option RevisionFault) where
  first _ := .selecting
  go
    | i, .increment, stage, fault, revision => increment i stage fault revision
    | _, .current, _, fault, revision => some (current fault revision)

/-- The operations of a counter. -/
def perform : RevisionOperation → Option RevisionFault → Option ℕ → Option ℕ × RevisionResult
  | .increment, none, some n => (some (n + 1), .ok (n + 1))
  | .current, none, some n => (some n, .ok n)
  | _, none, none => (none, .error missing)
  | .increment, some fault, row => (if fault.2 then row.map (· + 1) else row, .error fault.1)
  | .current, some fault, row => (row, .error fault.1)

/-- An increment that succeeds is the one of the store. -/
theorem perform_increment (db : Database) :
  perform .increment none (some db.revision)
    = (some db.incrementRevision.revision, .ok db.incrementRevision.revision)
  := rfl

/-! ### The lock -/

/-- What a transaction that has locked the row has read is still there, and the other calls have not locked
it. -/
def Underway (i : ℕ) (revision : Revision) : Option (RevisionOperation × RevisionStage) → Prop
  | some (.increment, .writing n) => revision = ⟨some n, some i⟩
  | some (.increment, .committing m) => ∃ n, m = n + 1 ∧ revision = ⟨some n, some i⟩
  | _ => revision.holder ≠ some i

/-- A call whose transaction has not locked the row stands as it did when the row changes. -/
theorem Underway.other {i : ℕ} {revision revision' : Revision}
    {call : Option (RevisionOperation × RevisionStage)} (h : Underway i revision call)
    (hnot : revision.holder ≠ some i) (hnot' : revision'.holder ≠ some i) :
  Underway i revision' call
  := by
  match call with
  | some (.increment, .writing n) =>
      have hlocked : revision = ⟨some n, some i⟩ := h
      exact absurd (congrArg holder hlocked) hnot
  | some (.increment, .committing m) =>
      obtain ⟨n, -, hlocked⟩ := h
      exact absurd (congrArg holder hlocked) hnot
  | none | some (.increment, .selecting) | some (.current, _) => apply hnot'

/-- What a statement does. -/
inductive Answers (i : ℕ) (revision : Revision) (operation : RevisionOperation) (stage : RevisionStage) :
    Option RevisionFault → Revision × (RevisionStage ⊕ RevisionResult) → Prop
  | lock {n : ℕ} (hoperation : operation = .increment) (hrow : revision = ⟨some n, none⟩) :
      Answers i revision operation stage none (⟨some n, some i⟩, .inl (.writing n))
  | write {n : ℕ} (hoperation : operation = .increment) (hrow : revision = ⟨some n, some i⟩) :
      Answers i revision operation stage none (revision, .inl (.committing (n + 1)))
  | commit {n : ℕ} (hoperation : operation = .increment) (hrow : revision = ⟨some n, some i⟩) :
      Answers i revision operation stage none (⟨some (n + 1), none⟩, .inr (.ok (n + 1)))
  | fail {n : ℕ} {fault : RevisionFault} (hoperation : operation = .increment)
      (hrow : revision = ⟨some n, some i⟩) (done : Bool) :
      Answers i revision operation stage (some fault)
        (⟨some (if done then n + 1 else n), none⟩, .inr (.error fault.1))
  | refuse {fault : Option RevisionFault} {error : AppError} (hholder : revision.holder ≠ some i)
      (herror : fault = none → revision.row = none ∧ error = missing) :
      Answers i revision operation stage fault (revision, .inr (.error error))
  | read {n : ℕ} (hoperation : operation = .current) (hholder : revision.holder ≠ some i)
      (hrow : revision.row = some n) :
      Answers i revision operation stage none (revision, .inr (.ok n))

theorem go_answers {i : ℕ} {revision : Revision} {operation : RevisionOperation} {stage : RevisionStage}
    {fault : Option RevisionFault} {answer : Revision × (RevisionStage ⊕ RevisionResult)}
    (hunderway : Underway i revision (some (operation, stage)))
    (h : methods.go i operation stage fault revision = some answer) :
  Answers i revision operation stage fault answer
  := by
  cases operation with
  | increment =>
      have hanswer : increment i stage fault revision = some answer := h
      revert hanswer hunderway
      fun_cases increment i stage fault revision
      case case1 =>
        rintro hholder ⟨⟩
        apply Answers.refuse hholder
        rintro ⟨⟩
      case case2 =>
        rintro hholder ⟨⟩
        apply Answers.refuse hholder
        intro _
        exact ⟨rfl, rfl⟩
      case case3 =>
        rintro _ ⟨⟩
      case case4 =>
        rintro _ ⟨⟩
        apply Answers.lock rfl rfl
      case case5 =>
        rintro hrow ⟨⟩
        apply Answers.write rfl hrow
      case case6 =>
        rintro ⟨⟩ ⟨⟩
        apply Answers.fail rfl rfl false
      case case7 =>
        rintro ⟨n, rfl, hrow⟩ ⟨⟩
        apply Answers.commit rfl hrow
      case case8 fault' row holder' =>
        rintro ⟨n, rfl, ⟨⟩⟩ ⟨⟩
        cases hdone : fault'.2 with
        | true => apply Answers.fail rfl rfl true
        | false => apply Answers.fail rfl rfl false
  | current =>
      obtain rfl := Option.some.inj h
      cases fault with
      | some fault =>
          apply Answers.refuse hunderway
          rintro ⟨⟩
      | none =>
          simp only [current]
          split
          · rename_i hrow
            apply Answers.refuse hunderway
            intro _
            exact ⟨hrow, rfl⟩
          · rename_i n hrow
            apply Answers.read rfl hunderway hrow

/-- The row is there. -/
def Present (revision : Revision) (_ : List (RevisionOperation × RevisionResult)) : Prop :=
  ∃ n, revision.row = some n

/-- Every statement of every call keeps the invariants. -/
theorem keeps :
  methods.Keeps Present Underway
  := by
  constructor
  · intro i revision log operation _ hidle
    cases operation with
    | increment | current => apply hidle
  · intro i revision revision' log operation stage stage' fault hpresent hunderway hgo
    cases go_answers hunderway hgo with
    | @lock n hoperation =>
        subst hoperation
        exact ⟨⟨n, rfl⟩, rfl⟩
    | @write n hoperation hrow =>
        subst hoperation
        exact ⟨hpresent, n, rfl, hrow⟩
  · intro i revision revision' log operation stage result fault hpresent hunderway hgo
    cases go_answers hunderway hgo with
    | commit | fail =>
        refine ⟨⟨_, rfl⟩, ?_⟩
        rintro ⟨⟩
    | refuse hholder | read _ hholder => exact ⟨hpresent, hholder⟩
  · intro i j revision revision' log operation stage r fault call _ hunderway hgo hji hother
    have hij : some i ≠ some j := by
      simpa using Ne.symm hji
    cases go_answers hunderway hgo with
    | lock _ hrow =>
        apply hother.other
        · simp [hrow]
        · apply hij
    | write | refuse | read => apply hother
    | commit _ hrow | fail _ hrow =>
        apply hother.other
        · rw [hrow]
          apply hij
        · rintro ⟨⟩

/-- The transactions take their effect when they end. -/
theorem atomic :
  methods.Atomic Present Underway perform row
  := by
  constructor
  · intro i revision revision' log operation stage stage' fault _ hunderway hgo
    cases go_answers hunderway hgo with
    | lock _ hrow => rw [hrow]
    | write => rfl
  · intro i revision revision' log operation stage result fault hpresent hunderway hgo
    cases go_answers hunderway hgo with
    | commit hoperation hrow =>
        subst hoperation
        use none
        rw [hrow]
        rfl
    | @fail n fault hoperation hrow done =>
        subst hoperation
        use some (fault.1, done)
        rw [hrow]
        cases done with
        | true | false => rfl
    | @refuse _ error hholder herror =>
        use some (error, false)
        cases operation with
        | increment | current => rfl
    | @read n hoperation hholder hrow =>
        subst hoperation
        use none
        rw [hrow]
        rfl

theorem holds_quiet (n : ℕ) :
  Staged.Holds Present Underway (Staged.quiet ⟨some n, none⟩ : Staged.State _ _ _ RevisionResult)
  := by
  constructor
  · exact ⟨n, rfl⟩
  · rintro i ⟨⟩

/-! ### Counting -/

/-- The revisions two calls return, the first of which has ended before the second. -/
def Follows (x y : RevisionOperation × RevisionResult) : Prop :=
  ∀ a b, x.2 = .ok a → y.2 = .ok b → a ≤ b ∧ (y.1 = .increment → a < b)

/-- An increment has returned. -/
def counted (x : RevisionOperation × RevisionResult) : Bool :=
  x.1 = .increment && x.2.isOk

/-- An operation on a counter that stands at `n`. -/
theorem perform_spec (operation : RevisionOperation) (fault : Option RevisionFault) (n : ℕ) :
  ∃ n', (perform operation fault (some n)).1 = some n' ∧ n ≤ n'
    ∧ n' ≤ n + (if operation = .increment then 1 else 0)
    ∧ ∀ a, (perform operation fault (some n)).2 = .ok a → a = n' ∧ (operation = .increment → n' = n + 1)
  := by
  cases fault with
  | none =>
      cases operation with
      | increment => exact ⟨n + 1, rfl, by simp [perform]⟩
      | current => exact ⟨n, rfl, by simp [perform]⟩
  | some fault =>
      cases operation with
      | increment =>
          cases hdone : fault.2 with
          | true => exact ⟨n + 1, by simp [perform, hdone]⟩
          | false => exact ⟨n, by simp [perform, hdone]⟩
      | current => exact ⟨n, rfl, by simp [perform]⟩

/-- What a log of operations on a counter says about it. -/
theorem replays_spec : ∀ {log : List (RevisionOperation × RevisionResult)} {n : ℕ} {row : Option ℕ},
    Staged.Replays perform (some n) log row →
    ∃ m, row = some m ∧ n + log.countP counted ≤ m
      ∧ m ≤ n + log.countP (fun x => x.1 = .increment)
      ∧ (∀ x ∈ log, ∀ a, x.2 = .ok a → n ≤ a ∧ a ≤ m ∧ (x.1 = .increment → n < a))
      ∧ log.Pairwise Follows
  | [], n, _, rfl => ⟨n, rfl, by simp⟩
  | (operation, result) :: log, n, row, ⟨fault, hresult, h⟩ => by
      obtain ⟨n', hrow, hle, hgrowth, hreturn⟩ := perform_spec operation fault n
      rw [hrow] at h
      rw [hresult] at hreturn
      obtain ⟨m, hm, hcounted, hincrements, hbounds, hpairwise⟩ := replays_spec h
      refine ⟨m, hm, ?_, ?_, ?_, ?_⟩
      · rw [List.countP_cons]
        split
        · rename_i hhead
          simp only [counted, Bool.and_eq_true, decide_eq_true_eq] at hhead
          obtain ⟨hoperation, hok⟩ := hhead
          cases result with
          | ok a =>
              have hnext := (hreturn a rfl).2 hoperation
              omega
          | error => cases hok
        · omega
      · rw [List.countP_cons]
        simp only [decide_eq_true_eq]
        omega
      · intro x hx a ha
        rcases List.mem_cons.mp hx with rfl | hx
        · obtain ⟨rfl, hincrement⟩ := hreturn a ha
          refine ⟨hle, by omega, ?_⟩
          intro hoperation
          have hnext := hincrement hoperation
          omega
        · obtain ⟨hlow, hhigh, hincrement⟩ := hbounds x hx a ha
          refine ⟨by omega, hhigh, ?_⟩
          intro hoperation
          have hless := hincrement hoperation
          omega
      · apply List.Pairwise.cons _ hpairwise
        intro y hy a b ha hb
        obtain ⟨rfl, -⟩ := hreturn a ha
        obtain ⟨hlow, -, hincrement⟩ := hbounds y hy b hb
        exact ⟨hlow, hincrement⟩

/-- However the statements of the transactions interleave, the revision grows with every increment that
returns and with no other call than an increment; and a call returns at least the revision any call returned
that ended before, an increment a greater one. -/
theorem increments_counted {n : ℕ} {s : Staged.State Revision RevisionOperation RevisionStage RevisionResult}
    (hs : (methods.machine ⟨some n, none⟩).Reachable s) :
  ∃ m, s.shared.row = some m ∧ n + s.log.countP counted ≤ m
    ∧ m ≤ n + s.log.countP (fun x => x.1 = .increment)
    ∧ (∀ x ∈ s.log, ∀ a, x.2 = .ok a → n ≤ a ∧ a ≤ m)
    ∧ s.log.Pairwise Follows
  := by
  obtain ⟨m, hm, hcounted, hincrements, hbounds, hpairwise⟩ :=
    replays_spec (atomic.replays keeps (holds_quiet n) hs)
  refine ⟨m, hm, hcounted, hincrements, ?_, hpairwise⟩
  intro x hx a ha
  obtain ⟨hlow, hhigh, -⟩ := hbounds x hx a ha
  exact ⟨hlow, hhigh⟩

/-! ### Completing a call -/

/-- The calls of the repository. -/
abbrev Calls := Staged.State Revision RevisionOperation RevisionStage RevisionResult

/-- Left alone, the call ends, returns, and has not locked the row any more. -/
def Ends (start : Revision) (s : Calls) (i : ℕ) (operation : RevisionOperation) : Prop :=
  ∃ es s' m, (methods.machine start).run s es = some s' ∧ (∀ e ∈ es, e = .go i none)
    ∧ s'.calls = Function.update s.calls i none ∧ (operation = .increment → s'.shared.holder = none)
    ∧ s'.log = s.log ++ [(operation, .ok m)]

variable {start : Revision} {s : Calls} {i : ℕ}

/-- The last statement of a call. -/
theorem Ends.last {operation : RevisionOperation} {stage : RevisionStage} {revision : Revision} {m : ℕ}
    (hi : s.calls i = some (operation, stage))
    (hgo : methods.go i operation stage none s.shared = some (revision, .inr (.ok m)))
    (hholder : operation = .increment → revision.holder = none) :
  Ends start s i operation
  := by
  refine ⟨[.go i none], s.settle i operation (revision, .inr (.ok m)), m, ?_, by simp, rfl, hholder, rfl⟩
  have hstep : methods.step s (.go i none) = some (s.settle i operation (revision, .inr (.ok m))) := by
    simp only [Staged.step, hi, hgo, Option.map_some]
  exact Machine.run_cons_iff _ |>.mpr ⟨_, hstep, rfl⟩

/-- Another statement of a call. -/
theorem Ends.next {operation : RevisionOperation} {stage stage' : RevisionStage} {revision : Revision}
    (hi : s.calls i = some (operation, stage))
    (hgo : methods.go i operation stage none s.shared = some (revision, .inl stage'))
    (h : Ends start (s.settle i operation (revision, .inl stage')) i operation) :
  Ends start s i operation
  := by
  obtain ⟨es, s', m, hrun, hes, hcalls, hholder, hlog⟩ := h
  refine ⟨.go i none :: es, s', m, ?_, ?_, ?_, hholder, hlog⟩
  · have hstep : methods.step s (.go i none) = some (s.settle i operation (revision, .inl stage')) := by
      simp only [Staged.step, hi, hgo, Option.map_some]
    exact Machine.run_cons_iff _ |>.mpr ⟨_, hstep, hrun⟩
  · intro e he
    rcases List.mem_cons.mp he with rfl | he
    · rfl
    · apply hes e he
  · rw [hcalls]
    apply Function.update_idem

theorem ends_of_committing {m : ℕ} (hi : s.calls i = some (.increment, .committing m)) :
  Ends start s i .increment
  := by
  apply Ends.last hi rfl
  intro _
  rfl

theorem ends_of_writing {n : ℕ} (hi : s.calls i = some (.increment, .writing n)) :
  Ends start s i .increment
  := by
  apply Ends.next hi rfl
  apply ends_of_committing (m := n + 1)
  apply Function.update_self

/-- The transaction that has locked the row ends. -/
theorem ends_of_holder (hs : Staged.Holds Present Underway s) (hholder : s.shared.holder = some i) :
  Ends start s i .increment
  := by
  have hunderway := hs.calls i
  revert hunderway
  match hi : s.calls i with
  | some (.increment, .writing n) =>
      intro _
      apply ends_of_writing hi
  | some (.increment, .committing m) =>
      intro _
      apply ends_of_committing hi
  | none | some (.increment, .selecting) | some (.current, _) =>
      intro hnot
      exact absurd hholder hnot

/-- A call ends when no transaction has locked the row. -/
theorem ends_of_free (hs : Staged.Holds Present Underway s) (hholder : s.shared.holder = none)
    {operation : RevisionOperation} {stage : RevisionStage} (hi : s.calls i = some (operation, stage)) :
  Ends start s i operation
  := by
  obtain ⟨n, hrow⟩ := hs.shared
  match operation, stage with
  | .current, _ =>
      apply Ends.last (m := n) hi
      · simp only [methods, current, hrow]
        rfl
      · rintro ⟨⟩
  | .increment, .selecting =>
      have hshared : s.shared = ⟨some n, none⟩ := by
        rw [← hrow, ← hholder]
      have hgo : methods.go i .increment .selecting none s.shared
          = some (⟨some n, some i⟩, .inl (.writing n)) := by
        rw [hshared]
        rfl
      apply Ends.next hi hgo
      apply ends_of_writing (n := n)
      apply Function.update_self
  | .increment, .writing _ => apply ends_of_writing hi
  | .increment, .committing _ => apply ends_of_committing hi

/-- However the statements of the transactions have interleaved, a call that has not ended can end and
return by its own steps alone, after the transaction that has locked the row, if there is another one,
has ended by its own steps and freed it. So it may be any of the waiting calls that locks the row
next. -/
theorem increments_complete {n : ℕ} (hs : (methods.machine ⟨some n, none⟩).Reachable s)
    {operation : RevisionOperation} {stage : RevisionStage} (hi : s.calls i = some (operation, stage)) :
  ∃ fs t, (methods.machine ⟨some n, none⟩).run s fs = some t
    ∧ (fs = [] ∨ ∃ k m, s.shared.holder = some k ∧ k ≠ i ∧ (∀ e ∈ fs, e = .go k none)
      ∧ t.shared.holder = none ∧ t.calls = Function.update s.calls k none
      ∧ t.log = s.log ++ [(.increment, .ok m)])
    ∧ Ends ⟨some n, none⟩ t i operation
  := by
  have hholds := keeps.of_reachable (holds_quiet n) hs
  cases hholder : s.shared.holder with
  | none => exact ⟨[], s, rfl, Or.inl rfl, ends_of_free hholds hholder hi⟩
  | some k =>
      by_cases hki : k = i
      · subst hki
        cases operation with
        | increment => exact ⟨[], s, rfl, Or.inl rfl, ends_of_holder hholds hholder⟩
        | current => exact absurd hholder (hholds.call hi)
      · have hholder' : Ends ⟨some n, none⟩ s k .increment := ends_of_holder hholds hholder
        obtain ⟨fs, t, m, hrun, hfs, hcalls, hfree, hlog⟩ := hholder'
        have hit : t.calls i = some (operation, stage) := by
          rw [hcalls, Function.update_of_ne (Ne.symm hki), hi]
        have hholds' := keeps.of_reachable (holds_quiet n) (hs.run hrun)
        exact ⟨fs, t, hrun, Or.inr ⟨k, m, rfl, hki, hfs, hfree rfl, hcalls, hlog⟩,
          ends_of_free hholds' (hfree rfl) hit⟩

/-- Two increments and a reading. The second increment waits for the first, which is rolled back after it
has locked the row. -/
def sampleEvents : List (Staged.Event RevisionOperation (Option RevisionFault)) :=
  [.invoke 0 .increment, .invoke 1 .increment, .invoke 2 .current, .go 0 none, .go 0 (some (.database, false)),
    .go 1 none, .go 1 none, .go 1 none, .go 2 none, .invoke 0 .increment, .invoke 1 .increment, .go 0 none]

def sampleAfter : Calls :=
  ((methods.machine ⟨some 4, none⟩).run (Staged.quiet ⟨some 4, none⟩) sampleEvents).getD
    (Staged.quiet ⟨some 4, none⟩)

theorem reachable_sampleAfter :
  (methods.machine ⟨some 4, none⟩).Reachable sampleAfter
  := by
  use Staged.quiet ⟨some 4, none⟩, sampleEvents, rfl
  rfl

theorem increments_counted_sample :
  sampleAfter.log = [(.increment, .error .database), (.increment, .ok 5), (.current, .ok 5)]
    ∧ sampleAfter.log.Pairwise Follows
  := by
  obtain ⟨m, -, -, -, -, hpairwise⟩ := increments_counted reachable_sampleAfter
  use rfl, hpairwise

/-- The second increment waits again, for the first. -/
theorem increments_complete_sample :
  (methods.step sampleAfter (.go 1 none)).isNone
    ∧ ∃ fs t, (methods.machine ⟨some 4, none⟩).run sampleAfter fs = some t ∧ (∀ e ∈ fs, e = .go 0 none)
      ∧ Ends ⟨some 4, none⟩ t 1 .increment
  := by
  use rfl
  have hi : sampleAfter.calls 1 = some (.increment, .selecting) := rfl
  obtain ⟨fs, t, hrun, hfirst, hends⟩ := increments_complete reachable_sampleAfter hi
  refine ⟨fs, t, hrun, ?_, hends⟩
  rcases hfirst with rfl | ⟨k, m, hholder, -, hfs, -⟩
  · simp
  · obtain rfl : 0 = k := Option.some.inj hholder
    apply hfs

end Revision

end KnowledgeSearch

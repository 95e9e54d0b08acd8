import KnowledgeSearch.Foundations.Machine
import Mathlib.Logic.Function.Basic

/-!
# Calls in stages

An object whose operations take their effect on a shared state in stages. Any number of calls take their
stages in any order, and the log tells which operations have ended, with their results, in the order in
which they ended.

* `Staged.Keeps` is the invariant rule: an invariant of the shared state and the log, and one of each call
  that the other calls respect.
* `Staged.Atomic` is the rule for operations that take their whole effect with their last stage. By
  `Staged.Atomic.replays` the log is then one of performing the operations one after the other.
-/

/-- The first stage of an operation, and what call `i` of it does at a stage, if anything: it goes on to
another stage or ends with a result. -/
structure Staged (σ ω ι ρ φ : Type*) where
  first : ω → ι
  go : ℕ → ω → ι → φ → σ → Option (σ × (ι ⊕ ρ))

namespace Staged

variable {σ τ ω ι ρ φ ψ : Type*}

/-- The shared state, the calls that have not ended, and the log. -/
structure State (σ ω ι ρ : Type*) where
  shared : σ
  calls : ℕ → Option (ω × ι)
  log : List (ω × ρ)

/-- A call begins, or takes its next stage. -/
inductive Event (ω φ : Type*) where
  | invoke (call : ℕ) (operation : ω)
  | go (call : ℕ) (fault : φ)

/-- The state after a stage of a call. -/
def State.settle (s : State σ ω ι ρ) (i : ℕ) (operation : ω) : σ × (ι ⊕ ρ) → State σ ω ι ρ
  | (shared, .inl stage) =>
      { s with shared, calls := Function.update s.calls i (some (operation, stage)) }
  | (shared, .inr result) =>
      { shared, calls := Function.update s.calls i none, log := s.log ++ [(operation, result)] }

variable (O : Staged σ ω ι ρ φ)

/-- A step. -/
def step (s : State σ ω ι ρ) : Event ω φ → Option (State σ ω ι ρ)
  | .invoke i operation =>
      match s.calls i with
      | some _ => none
      | none =>
          some { s with calls := Function.update s.calls i (some (operation, O.first operation)) }
  | .go i fault =>
      match s.calls i with
      | none => none
      | some (operation, stage) => (O.go i operation stage fault s.shared).map (s.settle i operation)

/-- No call has begun. -/
def quiet (shared : σ) : State σ ω ι ρ where
  shared := shared
  calls := fun _ => none
  log := []

/-- The machine of the calls, from a shared state on. -/
def machine (shared : σ) : Machine (State σ ω ι ρ) (Event ω φ) where
  Start s := s = quiet shared
  step := O.step

variable {O} {s s' : State σ ω ι ρ} {shared shared' : σ}

/-- What a step does. -/
inductive Steps (O : Staged σ ω ι ρ φ) (s : State σ ω ι ρ) : Event ω φ → State σ ω ι ρ → Prop
  | invoke {i : ℕ} {operation : ω} (hcall : s.calls i = none) :
      Steps O s (.invoke i operation)
        { s with calls := Function.update s.calls i (some (operation, O.first operation)) }
  | next {i : ℕ} {operation : ω} {stage stage' : ι} {fault : φ} {shared' : σ}
      (hcall : s.calls i = some (operation, stage))
      (hgo : O.go i operation stage fault s.shared = some (shared', .inl stage')) :
      Steps O s (.go i fault)
        { s with shared := shared', calls := Function.update s.calls i (some (operation, stage')) }
  | last {i : ℕ} {operation : ω} {stage : ι} {fault : φ} {shared' : σ} {result : ρ}
      (hcall : s.calls i = some (operation, stage))
      (hgo : O.go i operation stage fault s.shared = some (shared', .inr result)) :
      Steps O s (.go i fault)
        { shared := shared', calls := Function.update s.calls i none,
          log := s.log ++ [(operation, result)] }

theorem steps {event : Event ω φ} (h : O.step s event = some s') :
  Steps O s event s'
  := by
  cases event with
  | invoke i operation =>
      simp only [step] at h
      split at h
      · cases h
      · rename_i hcall
        cases h
        apply Steps.invoke hcall
  | go i fault =>
      simp only [step] at h
      split at h
      · cases h
      · rename_i operation stage hcall
        obtain ⟨⟨shared', stage' | result⟩, hgo, hsettle⟩ := Option.map_eq_some_iff.mp h
        · cases hsettle
          apply Steps.next hcall hgo
        · cases hsettle
          apply Steps.last hcall hgo

/-! ### Invariants -/

/-- An invariant `J` of the shared state and the log, and one `P` of each call, which the other calls
respect. -/
structure Keeps (O : Staged σ ω ι ρ φ) (J : σ → List (ω × ρ) → Prop)
    (P : ℕ → σ → Option (ω × ι) → Prop) : Prop where
  first : ∀ {i shared log} operation, J shared log → P i shared none →
    P i shared (some (operation, O.first operation))
  next : ∀ {i shared shared' log operation stage stage' fault}, J shared log →
    P i shared (some (operation, stage)) →
    O.go i operation stage fault shared = some (shared', .inl stage') →
    J shared' log ∧ P i shared' (some (operation, stage'))
  last : ∀ {i shared shared' log operation stage result fault}, J shared log →
    P i shared (some (operation, stage)) →
    O.go i operation stage fault shared = some (shared', .inr result) →
    J shared' (log ++ [(operation, result)]) ∧ P i shared' none
  other : ∀ {i j shared shared' log operation stage r fault call}, J shared log →
    P i shared (some (operation, stage)) → O.go i operation stage fault shared = some (shared', r) →
    j ≠ i → P j shared call → P j shared' call

/-- Both invariants hold. -/
structure Holds (J : σ → List (ω × ρ) → Prop) (P : ℕ → σ → Option (ω × ι) → Prop)
    (s : State σ ω ι ρ) : Prop where
  shared : J s.shared s.log
  calls : ∀ i, P i s.shared (s.calls i)

variable {J : σ → List (ω × ρ) → Prop} {P : ℕ → σ → Option (ω × ι) → Prop}

theorem Holds.call (h : Holds J P s) {i : ℕ} {call : Option (ω × ι)} (hcall : s.calls i = call) :
  P i s.shared call
  := by
  rw [← hcall]
  apply h.calls i

/-- Every step preserves the invariants. -/
theorem Keeps.step (h : Keeps O J P) (hs : Holds J P s) {event : Event ω φ}
    (hstep : O.step s event = some s') :
  Holds J P s'
  := by
  cases steps hstep with
  | invoke hcall =>
      use hs.shared
      apply (Function.forall_update_iff s.calls fun j call => P j s.shared call).mpr
      use h.first _ hs.shared (hs.call hcall)
      intro j _
      apply hs.calls j
  | next hcall hgo =>
      obtain ⟨hJ, hP⟩ := h.next hs.shared (hs.call hcall) hgo
      use hJ
      apply (Function.forall_update_iff s.calls fun j call => P j _ call).mpr
      use hP
      intro j hji
      apply h.other hs.shared (hs.call hcall) hgo hji (hs.calls j)
  | last hcall hgo =>
      obtain ⟨hJ, hP⟩ := h.last hs.shared (hs.call hcall) hgo
      use hJ
      apply (Function.forall_update_iff s.calls fun j call => P j _ call).mpr
      use hP
      intro j hji
      apply h.other hs.shared (hs.call hcall) hgo hji (hs.calls j)

theorem Keeps.of_reachable (h : Keeps O J P) (hstart : Holds J P (quiet shared))
    (hs : (O.machine shared).Reachable s) :
  Holds J P s
  := by
  obtain ⟨_, es, rfl, hrun⟩ := hs
  apply (O.machine shared).run_invariant _ hstart hrun
  intro t event t' ht hstep
  apply h.step ht hstep

/-! ### Operations that take their effect at once -/

/-- A log of operations performed one after the other, from a state to another. Whether and how each of
them fails is open. -/
def Replays (perform : ω → ψ → τ → τ × ρ) : τ → List (ω × ρ) → τ → Prop
  | t, [], t' => t' = t
  | t, (operation, result) :: log, t' =>
      ∃ fault, (perform operation fault t).2 = result ∧ Replays perform (perform operation fault t).1 log t'

variable {perform : ω → ψ → τ → τ × ρ}

/-- A log grows by performing an operation. -/
theorem Replays.concat {operation : ω} {fault : ψ} {t' t'' : τ} {result : ρ}
    (hperform : perform operation fault t' = (t'', result)) :
    ∀ {log : List (ω × ρ)} {t : τ}, Replays perform t log t' →
      Replays perform t (log ++ [(operation, result)]) t''
  | [], _, rfl => ⟨fault, congrArg Prod.snd hperform, (congrArg Prod.fst hperform).symm⟩
  | (_, _) :: _, _, ⟨fault', hresult, h⟩ => ⟨fault', hresult, h.concat hperform⟩

/-- The stages of an operation but the last leave the abstract state as it is, and the last one performs
the operation. -/
structure Atomic (O : Staged σ ω ι ρ φ) (J : σ → List (ω × ρ) → Prop)
    (P : ℕ → σ → Option (ω × ι) → Prop) (perform : ω → ψ → τ → τ × ρ) (abstraction : σ → τ) : Prop where
  next : ∀ {i shared shared' log operation stage stage' fault}, J shared log →
    P i shared (some (operation, stage)) →
    O.go i operation stage fault shared = some (shared', .inl stage') →
    abstraction shared' = abstraction shared
  last : ∀ {i shared shared' log operation stage result fault}, J shared log →
    P i shared (some (operation, stage)) →
    O.go i operation stage fault shared = some (shared', .inr result) →
    ∃ fault', perform operation fault' (abstraction shared) = (abstraction shared', result)

variable {abstraction : σ → τ}

theorem Atomic.replays (h : Atomic O J P perform abstraction) (hkeeps : Keeps O J P)
    (hstart : Holds J P (quiet shared)) (hs : (O.machine shared).Reachable s) :
  Replays perform (abstraction shared) s.log (abstraction s.shared)
  := by
  suffices hboth : Holds J P s ∧ Replays perform (abstraction shared) s.log (abstraction s.shared) from
    hboth.2
  apply hs.induction
  · rintro _ rfl
    use hstart
    rfl
  · rintro t event t' ⟨ht, hlog⟩ hstep
    use hkeeps.step ht hstep
    cases steps hstep with
    | invoke => apply hlog
    | next hcall hgo =>
        simp only [h.next ht.shared (ht.call hcall) hgo]
        apply hlog
    | last hcall hgo =>
        obtain ⟨fault', hperform⟩ := h.last ht.shared (ht.call hcall) hgo
        apply hlog.concat hperform

end Staged

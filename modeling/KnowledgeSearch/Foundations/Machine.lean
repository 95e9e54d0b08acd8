import Mathlib.Data.Int.Notation
import Mathlib.Tactic.Common

/-!
# Labelled machines

A machine is a partial step function on states, driven by labels. The label of a step
carries everything the step does not compute from the state, so that a run is determined
by its first state and its list of labels.

* `Machine.run` executes a list of labels.
* `Machine.Meets` says that every step of a run meets a condition on the state before the
  step and its label, and `Machine.forall_prefix_iff_meets` when a property of the states of a run
  comes down to such a condition.
* `Machine.restrict` is the machine of the steps that meet a condition, and `Machine.run_restrict_iff`
  says what its runs are.
* `Machine.run_induction` is the invariant rule for runs whose steps meet a condition,
  `Machine.run_map_invariant` the one for runs whose labels are of one kind, and
  `Machine.Reachable.induction` the one for reachable states.
* `Machine.attempting` is the machine of an operation that may raise, and then leaves the state as
  it is, with the invariant rule `Machine.attempting_invariant` and the counting rule
  `Machine.attempting_count`.
-/

/-- A labelled machine: the states it may start in, and its partial step function. -/
structure Machine (σ ε : Type*) where
  Start : σ → Prop
  step : σ → ε → Option σ

namespace Machine

variable {σ ε : Type*} (M : Machine σ ε)

/-- The state a list of labels leads to, when every one of its steps is enabled. -/
def run : σ → List ε → Option σ
  | s, [] => some s
  | s, e :: es => (M.step s e).bind fun s' => run s' es

@[simp]
theorem run_nil (s : σ) :
  M.run s [] = some s
  := rfl

theorem run_cons (s : σ) (e : ε) (es : List ε) :
  M.run s (e :: es) = (M.step s e).bind fun s' => M.run s' es
  := rfl

/-- A run begins with a step to some state, and runs on from there. -/
theorem run_cons_iff {s s' : σ} {e : ε} {es : List ε} :
  M.run s (e :: es) = some s' ↔ ∃ t, M.step s e = some t ∧ M.run t es = some s'
  := by
  rw [run_cons]
  apply Option.bind_eq_some_iff

/-- A run of a concatenation is a run of its first part followed by one of its second. -/
theorem run_append_iff {s s' : σ} {es fs : List ε} :
  M.run s (es ++ fs) = some s' ↔ ∃ t, M.run s es = some t ∧ M.run t fs = some s'
  := by
  induction es generalizing s with
  | nil => simp
  | cons e es ih =>
      simp only [List.cons_append, run_cons_iff, ih]
      constructor
      · rintro ⟨t, ht, u, hu, h⟩
        use u, ⟨t, ht, hu⟩
      · rintro ⟨u, ⟨t, ht, hu⟩, h⟩
        use t, ht, u, hu

/-- Every step of a run meets `C`, a condition on the state before the step and its
label. -/
def Meets (C : σ → ε → Prop) : σ → List ε → Prop
  | _, [] => True
  | s, e :: es => C s e ∧ ∀ s', M.step s e = some s' → Meets C s' es

/-- The invariant rule: what holds at the start of a run and is preserved by every step
that meets `C` holds at the end of a run whose steps meet `C`. -/
theorem run_induction {C : σ → ε → Prop} {I : σ → Prop}
    (hstep : ∀ s e s', I s → C s e → M.step s e = some s' → I s') :
    ∀ {s s' : σ} {es : List ε}, I s → M.Meets C s es → M.run s es = some s' → I s'
  | _, _, [], hI, _, hrun => by
      obtain rfl := Option.some.inj hrun
      apply hI
  | s, _, e :: es, hI, ⟨hC, hes⟩, hrun => by
      obtain ⟨t, ht, hrun⟩ := (M.run_cons_iff).mp hrun
      apply run_induction hstep (hstep s e t hI hC ht) (hes t ht) hrun

/-- Every step meets a condition that its label meets in all states. -/
theorem meets_of_forall {C : σ → ε → Prop} :
    ∀ {s : σ} {es : List ε}, (∀ s, ∀ e ∈ es, C s e) → M.Meets C s es
  | _, [], _ => trivial
  | s, e :: es, h => by
      use h s e List.mem_cons_self
      intro s' _
      apply meets_of_forall
      intro t f hf
      apply h t f (List.mem_cons_of_mem e hf)

/-- The invariant rule for arbitrary runs. -/
theorem run_invariant {I : σ → Prop} (hstep : ∀ s e s', I s → M.step s e = some s' → I s')
    {s s' : σ} {es : List ε} (hI : I s) (hrun : M.run s es = some s') :
  I s'
  := M.run_induction (C := fun _ _ => True) (fun s e s' h _ => hstep s e s' h) hI
      (M.meets_of_forall fun _ _ _ => trivial) hrun

/-- The invariant rule for runs whose labels are of one kind. -/
theorem run_map_invariant {ε' : Type*} {f : ε' → ε} {I : σ → Prop}
    (hstep : ∀ s e s', I s → M.step s (f e) = some s' → I s') {s s' : σ} {es : List ε'} (hI : I s)
    (hrun : M.run s (es.map f) = some s') :
  I s'
  := by
  induction es generalizing s with
  | nil =>
      obtain rfl := Option.some.inj hrun
      apply hI
  | cons e es ih =>
      obtain ⟨t, ht, hrun⟩ := (M.run_cons_iff).mp hrun
      apply ih (hstep s e t hI ht) hrun

/-- The steps of a run of a concatenation meet a condition in both parts. -/
theorem meets_append_iff {C : σ → ε → Prop} {s s' : σ} {es fs : List ε} (hrun : M.run s es = some s') :
  M.Meets C s (es ++ fs) ↔ M.Meets C s es ∧ M.Meets C s' fs
  := by
  induction es generalizing s with
  | nil =>
      obtain rfl := Option.some.inj hrun
      simp [Meets]
  | cons e es ih =>
      obtain ⟨t, ht, hrun⟩ := (M.run_cons_iff).mp hrun
      simp only [List.cons_append, Meets, ht, Option.some.injEq, forall_eq', ih hrun, and_assoc]

theorem meets_cons_iff_of_some {C : σ → ε → Prop} {s t : σ} {e : ε} {es : List ε}
    (h : M.step s e = some t) :
  M.Meets C s (e :: es) ↔ C s e ∧ M.Meets C t es
  := by simp [Meets, h]

theorem meets_cons_iff_of_none {C : σ → ε → Prop} {s : σ} {e : ε} {es : List ε}
    (h : M.step s e = none) :
  M.Meets C s (e :: es) ↔ C s e
  := by simp [Meets, h]

/-- What a step keeps exactly when it meets a condition holds throughout a run exactly when all its
steps meet it. -/
theorem forall_prefix_iff_meets {C : σ → ε → Prop} {I P : σ → Prop}
    (hstep : ∀ s e s', I s → P s → M.step s e = some s' → I s' ∧ (P s' ↔ C s e)) {s s' : σ}
    {es : List ε} (hI : I s) (hP : P s) (hrun : M.run s es = some s') :
  (∀ fs, fs <+: es → ∀ t, M.run s fs = some t → P t) ↔ M.Meets C s es
  := by
  have hnil : ∀ {s t}, P s → M.run s [] = some t → P t := by
    intro s t hP ht
    obtain rfl := Option.some.inj ht
    apply hP
  induction es generalizing s with
  | nil =>
      constructor
      · intro _
        trivial
      · intro _ fs hfs t ht
        obtain rfl := List.prefix_nil.mp hfs
        apply hnil hP ht
  | cons e es ih =>
      obtain ⟨u, hu, hrest⟩ := (M.run_cons_iff).mp hrun
      obtain ⟨hIu, hPu⟩ := hstep s e u hI hP hu
      rw [M.meets_cons_iff_of_some hu]
      constructor
      · intro h
        have hu' : P u := by
          apply h [e] (List.cons_prefix_cons.mpr ⟨rfl, List.nil_prefix⟩)
          apply (M.run_cons_iff).mpr ⟨u, hu, rfl⟩
        use hPu.mp hu'
        apply (ih hIu hu' hrest).mp
        intro fs hfs t ht
        apply h (e :: fs) (List.cons_prefix_cons.mpr ⟨rfl, hfs⟩)
        apply (M.run_cons_iff).mpr ⟨u, hu, ht⟩
      · rintro ⟨hC, hmeets⟩ fs hfs t ht
        cases fs with
        | nil => apply hnil hP ht
        | cons f fs =>
            obtain ⟨rfl, htail⟩ := List.cons_prefix_cons.mp hfs
            obtain ⟨v, hv, ht⟩ := (M.run_cons_iff).mp ht
            obtain rfl := Option.some.inj (hu.symm.trans hv)
            apply (ih hIu (hPu.mpr hC) hrest).mpr hmeets fs htail t ht

instance decidableMeets (C : σ → ε → Prop) [∀ s e, Decidable (C s e)] :
    ∀ s es, Decidable (M.Meets C s es)
  | _, [] => .isTrue trivial
  | s, e :: es =>
      match h : M.step s e with
      | none => decidable_of_iff _ (M.meets_cons_iff_of_none h).symm
      | some t =>
          have := decidableMeets C t es
          decidable_of_iff _ (M.meets_cons_iff_of_some h).symm

/-! ### Restriction -/

section Restriction

variable (C : σ → ε → Prop) [∀ s e, Decidable (C s e)]

/-- The machine of the steps that meet a condition. -/
def restrict : Machine σ ε where
  Start := M.Start
  step s e := if C s e then M.step s e else none

theorem step_restrict_iff {s s' : σ} {e : ε} :
  (M.restrict C).step s e = some s' ↔ C s e ∧ M.step s e = some s'
  := by
  by_cases hC : C s e
  · simp [restrict, hC]
  · simp [restrict, hC]

/-- The runs of the restricted machine are those whose steps meet the condition. -/
theorem run_restrict_iff {s s' : σ} {es : List ε} :
  (M.restrict C).run s es = some s' ↔ M.run s es = some s' ∧ M.Meets C s es
  := by
  induction es generalizing s with
  | nil => simp [Meets]
  | cons e es ih =>
      simp only [run_cons_iff, step_restrict_iff, ih]
      constructor
      · rintro ⟨t, ⟨hC, ht⟩, hrun, hmeets⟩
        use ⟨t, ht, hrun⟩
        apply (M.meets_cons_iff_of_some ht).mpr ⟨hC, hmeets⟩
      · rintro ⟨⟨t, ht, hrun⟩, hmeets⟩
        obtain ⟨hC, hmeets⟩ := (M.meets_cons_iff_of_some ht).mp hmeets
        use t, ⟨hC, ht⟩, hrun

end Restriction

/-! ### Operations that may raise -/

section Attempting

variable {β : Type*} (op : σ → ε → Except β σ)

/-- The state after an operation that leaves it as it is when it raises. -/
def attempt (s : σ) (e : ε) : σ :=
  match op s e with
  | .ok s' => s'
  | .error _ => s

/-- The machine whose steps attempt an operation. -/
def attempting (Start : σ → Prop) : Machine σ ε where
  Start := Start
  step s e := some (attempt op s e)

/-- The number of operations of a kind in a run that do not raise. -/
def successes (kind : ε → Bool) : σ → List ε → ℕ
  | _, [] => 0
  | s, e :: es =>
      (if kind e && (op s e).isOk then 1 else 0) + successes kind (attempt op s e) es

variable {op} {Start : σ → Prop}

theorem attempt_of_eq_ok {s s' : σ} {e : ε} (h : op s e = .ok s') :
  attempt op s e = s'
  := by rw [attempt, h]

/-- An operation that raises leaves the state as it is. -/
theorem attempt_of_eq_error {s : σ} {e : ε} {b : β} (h : op s e = .error b) :
  attempt op s e = s
  := by rw [attempt, h]

/-- The invariant rule for operations that may raise: only those that do not matter. -/
theorem attempting_invariant {I : σ → Prop} (hstep : ∀ s e s', I s → op s e = .ok s' → I s')
    {s s' : σ} {es : List ε} (hI : I s) (hrun : (attempting op Start).run s es = some s') :
  I s'
  := by
  apply run_invariant _ _ hI hrun
  intro s e s' hI h
  obtain rfl := Option.some.inj h
  cases hop : op s e with
  | ok t =>
      rw [attempt_of_eq_ok hop]
      apply hstep s e t hI hop
  | error b =>
      rw [attempt_of_eq_error hop]
      apply hI

/-- A run that goes on with an operation that raises ends in the same state. -/
theorem run_concat_of_eq_error {s s' : σ} {es : List ε} {e : ε}
    (hrun : (attempting op Start).run s es = some s') (h : ∃ b, op s' e = .error b) :
  (attempting op Start).run s (es ++ [e]) = some s'
  := by
  obtain ⟨b, h⟩ := h
  apply (run_append_iff _).mpr
  use s', hrun
  apply (run_cons_iff _).mpr
  use s', congrArg some (attempt_of_eq_error h)
  rfl

/-- What every successful operation of a kind increases by one, and the others leave, counts
them. -/
theorem attempting_count {kind : ε → Bool} {f : σ → ℤ}
    (hstep : ∀ s e s', op s e = .ok s' → f s' = f s + if kind e then 1 else 0)
    {s s' : σ} {es : List ε} (hrun : (attempting op Start).run s es = some s') :
  f s' = f s + successes op kind s es
  := by
  induction es generalizing s with
  | nil =>
      obtain rfl := Option.some.inj hrun
      simp [successes]
  | cons e es ih =>
      obtain ⟨t, ht, hrun⟩ := (run_cons_iff _).mp hrun
      obtain rfl := Option.some.inj ht
      rw [ih hrun, successes]
      cases hop : op s e with
      | ok t =>
          rw [attempt_of_eq_ok hop, hstep s e t hop]
          simp only [Except.isOk, Except.toBool, Bool.and_true]
          split
          · omega
          · omega
      | error b =>
          rw [attempt_of_eq_error hop]
          simp [Except.isOk, Except.toBool]

/-- What every successful operation sets to a value of its label is at last one of these values, or
as it was at first. -/
theorem attempting_mem {α : Type*} {f : σ → α} {g : ε → α}
    (hstep : ∀ s e s', op s e = .ok s' → f s' = g e) {s s' : σ} {es : List ε}
    (hrun : (attempting op Start).run s es = some s') :
  f s' ∈ f s :: es.map g
  := by
  induction es generalizing s with
  | nil =>
      obtain rfl := Option.some.inj hrun
      apply List.mem_cons_self
  | cons e es ih =>
      obtain ⟨t, ht, hrun⟩ := (run_cons_iff _).mp hrun
      obtain rfl := Option.some.inj ht
      have hmem := ih hrun
      rw [List.map_cons]
      cases hop : op s e with
      | ok t =>
          rw [attempt_of_eq_ok hop, hstep s e t hop] at hmem
          apply List.mem_cons_of_mem _ hmem
      | error b =>
          rw [attempt_of_eq_error hop, List.mem_cons] at hmem
          rw [List.mem_cons, List.mem_cons]
          apply hmem.imp_right Or.inr

end Attempting

/-- A state some run from a starting state ends in. -/
def Reachable (s : σ) : Prop :=
  ∃ s₀ es, M.Start s₀ ∧ M.run s₀ es = some s

variable {M}

/-- A run from a reachable state ends in one. -/
theorem Reachable.run {s s' : σ} {es : List ε} (h : M.Reachable s)
    (hrun : M.run s es = some s') :
  M.Reachable s'
  := by
  obtain ⟨s₀, es₀, hs₀, hrun₀⟩ := h
  use s₀, es₀ ++ es, hs₀
  apply M.run_append_iff.mpr
  use s, hrun₀

/-- A step from a reachable state leads to one. -/
theorem Reachable.step {s s' : σ} {e : ε} (h : M.Reachable s) (hstep : M.step s e = some s') :
  M.Reachable s'
  := by
  apply Reachable.run h (M.run_cons_iff.mpr ⟨s', hstep, M.run_nil s'⟩)

/-- What the restricted machine reaches, the machine does. -/
theorem Reachable.of_restrict {C : σ → ε → Prop} [∀ s e, Decidable (C s e)] {s : σ}
    (h : (M.restrict C).Reachable s) :
  M.Reachable s
  := by
  obtain ⟨s₀, es, hs₀, hrun⟩ := h
  use s₀, es, hs₀, ((M.run_restrict_iff C).mp hrun).1

/-- The invariant rule for reachable states. -/
theorem Reachable.induction {I : σ → Prop} (hstart : ∀ s, M.Start s → I s)
    (hstep : ∀ s e s', I s → M.step s e = some s' → I s') {s : σ} (h : M.Reachable s) :
  I s
  := by
  obtain ⟨s₀, es, hs₀, hrun⟩ := h
  apply M.run_invariant hstep (hstart s₀ hs₀) hrun

end Machine

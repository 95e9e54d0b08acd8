import KnowledgeSearch.Foundations.Machine
import Mathlib.Logic.Function.Basic

/-!
# Initialising once

A cell that is filled on demand: a caller that finds it empty takes a lock, looks again, and makes the
value if the cell is still empty. Any number of callers take their steps in any order; making the value
may fail, and then raises from the caller that tried.

* `Once.Sound` is the invariant: one caller at most is between taking the lock and releasing it, and what
  has been made is what the cell holds or the caller with the lock is about to put there.
* `Once.returned_eq`: all callers that return, return the only value made.
* `Once.completes`: whoever has the lock can release it, and a caller under way can complete.
-/

/-- Where a caller stands. -/
inductive Once.Caller (α : Type*) where
  | idle
  | waiting
  | checking
  | making
  | storing (value : α)
  | leaving
  | failing
  | reading
  | returned (value : Option α)
  | raised

/-- The cell, who has its lock, the callers, and the values made so far. -/
structure Once (α : Type*) where
  cell : Option α
  holder : Option ℕ
  callers : ℕ → Once.Caller α
  made : List α

namespace Once

variable {α : Type*}

/-- The caller has the lock. -/
def Caller.Holds : Caller α → Prop
  | checking | making | storing _ | leaving | failing => True
  | idle | waiting | reading | returned _ | raised => False

/-- The caller has begun and not ended. -/
def Caller.Underway : Caller α → Prop
  | idle | returned _ | raised => False
  | _ => True

/-- A step of a caller. When it makes the value, the outcome is the value, or nothing if that fails. -/
def step (s : Once α) : ℕ × Option α → Option (Once α)
  | (i, outcome) =>
      let goTo (s : Once α) (caller : Caller α) : Option (Once α) :=
        some { s with callers := Function.update s.callers i caller }
      match s.callers i with
      | .idle | .returned _ | .raised =>
          match s.cell with
          | none => goTo s .waiting
          | some _ => goTo s .reading
      | .waiting =>
          match s.holder with
          | none => goTo { s with holder := some i } .checking
          | some _ => none
      | .checking =>
          match s.cell with
          | none => goTo s .making
          | some _ => goTo s .leaving
      | .making =>
          match outcome with
          | none => goTo s .failing
          | some value => goTo { s with made := s.made ++ [value] } (.storing value)
      | .storing value => goTo { s with cell := some value } .leaving
      | .leaving => goTo { s with holder := none } .reading
      | .failing => goTo { s with holder := none } .raised
      | .reading => goTo s (.returned s.cell)

def initial : Once α where
  cell := none
  holder := none
  callers := fun _ => .idle
  made := []

/-- The machine of the callers. -/
def machine : Machine (Once α) (ℕ × Option α) where
  Start s := s = initial
  step := step

/-- What a caller that stands there says about the cell. -/
def Caller.Fits (cell : Option α) (made : List α) : Caller α → Prop
  | making => cell = none
  | storing value => cell = none ∧ made = [value]
  | leaving | reading => cell.isSome
  | returned value => cell.isSome ∧ value = cell
  | idle | waiting | checking | failing | raised => True

/-- The invariant of the callers. -/
structure Sound (s : Once α) : Prop where
  holder : ∀ i, (s.callers i).Holds ↔ s.holder = some i
  fits : ∀ i, (s.callers i).Fits s.cell s.made
  made : (∀ i value, s.callers i ≠ .storing value) → s.made = s.cell.toList

variable {s s' : Once α} {i : ℕ} {outcome : Option α}

theorem Caller.Fits.filled {made made' : List α} {caller : Caller α} {value : α}
    (h : caller.Fits none made) (hlock : ¬ caller.Holds) :
  caller.Fits (some value) made'
  := by
  cases caller with
  | making | storing | checking | leaving | failing => exact absurd trivial hlock
  | reading => cases h
  | returned => cases h.1
  | idle | waiting | raised => trivial

theorem Caller.Fits.mono {cell : Option α} {made made' : List α} {caller : Caller α}
    (h : caller.Fits cell made) (hlock : ¬ caller.Holds) :
  caller.Fits cell made'
  := by
  cases caller with
  | making | storing | checking | leaving | failing => exact absurd trivial hlock
  | reading | returned => apply h
  | idle | waiting | raised => trivial

/-- Two callers that have the lock are one. -/
theorem Sound.eq_of_holds (h : s.Sound) {i j : ℕ} (hi : (s.callers i).Holds) (hj : (s.callers j).Holds) :
  i = j
  := by
  have hholder := (h.holder i).mp hi
  rw [(h.holder j).mp hj] at hholder
  exact (Option.some.inj hholder).symm

/-- While a caller has the lock, no other one is about to put a value. -/
theorem Sound.ne_storing (h : s.Sound) (hi : (s.callers i).Holds) {j : ℕ} (hj : j ≠ i) (value : α) :
  s.callers j ≠ .storing value
  := by
  intro hstoring
  apply hj
  apply h.eq_of_holds _ hi
  rw [hstoring]
  trivial

/-- What a step does: the caller goes on, takes the lock, makes the value, puts it or releases the
lock. -/
inductive Steps (s : Once α) (i : ℕ) : Once α → Prop
  | go {caller : Caller α} (hholds : caller.Holds ↔ (s.callers i).Holds)
      (hfits : (s.callers i).Fits s.cell s.made → caller.Fits s.cell s.made)
      (hstoring : ∀ value, s.callers i ≠ .storing value) (hidle : caller ≠ .idle) :
      Steps s i { s with callers := Function.update s.callers i caller }
  | take (hi : s.callers i = .waiting) (hholder : s.holder = none) :
      Steps s i { s with holder := some i, callers := Function.update s.callers i .checking }
  | make {value : α} (hi : s.callers i = .making) :
      Steps s i { s with
        made := s.made ++ [value], callers := Function.update s.callers i (.storing value) }
  | store {value : α} (hi : s.callers i = .storing value) :
      Steps s i { s with cell := some value, callers := Function.update s.callers i .leaving }
  | release {caller : Caller α} (hi : s.callers i = .leaving ∧ caller = .reading
        ∨ s.callers i = .failing ∧ caller = .raised) :
      Steps s i { s with holder := none, callers := Function.update s.callers i caller }

theorem steps (h : step s (i, outcome) = some s') :
  Steps s i s'
  := by
  simp only [step] at h
  cases hi : s.callers i with
  | idle | returned | raised | checking =>
      simp only [hi] at h
      split at h
      · cases h
        apply Steps.go <;> simp_all [Caller.Holds, Caller.Fits]
      · cases h
        apply Steps.go <;> simp_all [Caller.Holds, Caller.Fits]
  | waiting =>
      simp only [hi] at h
      split at h
      · rename_i hholder
        cases h
        apply Steps.take hi hholder
      · cases h
  | making =>
      simp only [hi] at h
      split at h
      · cases h
        apply Steps.go <;> simp [hi, Caller.Holds, Caller.Fits]
      · cases h
        apply Steps.make hi
  | storing value =>
      simp only [hi] at h
      cases h
      apply Steps.store hi
  | leaving =>
      simp only [hi] at h
      cases h
      apply Steps.release (Or.inl ⟨hi, rfl⟩)
  | failing =>
      simp only [hi] at h
      cases h
      apply Steps.release (Or.inr ⟨hi, rfl⟩)
  | reading =>
      simp only [hi] at h
      cases h
      apply Steps.go <;> simp [hi, Caller.Holds, Caller.Fits]

/-- A step leaves the other callers where they stand. -/
theorem callers_of_step (h : step s (i, outcome) = some s') {j : ℕ} (hj : j ≠ i) :
  s'.callers j = s.callers j
  := by
  cases steps h with
  | go | take | make | store | release => apply Function.update_of_ne hj

/-- A caller that has taken a step has begun. -/
theorem ne_idle_of_step (h : step s (i, outcome) = some s') :
  s'.callers i ≠ .idle
  := by
  cases steps h with
  | go hholds hfits hstoring hidle => simpa only [Function.update_self] using hidle
  | take | make | store => simp only [Function.update_self, ne_eq, reduceCtorEq, not_false_iff]
  | release hi =>
      simp only [Function.update_self]
      rcases hi with ⟨-, rfl⟩ | ⟨-, rfl⟩ <;> simp

/-- Nothing has been made yet when no caller is about to put a value after a step of one that was not. -/
theorem Sound.made_of_update (h : s.Sound) {caller : Caller α}
    (hi : ∀ value, s.callers i ≠ .storing value)
    (hnone : ∀ j value, Function.update s.callers i caller j ≠ .storing value) :
  s.made = s.cell.toList
  := by
  apply h.made
  intro j value hj
  by_cases hji : j = i
  · subst hji
    apply hi value hj
  · apply hnone j value
    rw [Function.update_of_ne hji]
    apply hj

/-- Every step preserves the invariant. -/
theorem Sound.step (h : s.Sound) (hstep : Once.step s (i, outcome) = some s') :
  s'.Sound
  := by
  cases steps hstep with
  | go hholds hfits hstoring =>
      constructor
      · apply (Function.forall_update_iff s.callers fun j caller => caller.Holds ↔ s.holder = some j).mpr
        constructor
        · rw [hholds]
          apply h.holder i
        · intro j _
          apply h.holder j
      · apply (Function.forall_update_iff s.callers fun _ caller => caller.Fits s.cell s.made).mpr
        use hfits (h.fits i)
        intro j _
        apply h.fits j
      · apply h.made_of_update hstoring
  | take hi hholder =>
      constructor
      · apply (Function.forall_update_iff s.callers fun j caller => caller.Holds ↔ some i = some j).mpr
        constructor
        · simp [Caller.Holds]
        · intro j hj
          rw [h.holder j, hholder]
          simp [Ne.symm hj]
      · apply (Function.forall_update_iff s.callers fun _ caller => caller.Fits s.cell s.made).mpr
        constructor
        · trivial
        · intro j _
          apply h.fits j
      · apply h.made_of_update
        simp [hi]
  | @make value hi =>
      have hlock : (s.callers i).Holds := by
        rw [hi]
        trivial
      have hcell : s.cell = none := by
        have hfits := h.fits i
        rw [hi] at hfits
        apply hfits
      have hmade : s.made = [] := by
        rw [h.made, hcell]
        · rfl
        · intro j value
          by_cases hj : j = i
          · rw [hj, hi]
            intro hmaking
            cases hmaking
          · apply h.ne_storing hlock hj
      constructor
      · apply (Function.forall_update_iff s.callers fun j caller => caller.Holds ↔ s.holder = some j).mpr
        constructor
        · exact iff_of_true trivial ((h.holder i).mp hlock)
        · intro j _
          apply h.holder j
      · apply (Function.forall_update_iff s.callers fun _ caller => caller.Fits s.cell (s.made ++ [value])).mpr
        constructor
        · use hcell
          rw [hmade]
          rfl
        · intro j hj
          apply (h.fits j).mono
          intro hholds
          apply hj (h.eq_of_holds hholds hlock)
      · intro hnone
        exact absurd (Function.update_self ..) (hnone i value)
  | @store value hi =>
      have hlock : (s.callers i).Holds := by
        rw [hi]
        trivial
      obtain ⟨hcell, hmade⟩ : s.cell = none ∧ s.made = [value] := by
        have hfits := h.fits i
        rw [hi] at hfits
        apply hfits
      constructor
      · apply (Function.forall_update_iff s.callers fun j caller => caller.Holds ↔ s.holder = some j).mpr
        constructor
        · exact iff_of_true trivial ((h.holder i).mp hlock)
        · intro j _
          apply h.holder j
      · apply (Function.forall_update_iff s.callers fun _ caller => caller.Fits (some value) s.made).mpr
        constructor
        · rfl
        · intro j hj
          have hfits := h.fits j
          rw [hcell] at hfits
          apply hfits.filled
          intro hholds
          apply hj (h.eq_of_holds hholds hlock)
      · intro _
        apply hmade
  | @release caller hi =>
      have hlock : (s.callers i).Holds := by
        rcases hi with ⟨hi, -⟩ | ⟨hi, -⟩ <;> rw [hi] <;> trivial
      constructor
      · apply (Function.forall_update_iff s.callers fun j caller => caller.Holds ↔ none = some j).mpr
        constructor
        · rcases hi with ⟨-, rfl⟩ | ⟨-, rfl⟩ <;> simp [Caller.Holds]
        · intro j hj
          apply iff_of_false _ (by simp)
          intro hholds
          apply hj (h.eq_of_holds hholds hlock)
      · apply (Function.forall_update_iff s.callers fun _ caller => caller.Fits s.cell s.made).mpr
        constructor
        · have hfits := h.fits i
          rcases hi with ⟨hi, rfl⟩ | ⟨-, rfl⟩
          · rw [hi] at hfits
            apply hfits
          · trivial
        · intro j _
          apply h.fits j
      · intro _
        apply h.made
        intro j value
        by_cases hj : j = i
        · subst hj
          rcases hi with ⟨hi, -⟩ | ⟨hi, -⟩ <;> rw [hi] <;> simp
        · apply h.ne_storing hlock hj

theorem Sound.of_reachable (h : machine.Reachable s) :
  s.Sound
  := by
  apply h.induction
  · rintro s rfl
    constructor
    · intro i
      simp [initial, Caller.Holds]
    · intro i
      trivial
    · intro _
      rfl
  · rintro s ⟨i, outcome⟩ s' hs hstep
    apply hs.step hstep

/-- One value is made at most. -/
theorem Sound.length_made_le (h : s.Sound) :
  s.made.length ≤ 1
  := by
  by_cases hstoring : ∃ i value, s.callers i = .storing value
  · obtain ⟨i, value, hi⟩ := hstoring
    have hfits := h.fits i
    rw [hi] at hfits
    exact Nat.le_of_eq (congrArg List.length hfits.2)
  · rw [h.made]
    · cases s.cell <;> simp
    · intro i value hi
      apply hstoring ⟨i, value, hi⟩

/-- The value made is made once and for all. -/
theorem Sound.made_of_step (h : s.Sound) (hstep : Once.step s (i, outcome) = some s') {value : α}
    (hmade : s.made = [value]) :
  s'.made = [value]
  := by
  have hlength := (h.step hstep).length_made_le
  cases steps hstep with
  | go | take | store | release => apply hmade
  | make =>
      simp only [hmade, List.length_append, List.length_singleton] at hlength
      omega

/-- A caller that returns, returns the only value made. -/
theorem Sound.returned_eq (h : s.Sound) {result : Option α} (hi : s.callers i = .returned result) :
  ∃ value, result = some value ∧ s.made = [value]
  := by
  have hfits := h.fits i
  rw [hi] at hfits
  obtain ⟨hcell, rfl⟩ := hfits
  obtain ⟨value, hcell⟩ := Option.isSome_iff_exists.mp hcell
  use value, hcell
  rw [h.made, hcell]
  · rfl
  · intro j value' hj
    have hfits := h.fits j
    rw [hj, Caller.Fits, hcell] at hfits
    cases hfits.1

/-! ### Completing a call -/

/-- The steps a caller has left, when making the value succeeds. -/
def Caller.left : Caller α → ℕ
  | waiting => 6
  | checking => 5
  | making => 4
  | storing _ => 3
  | leaving => 2
  | failing | reading => 1
  | idle | returned _ | raised => 0

theorem Caller.left_pos_iff {caller : Caller α} :
  0 < caller.left ↔ caller.Underway
  := by
  cases caller <;> simp [left, Underway]

/-- A caller under way has a step, unless it waits for the lock, and is nearer to its end after it. -/
theorem advance (value : α) (hi : (s.callers i).Underway) (hfree : s.callers i = .waiting → s.holder = none) :
  ∃ caller s', Once.step s (i, some value) = some s' ∧ s'.callers = Function.update s.callers i caller
    ∧ caller.left < (s.callers i).left ∧ caller ≠ .waiting ∧ caller ≠ .idle
    ∧ (s.callers i ≠ .failing → caller ≠ .failing ∧ caller ≠ .raised)
  := by
  cases hcaller : s.callers i with
  | waiting =>
      simp only [Once.step, hcaller, hfree hcaller]
      exact ⟨_, _, rfl, rfl, by simp [Caller.left]⟩
  | checking =>
      cases hcell : s.cell with
      | none | some =>
          simp only [Once.step, hcaller, hcell]
          exact ⟨_, _, rfl, rfl, by simp [Caller.left]⟩
  | making | storing | leaving | failing | reading =>
      simp only [Once.step, hcaller]
      exact ⟨_, _, rfl, rfl, by simp [Caller.left]⟩
  | idle | returned | raised =>
      rw [hcaller] at hi
      cases hi

instance (caller : Caller α) : Decidable caller.Underway :=
  decidable_of_iff (0 < caller.left) Caller.left_pos_iff

/-- The step is one of a caller under way, and making the value succeeds in it. -/
def Succeeds (value : α) (s : Once α) (e : ℕ × Option α) : Prop :=
  (s.callers e.1).Underway ∧ e.2 = some value

/-- A caller that does not wait for the lock can complete on its own. -/
theorem Sound.drain (value : α) : ∀ (n : ℕ) {s : Once α}, s.Sound → (s.callers i).left ≤ n →
    s.callers i ≠ .waiting → s.callers i ≠ .idle →
    ∃ (es : List (ℕ × Option α)) (s' : Once α) (caller : Caller α),
      machine.run s es = some s' ∧ machine.Meets (Succeeds value) s es ∧ s'.Sound
        ∧ s'.callers = Function.update s.callers i caller ∧ ¬ caller.Underway ∧ caller ≠ .idle
        ∧ (s.callers i ≠ .failing → s.callers i ≠ .raised → caller ≠ .raised)
  | n, s, h, hleft, hwaiting, hidle => by
      by_cases hi : (s.callers i).Underway
      · obtain ⟨caller, s₁, hstep, hcallers, hless, hwaiting', hidle', hfailing⟩ :=
          advance value hi fun h => absurd h hwaiting
        have hi₁ : s₁.callers i = caller := by
          rw [hcallers, Function.update_self]
        cases n with
        | zero => omega
        | succ n =>
            rw [← hi₁] at hless hwaiting' hidle' hfailing
            obtain ⟨es, s', caller', hrun, hmeets, hs', hcallers', hended, hne, hraised⟩ :=
              Sound.drain value n (h.step hstep) (by omega) hwaiting' hidle'
            refine ⟨(i, some value) :: es, s', caller', ?_, ⟨⟨hi, rfl⟩, ?_⟩, hs', ?_, hended, hne, ?_⟩
            · exact machine.run_cons_iff.mpr ⟨s₁, hstep, hrun⟩
            · intro s₂ hstep₂
              obtain rfl := Option.some.inj (hstep.symm.trans hstep₂)
              apply hmeets
            · rw [hcallers', hcallers, Function.update_idem]
            · intro hnot _
              obtain ⟨hfailing, hnot⟩ := hfailing hnot
              apply hraised hfailing hnot
      · refine ⟨[], s, s.callers i, rfl, trivial, h, ?_, hi, hidle, fun _ hraised => hraised⟩
        rw [Function.update_eq_self]

/-- The lock is free once a caller that had it has completed. -/
theorem Sound.free (h : s.Sound) {j : ℕ} {caller : Caller α} (hs' : s'.Sound)
    (hholder : s.holder = some j) (hcallers : s'.callers = Function.update s.callers j caller)
    (hended : ¬ caller.Underway) :
  s'.holder = none
  := by
  have hlock := (h.holder j).mpr hholder
  by_contra hne
  obtain ⟨k, hk⟩ := Option.ne_none_iff_exists'.mp hne
  have hholds := (hs'.holder k).mpr hk
  rw [hcallers] at hholds
  by_cases hkj : k = j
  · rw [hkj, Function.update_self] at hholds
    cases caller <;> simp_all [Caller.Holds, Caller.Underway]
  · rw [Function.update_of_ne hkj] at hholds
    apply hkj (h.eq_of_holds hholds hlock)

/-- The lock is free once the caller that has it has completed. -/
theorem Sound.frees (h : s.Sound) (value : α) (hi : s.callers i = .waiting) :
  ∃ (es : List (ℕ × Option α)) (s' : Once α), machine.run s es = some s'
    ∧ machine.Meets (Succeeds value) s es ∧ s'.Sound ∧ s'.callers i = .waiting ∧ s'.holder = none
  := by
  cases hholder : s.holder with
  | none => exact ⟨[], s, rfl, trivial, h, hi, hholder⟩
  | some j =>
      have hlock := (h.holder j).mpr hholder
      have hj : s.callers j ≠ .waiting ∧ s.callers j ≠ .idle := by
        cases hcaller : s.callers j <;> simp_all [Caller.Holds]
      obtain ⟨es, s', caller, hrun, hmeets, hs', hcallers, hended, -⟩ :=
        h.drain value _ (Nat.le_refl _) hj.1 hj.2
      refine ⟨es, s', hrun, hmeets, hs', ?_, h.free hs' hholder hcallers hended⟩
      rw [hcallers, Function.update_of_ne, hi]
      rintro rfl
      apply hj.1 hi

/-- A caller under way can complete: the caller that has the lock completes first, if it has to wait for
it. It returns, unless making the value has failed for it before. -/
theorem Sound.completes (h : s.Sound) (hi : (s.callers i).Underway) (value : α) :
  ∃ (es : List (ℕ × Option α)) (s' : Once α), machine.run s es = some s'
    ∧ machine.Meets (Succeeds value) s es
    ∧ ((∃ result, s'.callers i = .returned result) ∨ s.callers i = .failing ∧ s'.callers i = .raised)
  := by
  have hended : ∀ {caller : Caller α}, ¬ caller.Underway → caller ≠ .idle →
      (s.callers i ≠ .failing → caller ≠ .raised) →
      (∃ result, caller = .returned result) ∨ s.callers i = .failing ∧ caller = .raised := by
    intro caller hnot hidle hfailing
    cases caller with
    | idle => exact absurd rfl hidle
    | returned result => exact Or.inl ⟨result, rfl⟩
    | raised => exact Or.inr ⟨not_not.mp fun hne => hfailing hne rfl, rfl⟩
    | _ => exact absurd trivial hnot
  by_cases hwaiting : s.callers i = .waiting
  · obtain ⟨es, s₁, hrun, hmeets, hs₁, hwaiting₁, hfree⟩ := h.frees value hwaiting
    have hunderway : (s₁.callers i).Underway := by
      rw [hwaiting₁]
      trivial
    obtain ⟨caller, s₂, hstep, hcallers, -, hnot, hidle, hfailing⟩ := advance value hunderway fun _ => hfree
    have hi₂ : s₂.callers i = caller := by
      rw [hcallers, Function.update_self]
    rw [← hi₂] at hnot hidle hfailing
    obtain ⟨hfailing, hraised⟩ := hfailing (by simp [hwaiting₁])
    obtain ⟨fs, s', caller', hrun', hmeets', -, hcallers', hnot', hidle', hraised'⟩ :=
      (hs₁.step hstep).drain value _ (Nat.le_refl _) hnot hidle
    refine ⟨es ++ (i, some value) :: fs, s', ?_, ?_, ?_⟩
    · apply machine.run_append_iff.mpr
      use s₁, hrun
      exact machine.run_cons_iff.mpr ⟨s₂, hstep, hrun'⟩
    · apply (machine.meets_append_iff hrun).mpr
      use hmeets, ⟨hunderway, rfl⟩
      intro s₃ hstep₃
      obtain rfl := Option.some.inj (hstep.symm.trans hstep₃)
      apply hmeets'
    · rw [hcallers', Function.update_self]
      apply hended hnot' hidle'
      intro _
      apply hraised' hfailing hraised
  · have hidle : s.callers i ≠ .idle ∧ s.callers i ≠ .raised := by
      cases hcaller : s.callers i <;> simp_all [Caller.Underway]
    obtain ⟨es, s', caller, hrun, hmeets, -, hcallers, hnot, hidle', hfailing⟩ :=
      h.drain value _ (Nat.le_refl _) hwaiting hidle.1
    refine ⟨es, s', hrun, hmeets, ?_⟩
    rw [hcallers, Function.update_self]
    apply hended hnot hidle'
    intro hnotFailing
    apply hfailing hnotFailing hidle.2

end Once

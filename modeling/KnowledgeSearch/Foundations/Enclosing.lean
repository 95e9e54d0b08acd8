import Mathlib.Data.List.Range
import Mathlib.Order.Lattice
import Mathlib.Tactic.Common

/-!
# Enclosing places

The places of a sequence of levels that enclose a place are those from which on all levels are
higher, up to it. A stack keeps track of them: each place removes those on its top whose level is
not below its own.
-/

namespace KnowledgeSearch

/-- On a list in which the members that satisfy a predicate come first, these are all that is
dropped. -/
theorem List.dropWhile_eq_filter_not {α : Type*} {p : α → Bool} {l : List α}
    (h : l.Pairwise fun a b => p b = true → p a = true) :
  l.dropWhile p = l.filter fun a => !p a
  := by
  induction l with
  | nil => rfl
  | cons a l ih =>
      obtain ⟨hfirst, hrest⟩ := List.pairwise_cons.mp h
      rw [List.dropWhile_cons, List.filter_cons]
      by_cases ha : p a = true
      · rw [if_pos ha, ih hrest, ha]
        rfl
      · have hnone : ∀ b ∈ l, (!p b) = true := by
          intro b hb
          rw [Bool.not_eq_true', Bool.eq_false_iff]
          exact fun hpb => ha (hfirst b hb hpb)
        rw [if_neg ha, List.filter_eq_self.mpr hnone, Bool.eq_false_iff.mpr ha]
        rfl

section Enclosing

variable {β : Type*} [LinearOrder β] (level : ℕ → β)

/-- The places up to `i` whose level is below those of all later ones up to `i`. -/
def enclosing (i : ℕ) : List ℕ :=
  (List.range (i + 1)).filter fun j => ∀ k < i + 1, j < k → level j < level k

/-- The stack of places after another. -/
def pushPlace (stack : List ℕ) (i : ℕ) : List ℕ :=
  i :: stack.dropWhile fun j => level i ≤ level j

variable {level} {i : ℕ}

theorem mem_enclosing {j : ℕ} :
  j ∈ enclosing level i ↔ j ≤ i ∧ ∀ k, j < k → k ≤ i → level j < level k
  := by
  simp only [enclosing, List.mem_filter, List.mem_range, decide_eq_true_eq, Nat.lt_succ_iff]
  apply and_congr_right
  intro _
  constructor
  · intro h k hjk hki
    apply h k hki hjk
  · intro h k hki hjk
    apply h k hjk hki

variable (level i) in
/-- A place is enclosed by itself and by the places of lower level that enclose the one before. -/
theorem enclosing_succ :
  enclosing level (i + 1)
    = ((enclosing level i).filter fun j => level j < level (i + 1)) ++ [i + 1]
  := by
  rw [enclosing, List.range_succ, List.filter_append]
  congr 1
  · rw [enclosing, List.filter_filter]
    apply List.filter_congr
    intro j hj
    have hlt : j < i + 1 := List.mem_range.mp hj
    rw [← Bool.decide_and, decide_eq_decide]
    constructor
    · intro h
      use h (i + 1) (Nat.lt_succ_self _) hlt
      intro k hk hjk
      apply h k (Nat.lt_succ_of_lt hk) hjk
    · rintro ⟨hlast, h⟩ k hk hjk
      rcases Nat.lt_succ_iff_lt_or_eq.mp hk with hk | rfl
      · apply h k hk hjk
      · apply hlast
  · apply List.filter_eq_self.mpr
    intro j hj
    rw [List.mem_singleton.mp hj, decide_eq_true_eq]
    intro k hk hlt
    omega

/-- The enclosing places are in order, and their levels go up. -/
theorem pairwise_enclosing :
  (enclosing level i).Pairwise fun j k => j < k ∧ level j < level k
  := by
  have hrange : (enclosing level i).Pairwise fun j k => j < k :=
    List.pairwise_lt_range.sublist List.filter_sublist
  apply hrange.imp_of_mem
  intro j k hj hk hlt
  use hlt
  apply (mem_enclosing.mp hj).2 k hlt (mem_enclosing.mp hk).1

/-- A place is the last of those that enclose it. -/
theorem getLast?_enclosing :
  (enclosing level i).getLast? = some i
  := by
  cases i with
  | zero => rfl
  | succ i => rw [enclosing_succ, List.getLast?_append_cons, List.getLast?_singleton]

/-- The stack has the places that enclose the last one, the innermost first. -/
theorem foldl_pushPlace (i : ℕ) :
  (List.range (i + 1)).foldl (pushPlace level) [] = (enclosing level i).reverse
  := by
  induction i with
  | zero => rfl
  | succ i ih =>
      have hdrop : (enclosing level i).reverse.dropWhile (fun j => level (i + 1) ≤ level j)
          = (enclosing level i).reverse.filter fun j => level j < level (i + 1) := by
        rw [List.dropWhile_eq_filter_not]
        · simp only [← decide_not, not_le]
        · apply List.pairwise_reverse.mpr
          apply pairwise_enclosing.imp
          rintro j k ⟨-, hlt⟩ hle
          rw [decide_eq_true_eq] at hle ⊢
          apply le_trans hle hlt.le
      rw [List.range_succ, List.foldl_append, ih, List.foldl_cons, List.foldl_nil, pushPlace,
        hdrop, enclosing_succ, List.reverse_append, List.filter_reverse]
      rfl

end Enclosing

end KnowledgeSearch

import Mathlib.Algebra.BigOperators.Group.Finset.Basic
import Mathlib.Algebra.BigOperators.Group.List.Lemmas
import Mathlib.Algebra.Order.BigOperators.Group.List
import Mathlib.Algebra.Order.Ring.Defs
import Mathlib.Data.List.Perm.Subperm
import Mathlib.Tactic.Linarith
import Mathlib.Tactic.Ring

/-!
# Weighted sums of dominated sequences

A sequence is dominated by another when its partial sums are at most those of the other. Weights
that are positive and decreasing preserve the relation, and when they decrease strictly only the
dominating sequence itself reaches its weighted sum.

A list of numbers that are not negative is dominated by any list that is sorted in decreasing
order and contains it: `List.Subperm.sum_le_sum_take`.
-/

open Finset

section Dominated

variable {K : Type*} [CommRing K] [LinearOrder K] [IsStrictOrderedRing K]
variable {f g weight : ℕ → K} {n : ℕ}

/-- The partial sums of `f` up to the index `n` are at most those of `g`. -/
def Dominated (n : ℕ) (f g : ℕ → K) : Prop :=
  ∀ k ≤ n, ∑ i ∈ range k, f i ≤ ∑ i ∈ range k, g i

omit [IsStrictOrderedRing K] in
theorem Dominated.mono {m : ℕ} (h : Dominated n f g) (hm : m ≤ n) :
  Dominated m f g
  := fun k hk => h k (hk.trans hm)

/-- Without one more summand, the weighted sums differ by at least the difference of the sums
under the next weight. -/
theorem Dominated.mul_le (h : Dominated n f g) (hweight : Antitone weight) :
  (∑ i ∈ range n, g i - ∑ i ∈ range n, f i) * weight n
    ≤ ∑ i ∈ range n, g i * weight i - ∑ i ∈ range n, f i * weight i
  := by
  induction n with
  | zero => simp
  | succ n ih =>
      have hgap : 0 ≤ ∑ i ∈ range (n + 1), g i - ∑ i ∈ range (n + 1), f i :=
        sub_nonneg.mpr (h (n + 1) le_rfl)
      have hstep := ih (h.mono n.le_succ)
      calc (∑ i ∈ range (n + 1), g i - ∑ i ∈ range (n + 1), f i) * weight (n + 1)
          ≤ (∑ i ∈ range (n + 1), g i - ∑ i ∈ range (n + 1), f i) * weight n :=
            mul_le_mul_of_nonneg_left (hweight n.le_succ) hgap
        _ = (∑ i ∈ range n, g i - ∑ i ∈ range n, f i) * weight n
              + (g n * weight n - f n * weight n) := by
            rw [sum_range_succ, sum_range_succ]
            ring
        _ ≤ ∑ i ∈ range (n + 1), g i * weight i - ∑ i ∈ range (n + 1), f i * weight i := by
            rw [sum_range_succ, sum_range_succ]
            linarith only [hstep]

/-- When the two differences agree, the partial sums are equal. -/
theorem Dominated.sum_eq (h : Dominated n f g) (hweight : StrictAnti weight)
    (heq : ∑ i ∈ range n, g i * weight i - ∑ i ∈ range n, f i * weight i
      = (∑ i ∈ range n, g i - ∑ i ∈ range n, f i) * weight n) :
  ∀ k ≤ n, ∑ i ∈ range k, f i = ∑ i ∈ range k, g i
  := by
  induction n with
  | zero =>
      intro k hk
      rw [Nat.le_zero.mp hk, sum_range_zero, sum_range_zero]
  | succ n ih =>
      have hgap : 0 ≤ ∑ i ∈ range (n + 1), g i - ∑ i ∈ range (n + 1), f i :=
        sub_nonneg.mpr (h (n + 1) le_rfl)
      have hbelow := (h.mono n.le_succ).mul_le hweight.antitone
      have hdrop := mul_le_mul_of_nonneg_left (hweight n.lt_succ_self).le hgap
      have hsplit : (∑ i ∈ range (n + 1), g i - ∑ i ∈ range (n + 1), f i) * weight n
          = (∑ i ∈ range n, g i - ∑ i ∈ range n, f i) * weight n
            + (g n * weight n - f n * weight n) := by
        rw [sum_range_succ, sum_range_succ]
        ring
      rw [sum_range_succ (fun i => g i * weight i), sum_range_succ (fun i => f i * weight i)] at heq
      have hlast : ∑ i ∈ range (n + 1), g i - ∑ i ∈ range (n + 1), f i = 0 := by
        by_contra hne
        have hlt := mul_lt_mul_of_pos_left (hweight n.lt_succ_self) (lt_of_le_of_ne hgap (Ne.symm hne))
        linarith only [heq, hbelow, hsplit, hlt]
      have hinit := ih (h.mono n.le_succ) (by linarith only [heq, hbelow, hsplit, hdrop])
      intro k hk
      rcases Nat.le_succ_iff.mp hk with hk | rfl
      · apply hinit k hk
      · exact (sub_eq_zero.mp hlast).symm

/-- A dominated sequence has the smaller weighted sum. -/
theorem Dominated.sum_mul_le (h : Dominated n f g) (hweight : Antitone weight)
    (hpos : 0 ≤ weight n) :
  ∑ i ∈ range n, f i * weight i ≤ ∑ i ∈ range n, g i * weight i
  := by
  have hgap := mul_nonneg (sub_nonneg.mpr (h n le_rfl)) hpos
  exact sub_nonneg.mp (hgap.trans (h.mul_le hweight))

/-- A dominated sequence has the same weighted sum only if it is the same sequence. -/
theorem Dominated.sum_mul_eq_iff (h : Dominated n f g) (hweight : StrictAnti weight)
    (hpos : 0 ≤ weight n) :
  ∑ i ∈ range n, f i * weight i = ∑ i ∈ range n, g i * weight i ↔ ∀ i < n, f i = g i
  := by
  constructor
  · intro heq i hi
    have hgap := mul_nonneg (sub_nonneg.mpr (h n le_rfl)) hpos
    have hle := h.mul_le hweight.antitone
    have hsum := h.sum_eq hweight (by linarith only [heq, hgap, hle])
    have hbefore := hsum i hi.le
    have hafter := hsum (i + 1) hi
    rw [sum_range_succ, sum_range_succ, hbefore] at hafter
    exact add_left_cancel hafter
  · intro heq
    apply sum_congr rfl
    intro i hi
    rw [heq i (mem_range.mp hi)]

end Dominated

/-! ### Sorted lists -/

/-- The images of some members of a list are some of their images. -/
theorem List.Subperm.image {α β : Type*} {l s : List α} (f : α → β) (h : s.Subperm l) :
  (s.map f).Subperm (l.map f)
  := by
  obtain ⟨t, hperm, hsub⟩ := h
  exact ⟨t.map f, hperm.map f, hsub.map f⟩

/-- Among the lists of at most `k` members of a list, all of them at least zero, its first `k`
members have the greatest sum when the list is sorted in decreasing order. -/
theorem List.Subperm.sum_le_sum_take {K : Type*} [AddCommMonoid K] [LinearOrder K]
    [IsOrderedAddMonoid K] {l s : List K} {k : ℕ} (h : s.Subperm l) (hlen : s.length ≤ k)
    (hsorted : l.Pairwise (· ≥ ·)) (hpos : ∀ x ∈ l, 0 ≤ x) :
  s.sum ≤ (l.take k).sum
  := by
  induction l generalizing s k with
  | nil =>
      rw [List.subperm_nil.mp h, List.take_nil]
  | cons x l ih =>
      obtain ⟨hx, hl⟩ := List.pairwise_cons.mp hsorted
      have hposl : ∀ y ∈ l, 0 ≤ y := fun y hy => hpos y (List.mem_cons_of_mem x hy)
      cases k with
      | zero =>
          rw [List.length_eq_zero_iff.mp (Nat.le_zero.mp hlen), List.take_zero]
      | succ k =>
          rw [List.take_succ_cons, List.sum_cons]
          by_cases hmem : x ∈ s
          · have hperm := List.perm_cons_erase hmem
            rw [hperm.sum_eq, List.sum_cons]
            apply add_le_add_right
            apply ih _ _ hl hposl
            · apply (List.subperm_cons x).mp ((hperm.symm.subperm).trans h)
            · rw [List.length_erase_of_mem hmem]
              apply Nat.sub_le_of_le_add hlen
          · have hsub : s.Subperm l := by
              have herase := h.erase x
              rwa [List.erase_of_not_mem hmem, List.erase_cons_head] at herase
            cases s with
            | nil =>
                rw [List.sum_nil]
                apply add_nonneg (hpos x List.mem_cons_self)
                apply List.sum_nonneg
                intro y hy
                apply hposl y (List.mem_of_mem_take hy)
            | cons y s =>
                rw [List.sum_cons]
                apply add_le_add
                · apply hx y (hsub.subset List.mem_cons_self)
                · apply ih _ (Nat.le_of_succ_le_succ hlen) hl hposl
                  apply ((List.sublist_cons_self y s).subperm).trans hsub

import Mathlib.Data.List.Sort

/-!
# Sorted lists and their best members

A list is sorted in one way by a total order, so that its sorting depends on its members only, and
sorting commutes with filtering.

Two lemmas are about the best `n` members of a list some of which count. When those that do not
count come after the best `m` of those that do, they only fill up (`List.insertionSort_eq_append`).
When there are at most `n - m` that do not count, the best `m` of those that do are still among the
best `n` of all (`List.take_filter_take`).
-/

namespace List

variable {α : Type*} {r : α → α → Prop} [DecidableRel r] [Std.Total r] [IsTrans α r]

/-- Lists with the same members are sorted to the same list. -/
theorem insertionSort_eq_of_perm {l l' : List α}
    (hantisymm : ∀ a ∈ l, ∀ b ∈ l, r a b → r b a → a = b) (h : l.Perm l') :
  l.insertionSort r = l'.insertionSort r
  := by
  have hsorted := pairwise_insertionSort r l
  have hsorted' := pairwise_insertionSort r l'
  apply List.Perm.eq_of_pairwise _ hsorted hsorted'
  · apply (perm_insertionSort r l).trans (h.trans (perm_insertionSort r l').symm)
  · intro a b ha hb
    apply hantisymm a ((mem_insertionSort r).mp ha) b (h.mem_iff.mpr ((mem_insertionSort r).mp hb))

omit [Std.Total r] in
/-- Filtering a sorted list with one more member. -/
theorem filter_orderedInsert (p : α → Bool) (a : α) {l : List α} (hl : l.Pairwise r) :
  (l.orderedInsert r a).filter p
    = if p a then (l.filter p).orderedInsert r a else l.filter p
  := by
  induction l with
  | nil =>
      by_cases ha : p a
      · simp [ha]
      · simp [ha]
  | cons b l ih =>
      obtain ⟨hb, hl⟩ := pairwise_cons.mp hl
      by_cases hab : r a b
      · rw [orderedInsert_cons_of_le _ _ hab]
        by_cases ha : p a
        · rw [filter_cons_of_pos ha, if_pos ha]
          have hbefore : ∀ c ∈ (b :: l).filter p, r a c := by
            intro c hc
            rcases mem_cons.mp (mem_of_mem_filter hc) with rfl | hc
            · apply hab
            · apply trans_of r hab (hb c hc)
          cases hfilter : (b :: l).filter p with
          | nil => rfl
          | cons c l' =>
              rw [orderedInsert_cons_of_le]
              apply hbefore
              rw [hfilter]
              apply mem_cons_self
        · rw [filter_cons_of_neg ha, if_neg ha]
      · rw [orderedInsert_of_not_le _ _ hab]
        by_cases hpb : p b
        · rw [filter_cons_of_pos hpb, filter_cons_of_pos hpb, ih hl]
          by_cases ha : p a
          · rw [if_pos ha, if_pos ha, orderedInsert_of_not_le _ _ hab]
          · rw [if_neg ha, if_neg ha]
        · rw [filter_cons_of_neg hpb, filter_cons_of_neg hpb, ih hl]

/-- Sorting commutes with filtering. -/
theorem filter_insertionSort (p : α → Bool) (l : List α) :
  (l.insertionSort r).filter p = (l.filter p).insertionSort r
  := by
  induction l with
  | nil => rfl
  | cons a l ih =>
      rw [insertionSort_cons, filter_orderedInsert p a (pairwise_insertionSort r l), ih]
      by_cases ha : p a
      · rw [if_pos ha, filter_cons_of_pos ha, insertionSort_cons]
      · rw [if_neg ha, filter_cons_of_neg ha]

/-! ### One member before another -/

omit [DecidableRel r] [Std.Total r] [IsTrans α r] in
/-- Of two members of a list one comes before the other. -/
theorem pair_sublist_or {l : List α} {a b : α} (ha : a ∈ l) (hb : b ∈ l) (hne : a ≠ b) :
  [a, b].Sublist l ∨ [b, a].Sublist l
  := by
  obtain ⟨l₁, l₂, rfl⟩ := append_of_mem ha
  rcases mem_append.mp hb with hb | hb
  · right
    apply (singleton_sublist.mpr hb).append (singleton_sublist.mpr mem_cons_self)
  · left
    have hmem : b ∈ l₂ := by
      rcases mem_cons.mp hb with rfl | hb
      · exact absurd rfl hne
      · apply hb
    apply ((singleton_sublist.mpr hmem).cons_cons a).trans (sublist_append_right l₁ (a :: l₂))

/-- In the sorting of a list without repetitions a member comes before another when it is less. -/
theorem pair_sublist_insertionSort_iff {l : List α} (hnodup : l.Nodup)
    (hantisymm : ∀ a ∈ l, ∀ b ∈ l, r a b → r b a → a = b) {a b : α} :
  [a, b].Sublist (l.insertionSort r) ↔ a ∈ l ∧ b ∈ l ∧ a ≠ b ∧ r a b
  := by
  have hsorted := pairwise_insertionSort r l
  have hperm := perm_insertionSort r l
  constructor
  · intro h
    have hab : [a, b].Nodup := (hperm.nodup_iff.mpr hnodup).sublist h
    have hle : [a, b].Pairwise r := hsorted.sublist h
    refine ⟨hperm.subset (h.subset (by simp)), hperm.subset (h.subset (by simp)), ?_, ?_⟩
    · simpa using hab
    · simpa using hle
  · rintro ⟨ha, hb, hne, hle⟩
    rcases pair_sublist_or (hperm.mem_iff.mpr ha) (hperm.mem_iff.mpr hb) hne with h | h
    · apply h
    · have hba : [b, a].Pairwise r := hsorted.sublist h
      exact absurd (hantisymm a ha b hb hle (by simpa using hba)) hne

/-! ### The best members that count -/

/-- When the members that do not count come after the best `m` of those that do, these are the best
of all. -/
theorem insertionSort_eq_append {p : α → Bool} {l : List α} {m : ℕ}
    (hantisymm : ∀ a ∈ l, ∀ b ∈ l, r a b → r b a → a = b)
    (h : ∀ a ∈ ((l.filter p).insertionSort r).take m, ∀ b ∈ l, p b = false → r a b) :
  ∃ rest, l.insertionSort r = ((l.filter p).insertionSort r).take m ++ rest
  := by
  set best := (l.filter p).insertionSort r
  set others := best.drop m ++ l.filter (fun a => !p a)
  use others.insertionSort r
  have hbest : ∀ {a}, a ∈ best → a ∈ l := by
    intro a ha
    apply mem_of_mem_filter ((mem_insertionSort r).mp ha)
  have hsplit : (best.take m ++ others).Perm l := by
    rw [← append_assoc, take_append_drop]
    apply ((perm_insertionSort r (l.filter p)).append_right _).trans (filter_append_perm p l)
  have hperm : (best.take m ++ others.insertionSort r).Perm l :=
    ((perm_insertionSort r others).append_left _).trans hsplit
  have hsorted : (best.take m ++ others.insertionSort r).Pairwise r := by
    have hpairwise : best.Pairwise r := pairwise_insertionSort r (l.filter p)
    apply pairwise_append.mpr
    refine ⟨hpairwise.sublist (take_sublist m best), pairwise_insertionSort r others, ?_⟩
    intro a ha b hb
    rcases mem_append.mp ((mem_insertionSort r).mp hb) with hb | hb
    · rw [← take_append_drop m best] at hpairwise
      apply (pairwise_append.mp hpairwise).2.2 a ha b hb
    · obtain ⟨hb, hpb⟩ := mem_filter.mp hb
      apply h a ha b hb (by simpa using hpb)
  calc l.insertionSort r = (best.take m ++ others.insertionSort r).insertionSort r :=
        insertionSort_eq_of_perm hantisymm hperm.symm
    _ = best.take m ++ others.insertionSort r := hsorted.insertionSort_eq

/-- When the members that do not count come after the best `m` of those that do, these are the
first of the best `n` of all, and members that do not count fill up when they are fewer than
`m`. -/
theorem take_insertionSort {p : α → Bool} {l : List α} {m n : ℕ} (hmn : m ≤ n)
    (hantisymm : ∀ a ∈ l, ∀ b ∈ l, r a b → r b a → a = b)
    (h : ∀ a ∈ ((l.filter p).insertionSort r).take m, ∀ b ∈ l, p b = false → r a b) :
  ∃ rest, (l.insertionSort r).take n = ((l.filter p).insertionSort r).take m ++ rest
    ∧ ((((l.filter p).insertionSort r).take m).length < m → ∀ a ∈ rest, p a = false)
  := by
  obtain ⟨rest, hrest⟩ := insertionSort_eq_append hantisymm h
  have hfilter : (l.filter p).insertionSort r
      = ((l.filter p).insertionSort r).take m ++ rest.filter p := by
    have hall : (((l.filter p).insertionSort r).take m).filter p
        = ((l.filter p).insertionSort r).take m := by
      apply filter_eq_self.mpr
      intro a ha
      apply (mem_filter.mp ((mem_insertionSort r).mp (mem_of_mem_take ha))).2
    calc (l.filter p).insertionSort r = (l.insertionSort r).filter p :=
          (filter_insertionSort p l).symm
      _ = ((l.filter p).insertionSort r).take m ++ rest.filter p := by
          rw [hrest, filter_append, hall]
  generalize (l.filter p).insertionSort r = best at hrest hfilter ⊢
  have hle : (best.take m).length ≤ n := (length_take_le m best).trans hmn
  use rest.take (n - (best.take m).length)
  constructor
  · rw [hrest, take_append, take_of_length_le hle]
  · intro hlt a ha
    have hnone : rest.filter p = [] := by
      have hlen := congrArg length hfilter
      rw [length_append] at hlen
      rw [length_take] at hlen hlt
      apply eq_nil_of_length_eq_zero
      omega
    have hnot := filter_eq_nil_iff.mp hnone a (mem_of_mem_take ha)
    simpa using hnot

/-- When at most `n - m` members do not count, the first `m` of those that do are among the first
`n` of all. -/
theorem take_filter_take {p : α → Bool} {l : List α} {m n : ℕ} (hmn : m ≤ n)
    (h : (l.filter fun a => !p a).length ≤ n - m) :
  ((l.take n).filter p).take m = (l.filter p).take m
  := by
  have hfilter : l.filter p = (l.take n).filter p ++ (l.drop n).filter p := by
    rw [← filter_append, take_append_drop]
  by_cases hlen : l.length ≤ n
  · rw [take_of_length_le hlen]
  · have hcount : m ≤ ((l.take n).filter p).length := by
      have hboth := length_eq_length_filter_add (l := l.take n) p
      have hsub : ((l.take n).filter fun a => !p a).length ≤ n - m :=
        ((take_sublist n l).filter _).length_le.trans h
      rw [length_take] at hboth
      omega
    rw [hfilter, take_append_of_le_length hcount]

end List

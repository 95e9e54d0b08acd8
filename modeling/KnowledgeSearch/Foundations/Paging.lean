import Mathlib.Data.List.Sort

/-!
# Pages of a sorted list

A page of a list is a stretch of its sorting. Its members are those whose rank, the number of members
that come before them, lies in the stretch (`List.mem_page_iff`). The rank of a value does not refer to
the sorting, so that it is easy to follow through changes of the list.
-/

namespace List

variable {α : Type*} {r : α → α → Prop} [DecidableRel r]

/-- The number of members that come before a value. -/
def rank (r : α → α → Prop) [DecidableRel r] (l : List α) (x : α) : ℕ :=
  l.countP fun y => ¬ r x y

/-- The page of at most `limit` members from the place `offset` of the sorting on. -/
def page (r : α → α → Prop) [DecidableRel r] (l : List α) (offset limit : ℕ) : List α :=
  ((l.insertionSort r).drop offset).take limit

theorem rank_eq_of_perm {l l' : List α} (h : l.Perm l') (x : α) :
  l.rank r x = l'.rank r x
  := h.countP_eq _

theorem length_page (l : List α) (offset limit : ℕ) :
  (l.page r offset limit).length = min limit (l.length - offset)
  := by
  rw [page, length_take, length_drop, length_insertionSort]

variable [Std.Total r] [IsTrans α r]

omit [IsTrans α r] in
/-- A member does not come before itself, so that its rank is the place of a member. -/
theorem rank_lt_length {l : List α} {x : α} (hx : x ∈ l) :
  l.rank r x < l.length
  := by
  rw [rank, countP_eq_length_filter, length_filter_lt_length_iff_exists]
  use x, hx
  simpa using Std.Total.total (r := r) x x

variable {l : List α} (hnodup : l.Nodup) (hantisymm : ∀ a ∈ l, ∀ b ∈ l, r a b → r b a → a = b)

include hnodup hantisymm

/-- In the sorting of a list a member stands at the place of its rank. -/
theorem getElem?_rank {x : α} (hx : x ∈ l) :
  (l.insertionSort r)[l.rank r x]? = some x
  := by
  have hperm := perm_insertionSort r l
  obtain ⟨l₁, l₂, hsplit⟩ := append_of_mem (hperm.mem_iff.mpr hx)
  have hsorted := pairwise_insertionSort r l
  have hdistinct := hperm.nodup_iff.mpr hnodup
  rw [hsplit] at hsorted hdistinct
  have hbefore : ∀ y ∈ l₁, ¬ r x y := by
    intro y hy hxy
    have hyx := (pairwise_append.mp hsorted).2.2 y hy x mem_cons_self
    have hmem : y ∈ l := by
      apply hperm.mem_iff.mp
      rw [hsplit]
      apply mem_append_left _ hy
    obtain rfl := hantisymm x hx y hmem hxy hyx
    exact disjoint_of_nodup_append hdistinct hy mem_cons_self
  have hafter : ∀ y ∈ x :: l₂, r x y := by
    intro y hy
    rcases mem_cons.mp hy with rfl | hy
    · simpa using Std.Total.total (r := r) y y
    · apply rel_of_pairwise_cons (pairwise_append.mp hsorted).2.1 hy
  have hrank : l.rank r x = l₁.length := by
    rw [← rank_eq_of_perm hperm, hsplit, rank, countP_append, countP_eq_length.mpr, countP_eq_zero.mpr]
    · rfl
    · simpa using hafter
    · simpa using hbefore
  rw [hrank, hsplit, getElem?_append_right (le_refl _), Nat.sub_self]
  rfl

/-- The members of a page are those whose rank lies in it. -/
theorem mem_page_iff {offset limit : ℕ} {x : α} :
  x ∈ l.page r offset limit
    ↔ x ∈ l ∧ offset ≤ l.rank r x ∧ l.rank r x < offset + limit
  := by
  have hperm := perm_insertionSort r l
  constructor
  · intro h
    have hx : x ∈ l := hperm.mem_iff.mp (mem_of_mem_drop (mem_of_mem_take h))
    use hx
    obtain ⟨i, hi⟩ := mem_iff_getElem?.mp h
    rw [page, getElem?_take] at hi
    split at hi
    · rename_i hlt
      rw [getElem?_drop] at hi
      have hplace : offset + i < (l.insertionSort r).length := (getElem?_eq_some_iff.mp hi).1
      have heq := (getElem?_inj hplace (hperm.nodup_iff.mpr hnodup)).mp
        (hi.trans (getElem?_rank hnodup hantisymm hx).symm)
      omega
    · cases hi
  · rintro ⟨hx, hfirst, hlast⟩
    apply mem_iff_getElem?.mpr
    use l.rank r x - offset
    rw [page, getElem?_take, if_pos (by omega), getElem?_drop, Nat.add_sub_cancel' hfirst]
    apply getElem?_rank hnodup hantisymm hx

omit hantisymm [Std.Total r] [IsTrans α r] in
theorem nodup_page (offset limit : ℕ) :
  (l.page r offset limit).Nodup
  := by
  apply Sublist.nodup ((take_sublist ..).trans (drop_sublist ..))
  apply (perm_insertionSort r l).nodup_iff.mpr hnodup

end List

import Mathlib.Data.List.Infix
import Mathlib.Data.List.TakeDrop

/-!
# Cutting a list into pieces

`cuts p s` cuts `s` after every element `a` for which `p a rest` holds, where `rest` is what
follows `a`. The pieces make up `s`, and a predicate that cuts more often cuts each piece into
smaller ones, `exists_groups_cuts`. The piece of number `i` starts at `cutStart pieces i`.
-/

namespace KnowledgeSearch

variable {α : Type*}

/-- An element put in front of the first piece. -/
def consPiece (a : α) : List (List α) → List (List α)
  | [] => [[a]]
  | piece :: pieces => (a :: piece) :: pieces

/-- The pieces of a list, which is cut after the elements that satisfy `p`. -/
def cuts (p : α → List α → Bool) : List α → List (List α)
  | [] => []
  | a :: s => if p a s then [a] :: cuts p s else consPiece a (cuts p s)

theorem flatten_consPiece (a : α) (pieces : List (List α)) :
  (consPiece a pieces).flatten = a :: pieces.flatten
  := by
  cases pieces with
  | nil => rfl
  | cons piece pieces => rfl

/-- The pieces make up the list. -/
@[simp]
theorem flatten_cuts (p : α → List α → Bool) (s : List α) :
  (cuts p s).flatten = s
  := by
  induction s with
  | nil => rfl
  | cons a s ih =>
      rw [cuts]
      split
      · rw [List.flatten_cons, ih, List.singleton_append]
      · rw [flatten_consPiece, ih]

/-- A predicate that cuts more often cuts each piece of one that cuts less often. -/
theorem exists_groups_cuts {p q : α → List α → Bool} (h : ∀ a s, p a s = true → q a s = true)
    (s : List α) :
  ∃ groups : List (List (List α)),
    (∀ group ∈ groups, group ≠ []) ∧ cuts q s = groups.flatten
      ∧ cuts p s = groups.map List.flatten
  := by
  induction s with
  | nil => exact ⟨[], by simp, rfl, rfl⟩
  | cons a s ih =>
      obtain ⟨groups, hne, hq, hp⟩ := ih
      rw [cuts, cuts, hq, hp]
      by_cases hpa : p a s = true
      · rw [if_pos hpa, if_pos (h a s hpa)]
        refine ⟨[[a]] :: groups, ?_, rfl, rfl⟩
        rw [List.forall_mem_cons]
        use List.cons_ne_nil _ _
      · rw [if_neg hpa]
        cases groups with
        | nil =>
            refine ⟨[[[a]]], ?_, ?_, rfl⟩
            · simp
            · simp [consPiece]
        | cons group groups =>
            rw [List.forall_mem_cons] at hne
            by_cases hqa : q a s = true
            · rw [if_pos hqa]
              refine ⟨([a] :: group) :: groups, ?_, rfl, rfl⟩
              rw [List.forall_mem_cons]
              use List.cons_ne_nil _ _, hne.2
            · rw [if_neg hqa]
              obtain ⟨piece, pieces, rfl⟩ := List.exists_cons_of_ne_nil hne.1
              refine ⟨((a :: piece) :: pieces) :: groups, ?_, rfl, rfl⟩
              rw [List.forall_mem_cons]
              use List.cons_ne_nil _ _, hne.2

/-! ### Where the pieces start -/

/-- The number of elements in the first `i` pieces. -/
def cutStart (pieces : List (List α)) (i : ℕ) : ℕ :=
  (pieces.take i).flatten.length

theorem cutStart_mono (pieces : List (List α)) {i j : ℕ} (h : i ≤ j) :
  cutStart pieces i ≤ cutStart pieces j
  := by
  obtain ⟨k, rfl⟩ := Nat.exists_eq_add_of_le h
  rw [cutStart, cutStart, List.take_add, List.flatten_append, List.length_append]
  apply Nat.le_add_right

/-- A piece starts where the one before it ends. -/
theorem cutStart_succ {pieces : List (List α)} {i : ℕ} {piece : List α}
    (h : pieces[i]? = some piece) :
  cutStart pieces (i + 1) = cutStart pieces i + piece.length
  := by
  rw [cutStart, cutStart, List.take_add_one, h, List.flatten_append, List.length_append]
  simp

theorem cutStart_of_length_le {pieces : List (List α)} {i : ℕ} (h : pieces.length ≤ i) :
  cutStart pieces i = pieces.flatten.length
  := by
  rw [cutStart, List.take_of_length_le h]

theorem cutStart_le (pieces : List (List α)) (i : ℕ) :
  cutStart pieces i ≤ pieces.flatten.length
  := by
  rcases le_total i pieces.length with h | h
  · rw [← cutStart_of_length_le (le_refl pieces.length)]
    apply cutStart_mono pieces h
  · rw [cutStart_of_length_le h]

/-- The first pieces are the first elements. -/
theorem take_cutStart (pieces : List (List α)) (i : ℕ) :
  pieces.flatten.take (cutStart pieces i) = (pieces.take i).flatten
  := by
  have hsplit : pieces.flatten = (pieces.take i).flatten ++ (pieces.drop i).flatten := by
    rw [← List.flatten_append, List.take_append_drop]
  rw [hsplit, cutStart, List.take_left]

/-- Successive pieces are successive elements. -/
theorem flatten_drop_take (pieces : List (List α)) (i j : ℕ) :
  ((pieces.take j).drop i).flatten
    = (pieces.flatten.take (cutStart pieces j)).drop (cutStart pieces i)
  := by
  rw [take_cutStart]
  rcases le_total i j with h | h
  · have hsplit : (pieces.take j).flatten
        = (pieces.take i).flatten ++ ((pieces.take j).drop i).flatten := by
      nth_rewrite 1 [← List.take_append_drop i (pieces.take j)]
      rw [List.flatten_append, List.take_take, min_eq_left h]
    rw [hsplit, cutStart, List.drop_left]
  · rw [List.drop_eq_nil_of_le, List.drop_eq_nil_of_le, List.flatten_nil]
    · apply cutStart_mono pieces h
    · rw [List.length_take]
      omega

/-- The place of the elements of a piece. -/
theorem getElem?_cutStart_add {pieces : List (List α)} {i p : ℕ} {piece : List α}
    (h : pieces[i]? = some piece) (hp : p < piece.length) :
  pieces.flatten[cutStart pieces i + p]? = piece[p]?
  := by
  have hsucc := cutStart_succ h
  have htake := take_cutStart pieces (i + 1)
  rw [List.take_add_one, h, List.flatten_append, Option.toList_some, List.flatten_singleton]
    at htake
  rw [← List.getElem?_take_of_lt (j := cutStart pieces (i + 1)) (by omega), htake, cutStart,
    List.getElem?_append_right (Nat.le_add_right _ _), Nat.add_sub_cancel_left]

/-- Smaller pieces of the same numbers start earlier. -/
theorem cutStart_flatten_le {groups : List (List (List α))} (h : ∀ group ∈ groups, group ≠ [])
    (i : ℕ) :
  cutStart groups.flatten i ≤ cutStart (groups.map List.flatten) i
  := by
  induction groups generalizing i with
  | nil => simp [cutStart]
  | cons group groups ih =>
      simp only [List.mem_cons, forall_eq_or_imp] at h
      have hpos : 0 < group.length := List.length_pos_iff.mpr h.1
      cases i with
      | zero => simp [cutStart]
      | succ i =>
          have hrest := ih h.2 i
          rw [cutStart, cutStart] at hrest ⊢
          rw [List.flatten_cons, List.map_cons, List.take_succ_cons, List.take_append,
            List.flatten_append, List.length_append, List.flatten_cons, List.length_append]
          have hgroup : ((group.take (i + 1)).flatten).length ≤ group.flatten.length := by
            apply cutStart_le
          have hmono : ((groups.flatten.take (i + 1 - group.length)).flatten).length
              ≤ ((groups.flatten.take i).flatten).length := by
            apply cutStart_mono
            omega
          omega

end KnowledgeSearch

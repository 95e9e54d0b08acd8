import Mathlib.Data.List.Basic
import Mathlib.Data.List.TakeWhile
import Mathlib.Tactic.Common

/-!
# Patterns with backtracking

`Pattern.lengths r s` are the lengths of the matches of the pattern `r` at the start of the list
`s`, in the order in which a backtracking matcher tries them: the left alternative before the right
one, and a repetition as often as possible first. `Pattern.first r s` is the one it settles for.

* `first_seq_of_first` says when a sequence needs no backtracking, and `first_star_of_first` and
  `first_star_of_lengths` unfold a repetition.
* `first_plus_single` is the repetition of one element.
-/

namespace KnowledgeSearch

/-- A pattern over the elements of a list. -/
inductive Pattern (α : Type*) where
  /-- An element of a class. -/
  | single (p : α → Bool)
  | seq (r t : Pattern α)
  | alt (r t : Pattern α)
  /-- A repetition, as often as possible first. -/
  | star (r : Pattern α)

namespace Pattern

variable {α : Type*}

/-- The lengths of the matches of a repetition, at most `fuel` times, of a pattern with the
matches `m`. An empty match is not repeated. -/
def starLengths (m : List α → List ℕ) : ℕ → List α → List ℕ
  | 0, _ => [0]
  | fuel + 1, s =>
      ((m s).filter (0 < ·)).flatMap (fun n => (starLengths m fuel (s.drop n)).map (n + ·)) ++ [0]

/-- The lengths of the matches of a pattern at the start of a list. -/
def lengths : Pattern α → List α → List ℕ
  | single _, [] => []
  | single p, a :: _ => if p a then [1] else []
  | seq r t, s => (lengths r s).flatMap fun n => (lengths t (s.drop n)).map (n + ·)
  | alt r t, s => lengths r s ++ lengths t s
  | star r, s => starLengths (lengths r) s.length s

/-- A repetition of at least one. -/
def plus (r : Pattern α) : Pattern α :=
  seq r (star r)

/-- The length of the match a matcher finds at the start of a list. -/
def first (r : Pattern α) (s : List α) : Option ℕ :=
  (lengths r s).head?

variable {r t : Pattern α} {s : List α}

/-- A list of mapped lists starts with the first of them that is not empty. -/
theorem head?_flatMap_of_head? {β γ : Type*} {l : List β} {f : β → List γ} {b : β} {c : γ}
    (hl : l.head? = some b) (hf : (f b).head? = some c) :
  (l.flatMap f).head? = some c
  := by
  obtain ⟨l, rfl⟩ := List.head?_eq_some_iff.mp hl
  rw [List.flatMap_cons, List.head?_append, hf, Option.some_or]

/-- Matches fit into the list. -/
theorem le_of_mem_lengths (r : Pattern α) :
    ∀ (s : List α), ∀ n ∈ lengths r s, n ≤ s.length
  := by
  induction r with
  | single p =>
      intro s n hn
      cases s with
      | nil => cases hn
      | cons a s =>
          rw [lengths] at hn
          split at hn
          · rw [List.mem_singleton.mp hn]
            apply Nat.le_add_left
          · cases hn
  | seq r t ihr iht =>
      intro s n hn
      obtain ⟨k, hk, hn⟩ := List.mem_flatMap.mp hn
      obtain ⟨l, hl, rfl⟩ := List.mem_map.mp hn
      have hle := ihr s k hk
      have hle' := iht _ l hl
      rw [List.length_drop] at hle'
      omega
  | alt r t ihr iht =>
      intro s n hn
      rcases List.mem_append.mp hn with hn | hn
      · apply ihr s n hn
      · apply iht s n hn
  | star r ih =>
      have hstar : ∀ (fuel : ℕ) (s : List α), ∀ n ∈ starLengths (lengths r) fuel s, n ≤ s.length := by
        intro fuel
        induction fuel with
        | zero =>
            intro s n hn
            rw [List.mem_singleton.mp hn]
            apply Nat.zero_le
        | succ fuel ihfuel =>
            intro s n hn
            rcases List.mem_append.mp hn with hn | hn
            · obtain ⟨k, hk, hn⟩ := List.mem_flatMap.mp hn
              obtain ⟨l, hl, rfl⟩ := List.mem_map.mp hn
              have hle := ih s k (List.mem_filter.mp hk).1
              have hle' := ihfuel _ l hl
              rw [List.length_drop] at hle'
              omega
            · rw [List.mem_singleton.mp hn]
              apply Nat.zero_le
      intro s
      apply hstar

/-- More repetitions than there are elements match nothing new. -/
theorem starLengths_succ (r : Pattern α) {fuel : ℕ} {s : List α} (h : s.length ≤ fuel) :
  starLengths (lengths r) (fuel + 1) s = starLengths (lengths r) fuel s
  := by
  induction fuel generalizing s with
  | zero =>
      have hnil : (lengths r s).filter (0 < ·) = [] := by
        rw [List.filter_eq_nil_iff]
        intro n hn
        have hle := le_of_mem_lengths r s n hn
        rw [decide_eq_true_eq]
        omega
      show ((lengths r s).filter (0 < ·)).flatMap _ ++ [0] = [0]
      rw [hnil]
      rfl
  | succ fuel ih =>
      rw [starLengths, starLengths]
      congr 1
      apply List.flatMap_congr
      intro n hn
      have hpos := of_decide_eq_true (List.mem_filter.mp hn).2
      rw [ih]
      rw [List.length_drop]
      omega

theorem starLengths_of_length_le (r : Pattern α) {fuel : ℕ} {s : List α} (h : s.length ≤ fuel) :
  starLengths (lengths r) fuel s = lengths (star r) s
  := by
  induction fuel, h using Nat.le_induction with
  | base => rfl
  | succ fuel h ih => rw [starLengths_succ r h, ih]

/-- The matches of a repetition go on after those of the repeated pattern. -/
theorem lengths_star (r : Pattern α) (s : List α) :
  lengths (star r) s
    = ((lengths r s).filter (0 < ·)).flatMap
        (fun n => (lengths (star r) (s.drop n)).map (n + ·)) ++ [0]
  := by
  rw [← starLengths_of_length_le r (Nat.le_succ s.length), starLengths]
  congr 1
  apply List.flatMap_congr
  intro n _
  rw [starLengths_of_length_le]
  rw [List.length_drop]
  apply Nat.sub_le

/-- A repetition starts with the match of the repeated pattern. -/
theorem first_star_of_first {n k : ℕ} (hr : first r s = some n) (hpos : 0 < n)
    (hrest : first (star r) (s.drop n) = some k) :
  first (star r) s = some (n + k)
  := by
  have hfilter : ((lengths r s).filter (0 < ·)).head? = some n := by
    obtain ⟨l, hl⟩ := List.head?_eq_some_iff.mp hr
    rw [hl, List.filter_cons_of_pos (by simpa using hpos)]
    rfl
  rw [first, lengths_star, List.head?_append, head?_flatMap_of_head? hfilter (c := n + k)]
  · rfl
  · rw [List.head?_map]
    rw [first] at hrest
    rw [hrest]
    rfl

/-- A pattern that has no match is not repeated. -/
theorem first_star_of_lengths (h : lengths r s = []) :
  first (star r) s = some 0
  := by
  rw [first, lengths_star, h]
  rfl

/-- A sequence needs no backtracking when what follows the first match of its first part has a
match. -/
theorem first_seq_of_first {n k : ℕ} (hr : first r s = some n)
    (ht : first t (s.drop n) = some k) :
  first (seq r t) s = some (n + k)
  := by
  rw [first, lengths]
  apply head?_flatMap_of_head? hr
  rw [List.head?_map]
  rw [first] at ht
  rw [ht]
  rfl

theorem lengths_seq_of_lengths (h : lengths r s = []) :
  lengths (seq r t) s = []
  := by
  rw [lengths, h]
  rfl

theorem first_alt :
  first (alt r t) s = (first r s).or (first t s)
  := List.head?_append

/-! ### Classes of elements -/

section Classes

variable {p : α → Bool} {a : α}

@[simp]
theorem lengths_single_cons :
  lengths (single p) (a :: s) = if p a then [1] else []
  := rfl

@[simp]
theorem lengths_single_nil :
  lengths (single p) [] = []
  := rfl

/-- The elements of a class are repeated as long as there are any. -/
theorem first_star_single (p : α → Bool) (s : List α) :
  first (star (single p)) s = some (s.takeWhile p).length
  := by
  induction s with
  | nil => rfl
  | cons a s ih =>
      cases ha : p a with
      | true =>
          rw [List.takeWhile_cons_of_pos ha, List.length_cons, Nat.add_comm]
          apply first_star_of_first _ Nat.one_pos ih
          rw [first, lengths_single_cons, ha]
          rfl
      | false =>
          rw [List.takeWhile_cons_of_neg (by simp [ha])]
          apply first_star_of_lengths
          rw [lengths_single_cons, ha]
          rfl

theorem first_plus_single (ha : p a = true) :
  first (plus (single p)) (a :: s) = some (1 + (s.takeWhile p).length)
  := by
  apply first_seq_of_first
  · rw [first, lengths_single_cons, ha]
    rfl
  · apply first_star_single

theorem lengths_plus_single (ha : p a = false) :
  lengths (plus (single p)) (a :: s) = []
  := by
  apply lengths_seq_of_lengths
  rw [lengths_single_cons, ha]
  rfl

end Classes

end Pattern

end KnowledgeSearch

import Mathlib.Tactic.Common

/-!
# Prefix codes

A prefix code is a code whose words can be read off the front of a list: the word and what
follows it are determined by the whole. Prefix codes are composed from parts, so that what a text
with several fields was made of can be recovered field by field.

* `List.eq_of_append_cons_eq` reads off words that are closed with a letter they do not have.
* `PrefixCode.prepend` puts a fixed text before a code.
* `PrefixCode.flatMap` and `PrefixCode.intercalate` are the codes of lists.
-/

/-- A code whose words can be read off the front of a list. -/
def PrefixCode {α β : Type*} (f : α → List β) : Prop :=
  ∀ ⦃a b : α⦄ ⦃s t : List β⦄, f a ++ s = f b ++ t → a = b ∧ s = t

/-- What comes before a letter begins with what a list begins with that does not have the letter. -/
theorem List.exists_eq_append_of_append_eq {β : Type*} {c : β} :
    ∀ {u s v t : List β}, c ∉ u → u ++ s = v ++ c :: t → ∃ w, v = u ++ w ∧ s = w ++ c :: t
  | [], _, v, _, _, h => ⟨v, rfl, h⟩
  | a :: u, _, [], _, hu, h => by
      obtain ⟨rfl, -⟩ := List.cons.inj h
      exact absurd List.mem_cons_self hu
  | a :: u, _, b :: v, _, hu, h => by
      obtain ⟨rfl, htail⟩ := List.cons.inj h
      obtain ⟨w, rfl, hs⟩ :=
        List.exists_eq_append_of_append_eq (List.not_mem_of_not_mem_cons hu) htail
      use w, rfl, hs

/-- The first occurrence of a letter splits a list in one way. -/
theorem List.eq_of_append_cons_eq {β : Type*} {c : β} {u v s t : List β} (hu : c ∉ u) (hv : c ∉ v)
    (h : u ++ c :: s = v ++ c :: t) :
  u = v ∧ s = t
  := by
  obtain ⟨w, rfl, hw⟩ := List.exists_eq_append_of_append_eq hu h
  cases w with
  | nil => exact ⟨(List.append_nil u).symm, (List.cons.inj hw).2⟩
  | cons a w =>
      obtain ⟨rfl, -⟩ := List.cons.inj hw
      exact absurd (List.mem_append_right u List.mem_cons_self) hv

/-- A list with separators has a letter only if a member or the separator does. -/
theorem List.not_mem_intercalate {β : Type*} {c : β} {separator : List β}
    (hseparator : c ∉ separator) :
    ∀ {l : List (List β)}, (∀ s ∈ l, c ∉ s) → c ∉ separator.intercalate l
  | [], _ => List.not_mem_nil
  | [s], h => by
      rw [List.intercalate_singleton]
      apply h s List.mem_cons_self
  | s :: t :: l, h => by
      obtain ⟨hs, hrest⟩ := List.forall_mem_cons.mp h
      rw [List.intercalate_cons_cons, List.mem_append, List.mem_append, not_or, not_or]
      use ⟨hs, hseparator⟩, List.not_mem_intercalate hseparator hrest

namespace PrefixCode

variable {α β : Type*} {f : α → List β}

/-- A code after a fixed text. -/
theorem prepend (l : List β) (hf : PrefixCode f) :
  PrefixCode fun a => l ++ f a
  := by
  intro a b s t h
  simp only [List.append_assoc, List.append_cancel_left_eq] at h
  apply hf h

/-- A word does not begin with a letter with which no word begins, whatever follows it. -/
theorem append_ne_cons {c : β} (hc : ∀ a, (f a).head? ≠ some c) (hne : ∀ a, f a ≠ []) (a : α)
    (s t : List β) :
  f a ++ s ≠ c :: t
  := by
  intro h
  obtain ⟨b, u, hb⟩ := List.exists_cons_of_ne_nil (hne a)
  apply hc a
  rw [hb, List.cons_append] at h
  rw [hb, (List.cons.inj h).1, List.head?_cons]

/-- A list as the words of its members, closed with a letter with which no word begins. -/
theorem flatMap (hf : PrefixCode f) {c : β} (hc : ∀ a, (f a).head? ≠ some c)
    (hne : ∀ a, f a ≠ []) :
  PrefixCode fun l : List α => l.flatMap f ++ [c]
  := by
  intro l
  induction l with
  | nil =>
      intro m s t h
      cases m with
      | nil => use rfl, (List.cons.inj h).2
      | cons b m =>
          simp only [List.flatMap_cons, List.append_assoc] at h
          exact absurd h.symm (append_ne_cons hc hne b _ _)
  | cons a l ih =>
      intro m s t h
      cases m with
      | nil =>
          simp only [List.flatMap_cons, List.append_assoc] at h
          exact absurd h (append_ne_cons hc hne a _ _)
      | cons b m =>
          simp only [List.flatMap_cons, List.append_assoc] at h
          obtain ⟨rfl, hrest⟩ := hf h
          rw [← List.append_assoc, ← List.append_assoc] at hrest
          obtain ⟨rfl, hst⟩ := ih hrest
          use rfl, hst

/-- What follows the first word of a list with separators. -/
private def afterFirst (f : α → List β) (separator c : β) (l : List α) : List β :=
  if l = [] then [c] else separator :: ([separator].intercalate (l.map f) ++ [c])

private theorem intercalate_cons (f : α → List β) (separator c : β) (a : α) (l : List α) :
  [separator].intercalate ((a :: l).map f) ++ [c] = f a ++ afterFirst f separator c l
  := by
  cases l with
  | nil => simp [afterFirst]
  | cons b l => simp [afterFirst, List.intercalate_cons_cons]

/-- A list as the words of its members with separators between them, closed with another letter
with which no word begins. -/
theorem intercalate (hf : PrefixCode f) {separator c : β} (hseparator : separator ≠ c)
    (hc : ∀ a, (f a).head? ≠ some c) (hne : ∀ a, f a ≠ []) :
  PrefixCode fun l : List α => [separator].intercalate (l.map f) ++ [c]
  := by
  intro l
  induction l with
  | nil =>
      intro m s t h
      cases m with
      | nil => use rfl, (List.cons.inj h).2
      | cons b m =>
          simp only [intercalate_cons, List.append_assoc] at h
          exact absurd h.symm (append_ne_cons hc hne b _ _)
  | cons a l ih =>
      intro m s t h
      cases m with
      | nil =>
          simp only [intercalate_cons, List.append_assoc] at h
          exact absurd h (append_ne_cons hc hne a _ _)
      | cons b m =>
          simp only [intercalate_cons, List.append_assoc] at h
          obtain ⟨rfl, hrest⟩ := hf h
          by_cases hl : l = [] <;> by_cases hm : m = [] <;>
            simp only [afterFirst, hl, hm, if_true, if_false, List.cons_append,
              List.nil_append] at hrest
          · rw [hl, hm]
            use rfl, (List.cons.inj hrest).2
          · exact absurd (List.cons.inj hrest).1.symm hseparator
          · exact absurd (List.cons.inj hrest).1 hseparator
          · obtain ⟨rfl, hst⟩ := ih (List.cons.inj hrest).2
            use rfl, hst

end PrefixCode

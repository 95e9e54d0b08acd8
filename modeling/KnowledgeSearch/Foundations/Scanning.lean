import Mathlib.Algebra.Order.Floor.Div
import Mathlib.Data.List.Infix
import Mathlib.Data.List.TakeDrop
import Mathlib.Tactic.Common

/-!
# Matches and windows

`allMatches len s` are the successive matches in `s` of a pattern, which is given by the length
`len t` of its match at the start of a suffix `t` of `s`, zero when there is none. Matches are
disjoint, in order, and leave out only places where the pattern has no match. A list that is cut
where no match goes across has the matches of its parts, `allMatches_append`. When moreover the
length of a match depends on its elements only, `LocalLength`, the list from the start of a match to
the end of another has the matches between these, `map_shift_allMatches_slice`.

`windows size step l` are the sublists of `size` successive members of `l` that start at every
`step`-th member, up to the first that reaches the end of `l`.
-/

namespace KnowledgeSearch

/-- The positions from `start` on and before `stop`. -/
structure Span where
  start : ℕ
  stop : ℕ
  deriving DecidableEq

section Matches

variable {α : Type*}

/-- The matches in `s`, whose first element has the position `offset`, after the first `skip`
elements. -/
def matchesFrom (len : List α → ℕ) : ℕ → ℕ → List α → List Span
  | _, _, [] => []
  | skip + 1, offset, _ :: s => matchesFrom len skip (offset + 1) s
  | 0, offset, a :: s =>
      if len (a :: s) = 0 then matchesFrom len 0 (offset + 1) s
      else ⟨offset, offset + len (a :: s)⟩ :: matchesFrom len (len (a :: s) - 1) (offset + 1) s

/-- The successive matches in a list. -/
def allMatches (len : List α → ℕ) (s : List α) : List Span :=
  matchesFrom len 0 0 s

variable {len : List α → ℕ}

/-- A match starts after the elements that are skipped, and has the length the pattern gives. -/
theorem mem_matchesFrom {s : List α} {skip offset : ℕ} {m : Span}
    (h : m ∈ matchesFrom len skip offset s) :
  offset + skip ≤ m.start ∧ len (s.drop (m.start - offset)) ≠ 0
    ∧ m.stop = m.start + len (s.drop (m.start - offset))
  := by
  induction s generalizing skip offset with
  | nil => cases h
  | cons a s ih =>
      have hdrop : offset + 1 ≤ m.start →
          (a :: s).drop (m.start - offset) = s.drop (m.start - (offset + 1)) := by
        intro hle
        have hsub : m.start - offset = m.start - (offset + 1) + 1 := by omega
        rw [hsub, List.drop_succ_cons]
      cases skip with
      | succ skip =>
          obtain ⟨hstart, hlen⟩ := ih h
          rw [hdrop (by omega)]
          exact ⟨by omega, hlen⟩
      | zero =>
          rw [matchesFrom] at h
          split at h
          · obtain ⟨hstart, hlen⟩ := ih h
            rw [hdrop (by omega)]
            exact ⟨by omega, hlen⟩
          · rename_i hzero
            rcases List.mem_cons.mp h with rfl | h
            · simpa using hzero
            · obtain ⟨hstart, hlen⟩ := ih h
              rw [hdrop (by omega)]
              exact ⟨by omega, hlen⟩

/-- Matches are disjoint and in order. -/
theorem pairwise_matchesFrom (len : List α → ℕ) (s : List α) (skip offset : ℕ) :
  (matchesFrom len skip offset s).Pairwise fun m m' => m.stop ≤ m'.start
  := by
  induction s generalizing skip offset with
  | nil => apply List.Pairwise.nil
  | cons a s ih =>
      cases skip with
      | succ skip => apply ih
      | zero =>
          rw [matchesFrom]
          split
          · apply ih
          · rename_i hzero
            rw [List.pairwise_cons]
            use fun m hm => ?_, ih _ _
            have hstart := (mem_matchesFrom hm).1
            show offset + len (a :: s) ≤ m.start
            omega

/-- A position at which the pattern has a match is part of a match. -/
theorem exists_mem_matchesFrom {s : List α} {skip offset i : ℕ} (hi : offset + skip ≤ i)
    (h : len (s.drop (i - offset)) ≠ 0) (hs : i - offset < s.length) :
  ∃ m ∈ matchesFrom len skip offset s, m.start ≤ i ∧ i < m.stop
  := by
  induction s generalizing skip offset with
  | nil => cases hs
  | cons a s ih =>
      have hrest : ∀ skip, offset + 1 + skip ≤ i →
          ∃ m ∈ matchesFrom len skip (offset + 1) s, m.start ≤ i ∧ i < m.stop := by
        intro skip hle
        have hsub : i - offset = i - (offset + 1) + 1 := by omega
        rw [hsub, List.drop_succ_cons] at h
        rw [hsub, List.length_cons] at hs
        apply ih hle h (by omega)
      cases skip with
      | succ skip => apply hrest skip (by omega)
      | zero =>
          rw [matchesFrom]
          split
          · rename_i hzero
            apply hrest
            by_contra hlt
            have hieq : i - offset = 0 := by omega
            rw [hieq, List.drop_zero] at h
            apply h hzero
          · by_cases hin : i < offset + len (a :: s)
            · refine ⟨_, List.mem_cons_self, ?_, hin⟩
              show offset ≤ i
              omega
            · obtain ⟨m, hm, hmi⟩ := hrest (len (a :: s) - 1) (by omega)
              exact ⟨m, List.mem_cons_of_mem _ hm, hmi⟩

theorem mem_allMatches {s : List α} {m : Span} (h : m ∈ allMatches len s) :
  len (s.drop m.start) ≠ 0 ∧ m.stop = m.start + len (s.drop m.start)
  := by
  apply (mem_matchesFrom h).2

theorem pairwise_allMatches (len : List α → ℕ) (s : List α) :
  (allMatches len s).Pairwise fun m m' => m.stop ≤ m'.start
  := pairwise_matchesFrom len s 0 0

theorem exists_mem_allMatches {s : List α} {i : ℕ} (h : len (s.drop i) ≠ 0)
    (hs : i < s.length) :
  ∃ m ∈ allMatches len s, m.start ≤ i ∧ i < m.stop
  := exists_mem_matchesFrom (by omega) h hs

/-! ### Texts cut between matches -/

/-- The positions moved by `offset`. -/
def Span.shift (offset : ℕ) (m : Span) : Span :=
  ⟨offset + m.start, offset + m.stop⟩

theorem Span.shift_shift (a b : ℕ) (m : Span) :
  (m.shift b).shift a = m.shift (a + b)
  := by simp [Span.shift, Nat.add_assoc]

/-- The length of a match fits into the list, and depends on the elements of the match only: it
is the same when the list is cut after the match. -/
structure LocalLength (len : List α → ℕ) : Prop where
  le : ∀ s, len s ≤ s.length
  take : ∀ s n, len s ≤ n → len (s.take n) = len s

/-- No match goes across the position. -/
def Uncrossed (ms : List Span) (position : ℕ) : Prop :=
  ∀ m ∈ ms, m.start < position → m.stop ≤ position

theorem matchesFrom_offset (skip offset : ℕ) (s : List α) :
  matchesFrom len skip offset s = (matchesFrom len skip 0 s).map (Span.shift offset)
  := by
  induction s generalizing skip offset with
  | nil => rfl
  | cons a s ih =>
      have hrest : ∀ skip, matchesFrom len skip (offset + 1) s
          = (matchesFrom len skip (0 + 1) s).map (Span.shift offset) := by
        intro skip
        rw [ih skip (offset + 1), ih skip (0 + 1), List.map_map]
        apply List.map_congr_left
        intro m _
        rw [Function.comp_apply, Span.shift_shift, Nat.zero_add]
      cases skip with
      | succ skip => apply hrest
      | zero =>
          rw [matchesFrom, matchesFrom]
          split
          · apply hrest
          · rw [List.map_cons, hrest]
            simp only [Span.shift, Nat.add_zero, Nat.zero_add]

/-- The matches in a list that is cut where no match goes across are those in its parts. -/
theorem matchesFrom_append (hlen : LocalLength len) {skip offset : ℕ} {s t : List α}
    (hskip : skip ≤ s.length)
    (hcut : Uncrossed (matchesFrom len skip offset (s ++ t)) (offset + s.length)) :
  matchesFrom len skip offset (s ++ t)
    = matchesFrom len skip offset s ++ matchesFrom len 0 (offset + s.length) t
  := by
  induction s generalizing skip offset with
  | nil =>
      obtain rfl := Nat.le_zero.mp hskip
      rfl
  | cons a s ih =>
      have hoffset : offset + (a :: s).length = offset + 1 + s.length := by
        rw [List.length_cons]
        omega
      rw [hoffset] at hcut ⊢
      cases skip with
      | succ skip => apply ih (Nat.le_of_succ_le_succ hskip) hcut
      | zero =>
          -- A match at the cut list's start is one at the start of its first part.
          have hsame : len (a :: (s ++ t)) ≤ (a :: s).length →
              len (a :: s) = len (a :: (s ++ t)) := by
            intro hle
            have htake := hlen.take _ _ hle
            rwa [← List.cons_append, List.take_left] at htake
          rw [List.cons_append, matchesFrom] at hcut ⊢
          rw [matchesFrom]
          split at hcut
          · rename_i hzero
            rw [if_pos hzero, hsame (by omega), if_pos hzero]
            apply ih (Nat.zero_le _) hcut
          · rename_i hzero
            have hle : len (a :: (s ++ t)) ≤ (a :: s).length := by
              have hstop := hcut _ List.mem_cons_self
              simp only [List.length_cons] at hstop ⊢
              omega
            rw [if_neg hzero, hsame hle, if_neg hzero, List.cons_append]
            congr 1
            apply ih
            · rw [List.length_cons] at hle
              omega
            · intro m hm
              apply hcut m (List.mem_cons_of_mem _ hm)

theorem allMatches_append (hlen : LocalLength len) {s t : List α}
    (hcut : Uncrossed (allMatches len (s ++ t)) s.length) :
  allMatches len (s ++ t) = allMatches len s ++ (allMatches len t).map (Span.shift s.length)
  := by
  rw [allMatches, matchesFrom_append hlen (Nat.zero_le _) (by rwa [Nat.zero_add]), Nat.zero_add,
    matchesFrom_offset 0 s.length]
  rfl

theorem start_lt_stop_of_mem_allMatches {s : List α} {m : Span} (h : m ∈ allMatches len s) :
  m.start < m.stop
  := by
  obtain ⟨hne, hstop⟩ := mem_allMatches h
  omega

theorem stop_le_of_mem_allMatches (hlen : LocalLength len) {s : List α} {m : Span}
    (h : m ∈ allMatches len s) :
  m.stop ≤ s.length
  := by
  obtain ⟨hne, hstop⟩ := mem_allMatches h
  have hle := hlen.le (s.drop m.start)
  rw [List.length_drop] at hle
  omega

/-- Ordered positions lie between the start of the first and the stop of the last. -/
theorem within_of_pairwise {ms : List Span} (hordered : ms.Pairwise fun m m' => m.stop ≤ m'.start)
    (hlt : ∀ m ∈ ms, m.start < m.stop) {m : Span} (hm : m ∈ ms) :
  (∀ first ∈ ms.head?, first.start ≤ m.start) ∧ ∀ last ∈ ms.getLast?, m.stop ≤ last.stop
  := by
  constructor
  · intro first hfirst
    obtain ⟨rest, rfl⟩ := List.head?_eq_some_iff.mp hfirst
    rcases List.mem_cons.mp hm with rfl | hm
    · apply le_refl
    · have hle := (List.pairwise_cons.mp hordered).1 m hm
      have hfirst_lt := hlt first List.mem_cons_self
      omega
  · intro last hlast
    obtain ⟨rest, rfl⟩ := List.getLast?_eq_some_iff.mp hlast
    rcases List.mem_append.mp hm with hm | hm
    · have hle := (List.pairwise_append.mp hordered).2.2 m hm last (List.mem_singleton_self _)
      have hlast_lt := hlt last (List.mem_append_right _ (List.mem_singleton_self _))
      omega
    · rw [List.mem_singleton.mp hm]

/-- Matches are split by a position that none goes across. -/
theorem allMatches_cut (hlen : LocalLength len) {s : List α} {position : ℕ}
    (hle : position ≤ s.length) (hcut : Uncrossed (allMatches len s) position) :
  allMatches len s
    = allMatches len (s.take position)
      ++ (allMatches len (s.drop position)).map (Span.shift position)
  := by
  have hlength : (s.take position).length = position := by
    rw [List.length_take, min_eq_left hle]
  have happend := allMatches_append hlen (s := s.take position) (t := s.drop position)
    (by rwa [List.take_append_drop, hlength])
  rwa [List.take_append_drop, hlength] at happend

/-- Two lists that each are cut at the position are the same when what they make up is. -/
theorem append_inj_of_cut {before after before' after' : List Span} (position : ℕ)
    (h : before ++ after = before' ++ after') (hbefore : ∀ m ∈ before, m.start < position)
    (hafter : ∀ m ∈ after, position ≤ m.start) (hbefore' : ∀ m ∈ before', m.start < position)
    (hafter' : ∀ m ∈ after', position ≤ m.start) :
  before = before' ∧ after = after'
  := by
  have hfilter : ∀ before after : List Span, (∀ m ∈ before, m.start < position) →
      (∀ m ∈ after, position ≤ m.start) →
      (before ++ after).filter (fun m => m.start < position) = before := by
    intro before after hbefore hafter
    rw [List.filter_append, List.filter_eq_self.mpr, List.filter_eq_nil_iff.mpr, List.append_nil]
    · intro m hm
      rw [decide_eq_true_eq]
      exact Nat.not_lt.mpr (hafter m hm)
    · intro m hm
      rw [decide_eq_true_eq]
      apply hbefore m hm
  have hsame : before = before' := by
    rw [← hfilter before after hbefore hafter, h, hfilter before' after' hbefore' hafter']
  subst hsame
  exact ⟨rfl, List.append_cancel_left h⟩

/-- The matches up to a position between two of them, and those from there on. -/
theorem allMatches_of_split (hlen : LocalLength len) {s : List α} {before after : List Span}
    (hsplit : allMatches len s = before ++ after) {position : ℕ} (hle : position ≤ s.length)
    (hbefore : ∀ m ∈ before, m.stop ≤ position) (hafter : ∀ m ∈ after, position ≤ m.start) :
  allMatches len (s.take position) = before
    ∧ (allMatches len (s.drop position)).map (Span.shift position) = after
  := by
  have hlt : ∀ m ∈ before, m.start < m.stop := by
    intro m hm
    have hmem : m ∈ allMatches len s := by
      rw [hsplit]
      apply List.mem_append_left _ hm
    apply start_lt_stop_of_mem_allMatches hmem
  have hcut : Uncrossed (allMatches len s) position := by
    intro m hm hstart
    rw [hsplit] at hm
    rcases List.mem_append.mp hm with hm | hm
    · apply hbefore m hm
    · exact absurd hstart (Nat.not_lt.mpr (hafter m hm))
  rw [allMatches_cut hlen hle hcut] at hsplit
  apply append_inj_of_cut position hsplit
  · intro m hm
    have hm_lt := start_lt_stop_of_mem_allMatches hm
    have hm_le := stop_le_of_mem_allMatches hlen hm
    rw [List.length_take] at hm_le
    omega
  · intro m hm
    obtain ⟨m, -, rfl⟩ := List.mem_map.mp hm
    apply Nat.le_add_right
  · intro m hm
    apply lt_of_lt_of_le (hlt m hm) (hbefore m hm)
  · apply hafter

/-- The matches between the ends of successive matches are these. -/
theorem map_shift_allMatches_slice (hlen : LocalLength len) {s : List α} {ms : List Span}
    (hms : ms <:+: allMatches len s) {first last : Span} (hfirst : ms.head? = some first)
    (hlast : ms.getLast? = some last) :
  (allMatches len ((s.take last.stop).drop first.start)).map (Span.shift first.start) = ms
  := by
  obtain ⟨before, after, hsplit⟩ := hms
  have hordered := pairwise_allMatches len s
  have hstop : ∀ m ∈ allMatches len s, m.start < m.stop ∧ m.stop ≤ s.length := fun m hm =>
    ⟨start_lt_stop_of_mem_allMatches hm, stop_le_of_mem_allMatches hlen hm⟩
  rw [← hsplit] at hordered hstop
  obtain ⟨hordered, -, hafter⟩ := List.pairwise_append.mp hordered
  have hlast' : (before ++ ms).getLast? = some last := by
    rw [List.getLast?_append, hlast, Option.some_or]
  have hlast_mem := List.mem_of_mem_getLast? hlast'
  have hlast_le := (hstop last (List.mem_append_left _ hlast_mem)).2
  have htake : allMatches len (s.take last.stop) = before ++ ms := by
    apply (allMatches_of_split hlen hsplit.symm hlast_le _ (hafter last hlast_mem)).1
    intro m hm
    apply (within_of_pairwise hordered (fun m hm => (hstop m (List.mem_append_left _ hm)).1) hm).2
      last hlast'
  obtain ⟨-, hordered, hbefore⟩ := List.pairwise_append.mp hordered
  have hfirst_mem := List.mem_of_mem_head? hfirst
  have hrun : ∀ m ∈ ms, m.start < m.stop := fun m hm =>
    (hstop m (List.mem_append_left _ (List.mem_append_right _ hm))).1
  apply (allMatches_of_split hlen htake _ (fun m hm => hbefore m hm first hfirst_mem) _).2
  · have hle := (within_of_pairwise hordered hrun hfirst_mem).2 last hlast
    have hfirst_lt := hrun first hfirst_mem
    rw [List.length_take, min_eq_left hlast_le]
    omega
  · intro m hm
    apply (within_of_pairwise hordered hrun hm).1 first hfirst

end Matches

section Windows

variable {β : Type*}

/-- The windows of a list after its first `skip` members. -/
def windowsFrom (size step : ℕ) : ℕ → List β → List (List β)
  | _, [] => []
  | skip + 1, _ :: l => windowsFrom size step skip l
  | 0, b :: l =>
      if (b :: l).length ≤ size then [b :: l]
      else (b :: l).take size :: windowsFrom size step (step - 1) l

/-- The windows of a list. -/
def windows (size step : ℕ) (l : List β) : List (List β) :=
  windowsFrom size step 0 l

variable {size step : ℕ}

theorem windowsFrom_eq (skip : ℕ) (l : List β) :
  windowsFrom size step skip l = windows size step (l.drop skip)
  := by
  induction l generalizing skip with
  | nil =>
      rw [List.drop_nil]
      cases skip with
      | zero => rfl
      | succ skip => rfl
  | cons b l ih =>
      cases skip with
      | zero => rfl
      | succ skip =>
          rw [windowsFrom, List.drop_succ_cons]
          apply ih

@[simp]
theorem windows_nil :
  windows size step ([] : List β) = []
  := rfl

/-- A list that fits into a window is its only window. -/
theorem windows_of_length_le {l : List β} (hne : l ≠ []) (h : l.length ≤ size) :
  windows size step l = [l]
  := by
  obtain ⟨b, l, rfl⟩ := List.exists_cons_of_ne_nil hne
  rw [windows, windowsFrom, if_pos h]

/-- A longer list has a first window, and the next window starts `step` members later. -/
theorem windows_of_lt_length (hstep : 1 ≤ step) {l : List β} (h : size < l.length) :
  windows size step l = l.take size :: windows size step (l.drop step)
  := by
  cases l with
  | nil => cases h
  | cons b l =>
      obtain ⟨step, rfl⟩ := Nat.exists_eq_add_of_le' hstep
      rw [windows, windowsFrom, if_neg (by omega), windowsFrom_eq, List.drop_succ_cons]
      rfl

/-- Induction over the windows of a list. -/
theorem windows_induction (hstep : 1 ≤ step) {P : List β → List (List β) → Prop}
    (nil : P [] [])
    (last : ∀ l, l ≠ [] → l.length ≤ size → P l [l])
    (next : ∀ l, size < l.length → P (l.drop step) (windows size step (l.drop step)) →
      P l (l.take size :: windows size step (l.drop step)))
    (l : List β) :
  P l (windows size step l)
  := by
  induction hn : l.length using Nat.strong_induction_on generalizing l with
  | _ n ih =>
      by_cases hne : l = []
      · rw [hne, windows_nil]
        apply nil
      · by_cases hlen : l.length ≤ size
        · rw [windows_of_length_le hne hlen]
          apply last l hne hlen
        · rw [windows_of_lt_length hstep (by omega)]
          apply next l (by omega)
          have hpos := List.length_pos_iff.mpr hne
          apply ih (l.drop step).length _ _ rfl
          rw [List.length_drop]
          omega

/-- A window consists of successive members. -/
theorem isInfix_of_mem_windows (hsize : 1 ≤ size) (hstep : 1 ≤ step) (l : List β) :
  ∀ w ∈ windows size step l, w ≠ [] ∧ w <:+: l
  := by
  apply windows_induction hstep (P := fun l ws => ∀ w ∈ ws, w ≠ [] ∧ w <:+: l)
  · intro w hw
    cases hw
  · intro l hne hlen w hw
    rw [List.mem_singleton] at hw
    rw [hw]
    exact ⟨hne, List.infix_refl l⟩
  · intro l hlen ih w hw
    rcases List.mem_cons.mp hw with rfl | hw
    · constructor
      · apply List.ne_nil_of_length_pos
        rw [List.length_take]
        omega
      · apply (List.take_prefix size l).isInfix
    · obtain ⟨hne, hsub⟩ := ih w hw
      exact ⟨hne, hsub.trans (List.drop_suffix step l).isInfix⟩

/-- Every member is in a window when the windows leave no gaps. -/
theorem exists_mem_windows (hstep : 1 ≤ step) (hle : step ≤ size) (l : List β) :
  ∀ b ∈ l, ∃ w ∈ windows size step l, b ∈ w
  := by
  apply windows_induction hstep (P := fun l ws => ∀ b ∈ l, ∃ w ∈ ws, b ∈ w)
  · intro b hb
    cases hb
  · intro l _ _ b hb
    use l, List.mem_singleton_self l
  · intro l hlen ih b hb
    rw [← List.take_append_drop step l, List.mem_append] at hb
    rcases hb with hb | hb
    · refine ⟨_, List.mem_cons_self, ?_⟩
      apply (List.take_prefix_take_left hle).subset hb
    · obtain ⟨w, hw, hbw⟩ := ih b hb
      exact ⟨w, List.mem_cons_of_mem _ hw, hbw⟩

/-- Windows that do not overlap make up the list. -/
theorem flatten_windows (hsize : 1 ≤ size) (l : List β) :
  (windows size size l).flatten = l
  := by
  apply windows_induction hsize (P := fun l ws => ws.flatten = l)
  · rfl
  · intro l _ _
    simp
  · intro l _ ih
    rw [List.flatten_cons, ih, List.take_append_drop]

/-- The first members of the windows of a sorted list are sorted. -/
theorem pairwise_head_windows (hsize : 1 ≤ size) (hstep : 1 ≤ step) {r : β → β → Prop}
    {l : List β} (h : l.Pairwise r) :
  (windows size step l).Pairwise fun w w' => ∀ b ∈ w.head?, ∀ b' ∈ w'.head?, r b b'
  := by
  revert h
  apply windows_induction hstep
    (P := fun l ws => l.Pairwise r → ws.Pairwise fun w w' =>
      ∀ b ∈ w.head?, ∀ b' ∈ w'.head?, r b b')
  · intro _
    apply List.Pairwise.nil
  · intro l _ _ _
    apply List.pairwise_singleton
  · intro l hlen ih h
    rw [List.pairwise_cons]
    constructor
    · intro w hw b hb b' hb'
      obtain ⟨hne, hsub⟩ := isInfix_of_mem_windows hsize hstep (l.drop step) w hw
      have hmem : b' ∈ l.drop step := hsub.subset (List.mem_of_mem_head? hb')
      obtain ⟨a, l, rfl⟩ := List.exists_cons_of_length_pos (show 0 < l.length by omega)
      obtain ⟨size, rfl⟩ := Nat.exists_eq_add_of_le' hsize
      obtain ⟨step, rfl⟩ := Nat.exists_eq_add_of_le' hstep
      rw [List.take_succ_cons, List.head?_cons, Option.mem_def, Option.some_inj] at hb
      rw [List.drop_succ_cons] at hmem
      rw [← hb]
      apply (List.pairwise_cons.mp h).1 b' ((List.drop_sublist step l).subset hmem)
    · apply ih (h.sublist (List.drop_sublist step l))

/-- The number of windows of a list of `n` members. -/
def windowCount (size step n : ℕ) : ℕ :=
  if n ≤ size then 1 else 1 + (n - size) ⌈/⌉ step

/-- There is a window after the `i`-th when that one does not reach the end. -/
theorem lt_windowCount_iff (hstep : 1 ≤ step) {n i : ℕ} :
  i + 1 < windowCount size step n ↔ i * step + size < n
  := by
  rw [windowCount]
  split
  · constructor <;> omega
  · have hceil : (n - size) ⌈/⌉ step ≤ i ↔ n - size ≤ step * i :=
      ceilDiv_le_iff_le_smul (Nat.lt_of_succ_le hstep)
    rw [Nat.mul_comm] at hceil
    omega

theorem windowCount_pos (size step n : ℕ) :
  0 < windowCount size step n
  := by
  rw [windowCount]
  split <;> omega

/-- The windows of a list start at the multiples of the step. -/
theorem windows_eq_map_range (hstep : 1 ≤ step) (hle : step ≤ size) {l : List β} (hne : l ≠ []) :
  windows size step l
    = (List.range (windowCount size step l.length)).map fun i => (l.drop (i * step)).take size
  := by
  revert hne
  apply windows_induction hstep (P := fun l ws => l ≠ [] → ws
    = (List.range (windowCount size step l.length)).map fun i => (l.drop (i * step)).take size)
  · intro hne
    exact absurd rfl hne
  · intro l _ hlen _
    rw [windowCount, if_pos hlen, List.range_one, List.map_singleton, Nat.zero_mul, List.drop_zero,
      List.take_of_length_le hlen]
  · intro l hlen ih _
    have hrest : l.drop step ≠ [] := by
      apply List.ne_nil_of_length_pos
      rw [List.length_drop]
      omega
    have hcount : windowCount size step l.length = windowCount size step (l.drop step).length + 1 := by
      have hpos := windowCount_pos size step (l.drop step).length
      apply eq_of_forall_lt_iff
      intro i
      cases i with
      | zero => exact iff_of_true (windowCount_pos _ _ _) (Nat.succ_pos _)
      | succ i =>
          rw [lt_windowCount_iff hstep]
          cases i with
          | zero => omega
          | succ i =>
              rw [Nat.succ_lt_succ_iff, lt_windowCount_iff hstep, List.length_drop, Nat.succ_mul]
              omega
    rw [hcount, List.range_succ_eq_map, List.map_cons, List.map_map, Nat.zero_mul, List.drop_zero,
      ih hrest]
    congr 1
    apply List.map_congr_left
    intro i _
    rw [Function.comp_apply, List.drop_drop, Nat.succ_mul, Nat.add_comm]

end Windows

end KnowledgeSearch

import KnowledgeSearch.Ingestion.Windows

/-!
# The schedule of the windows

`windowLoop` is the loop of `_windows` as it goes from token to token. It looks up tokens by their
places only where there are some, and makes the windows of the text, whose tokens `tokenRange`
gives in closed form.
-/

namespace KnowledgeSearch

/-! ### The loop -/

/-- The loop of `_windows` from a token on, with the windows made so far. It stops with an error
when it looks up a token that does not exist. -/
def windowLoop (configuration : WindowConfiguration) (text : Text) (ms : List Span)
    (tokenStart : ℕ) (made : List TextWindow) : Option (List TextWindow) :=
  if tokenStart < ms.length then
    let tokenEnd := min (tokenStart + configuration.size) ms.length
    match ms[tokenStart]?, ms[tokenEnd - 1]? with
    | some first, some last =>
        let made := made ++ [{
          text := strip (sliceText text first.start last.stop)
          tokenCount := tokenEnd - tokenStart
          charStart := first.start
          charEnd := last.stop }]
        if tokenEnd = ms.length then some made
        else
          windowLoop configuration text ms
            (tokenStart + (configuration.size - configuration.overlap)) made
    | _, _ => none
  else some made
termination_by ms.length - tokenStart
decreasing_by
  have hlt := configuration.overlap_lt_size
  omega

/-- `_windows`. -/
def windowsOf (U : UnicodeData) (configuration : WindowConfiguration) (text : Text) :
    Option (List TextWindow) :=
  let ms := tokens U text
  if ms.isEmpty then some []
  else windowLoop configuration text ms 0 []

/-- The window of the tokens between two places. -/
theorem exists_textWindow_eq (text : Text) (ms : List Span) {tokenStart tokenEnd : ℕ}
    (hlt : tokenStart < tokenEnd) (hle : tokenEnd ≤ ms.length) :
  ∃ first last, ms[tokenStart]? = some first ∧ ms[tokenEnd - 1]? = some last
    ∧ textWindow text ((ms.drop tokenStart).take (tokenEnd - tokenStart))
      = ⟨strip (sliceText text first.start last.stop), tokenEnd - tokenStart, first.start,
        last.stop⟩
  := by
  have hlength : ((ms.drop tokenStart).take (tokenEnd - tokenStart)).length
      = tokenEnd - tokenStart := by
    rw [List.length_take, List.length_drop]
    omega
  have hhead : ((ms.drop tokenStart).take (tokenEnd - tokenStart)).head?
      = some ms[tokenStart] := by
    rw [List.head?_eq_getElem?, List.getElem?_take_of_lt (by omega), List.getElem?_drop,
      Nat.add_zero, List.getElem?_eq_getElem]
  have hlast : ((ms.drop tokenStart).take (tokenEnd - tokenStart)).getLast?
      = some ms[tokenEnd - 1] := by
    have hplace : tokenStart + (tokenEnd - tokenStart - 1) = tokenEnd - 1 := by omega
    rw [List.getLast?_eq_getElem?, hlength, List.getElem?_take_of_lt (by omega),
      List.getElem?_drop, hplace, List.getElem?_eq_getElem]
  use ms[tokenStart], ms[tokenEnd - 1], List.getElem?_eq_getElem _, List.getElem?_eq_getElem _
  simp only [textWindow, hhead, hlast, hlength, Option.map_some, Option.getD_some]

/-- The loop makes the windows of the tokens from its token on. -/
theorem windowLoop_eq (configuration : WindowConfiguration) (text : Text) (ms : List Span)
    (tokenStart : ℕ) (made : List TextWindow) :
  windowLoop configuration text ms tokenStart made
    = some (made ++ (windows configuration.size (configuration.size - configuration.overlap)
        (ms.drop tokenStart)).map (textWindow text))
  := by
  have hsize := configuration.one_le_size
  fun_induction windowLoop with
  | case1 tokenStart made hlt tokenEnd first last hlast hfirst made' hend =>
      -- The window reaches the last token.
      obtain ⟨first', last', hfirst', hlast', hwindow⟩ :=
        exists_textWindow_eq text ms (by omega : tokenStart < tokenEnd) hend.le
      cases hfirst.symm.trans hfirst'
      cases hlast.symm.trans hlast'
      have hrest : (ms.drop tokenStart).length = tokenEnd - tokenStart := by
        rw [List.length_drop, hend]
      rw [← hrest, List.take_length] at hwindow
      rw [windows_of_length_le (List.ne_nil_of_length_pos (by omega)) (by omega),
        List.map_singleton, hwindow, hrest]
  | case2 tokenStart made hlt tokenEnd first last hlast hfirst made' hend ih =>
      obtain ⟨first', last', hfirst', hlast', hwindow⟩ :=
        exists_textWindow_eq text ms (by omega : tokenStart < tokenEnd) (by omega)
      cases hfirst.symm.trans hfirst'
      cases hlast.symm.trans hlast'
      have hrest : configuration.size < (ms.drop tokenStart).length := by
        rw [List.length_drop]
        omega
      have hcount : tokenEnd - tokenStart = configuration.size := by omega
      rw [ih, windows_of_lt_length configuration.one_le_step hrest, List.map_cons, List.drop_drop,
        ← hcount, hwindow, List.append_assoc, List.singleton_append]
  | case3 tokenStart made hlt tokenEnd hnone =>
      obtain ⟨first, last, hfirst, hlast, -⟩ :=
        exists_textWindow_eq text ms (by omega : tokenStart < tokenEnd) (by omega)
      exact absurd hlast (hnone first last hfirst)
  | case4 tokenStart made hlt =>
      rw [List.drop_eq_nil_of_le (by omega), windows_nil, List.map_nil, List.append_nil]

/-- The loop makes the windows of the text. -/
theorem windowsOf_eq (U : UnicodeData) (configuration : WindowConfiguration) (text : Text) :
  windowsOf U configuration text = some (textWindows U configuration text)
  := by
  rw [windowsOf]
  split
  · rename_i hempty
    rw [textWindows, List.isEmpty_iff.mp hempty, windows_nil, List.map_nil]
  · rw [windowLoop_eq, List.nil_append, List.drop_zero, textWindows]

/-! ### The schedule -/

/-- The place is one of the range. -/
def Span.Has (range : Span) (place : ℕ) : Prop :=
  range.start ≤ place ∧ place < range.stop

namespace WindowConfiguration

variable (self : WindowConfiguration)

/-- The number of tokens from the start of a window to that of the next. -/
def step : ℕ :=
  self.size - self.overlap

theorem step_pos :
  1 ≤ self.step
  := self.one_le_step

theorem overlap_add_step :
  self.overlap + self.step = self.size
  := Nat.add_sub_of_le self.overlap_lt_size.le

/-- The places of the tokens of the `i`-th window of a text with `n` tokens. -/
def tokenRange (n i : ℕ) : Span where
  start := i * self.step
  stop := min (i * self.step + self.size) n

/-- The places of the tokens of the windows of a text with `n` tokens. -/
def schedule (n : ℕ) : List Span :=
  (List.range (windowCount self.size self.step n)).map (self.tokenRange n)

section Range

variable {self} {n i : ℕ} {range : Span}

theorem eq_of_getElem?_schedule (h : (self.schedule n)[i]? = some range) :
  i < windowCount self.size self.step n ∧ range = self.tokenRange n i
  := by
  rw [schedule, List.getElem?_map, Option.map_eq_some_iff] at h
  obtain ⟨j, hj, rfl⟩ := h
  obtain ⟨hlt, hj⟩ := List.getElem?_eq_some_iff.mp hj
  rw [List.getElem_range] at hj
  rw [List.length_range] at hlt
  rw [← hj]
  use hlt

/-- A window that is not the first starts where the one before it does not reach the end. -/
theorem lt_of_lt_windowCount (h : i + 1 < windowCount self.size self.step n) :
  i * self.step + self.size < n
  := (lt_windowCount_iff self.step_pos).mp h

/-- Every window has a token. -/
theorem start_lt_stop_tokenRange (hn : 1 ≤ n) (h : i < windowCount self.size self.step n) :
  (self.tokenRange n i).start < (self.tokenRange n i).stop
  := by
  have hsize := self.one_le_size
  have hstart : i * self.step < n := by
    cases i with
    | zero => omega
    | succ i =>
        have hlt := lt_of_lt_windowCount h
        have hsum := self.overlap_add_step
        rw [Nat.succ_mul]
        omega
  simp only [tokenRange]
  omega

/-- Every token is in a window: the last of those that start at it or before. -/
theorem exists_has_of_lt {place : ℕ} (h : place < n) :
  ∃ range ∈ self.schedule n, range.Has place
  := by
  have hstep := self.step_pos
  have hsum := self.overlap_add_step
  -- The windows that start early enough are those up to `place / step`.
  set i := min (place / self.step) (windowCount self.size self.step n - 1) with hi
  have hpos := windowCount_pos self.size self.step n
  use self.tokenRange n i
  constructor
  · apply List.mem_map_of_mem
    apply List.mem_range.mpr
    omega
  · have hstart : i * self.step ≤ place := by
      apply le_trans (Nat.mul_le_mul_right _ (min_le_left _ _)) (Nat.div_mul_le_self _ _)
    use hstart
    apply lt_min _ h
    by_cases hlast : i + 1 < windowCount self.size self.step n
    · have hquotient : i = place / self.step := by omega
      have hlt := Nat.lt_div_mul_add (a := place) hstep
      rw [← hquotient] at hlt
      omega
    · have hreach : ¬ i * self.step + self.size < n := by
        rw [← lt_windowCount_iff hstep]
        apply hlast
      omega

/-- A window with a next one is full, shares with it as many tokens as there is to overlap, and lacks
one of its tokens. -/
theorem tokenRange_succ (h : i + 1 < windowCount self.size self.step n) :
  (self.tokenRange n i).stop = (self.tokenRange n i).start + self.size
    ∧ (∀ place, (self.tokenRange n i).Has place ∧ (self.tokenRange n (i + 1)).Has place
      ↔ (self.tokenRange n (i + 1)).start ≤ place
        ∧ place < (self.tokenRange n (i + 1)).start + self.overlap)
    ∧ ∃ place, (self.tokenRange n (i + 1)).Has place ∧ ¬ (self.tokenRange n i).Has place
  := by
  have hlt := lt_of_lt_windowCount h
  have hsum := self.overlap_add_step
  have hstep := self.step_pos
  simp only [tokenRange, Span.Has, Nat.succ_mul]
  refine ⟨by omega, fun place => by omega, i * self.step + self.size, ?_, ?_⟩
  · omega
  · omega

end Range

/-- The windows of a list are those of the ranges of the schedule. -/
theorem windows_eq_map_schedule {α : Type*} {l : List α} (hne : l ≠ []) :
  windows self.size self.step l
    = (self.schedule l.length).map fun range => (l.drop range.start).take (range.stop - range.start)
  := by
  rw [windows_eq_map_range self.step_pos (Nat.sub_le _ _) hne, schedule, List.map_map]
  apply List.map_congr_left
  intro i _
  simp only [Function.comp_apply, tokenRange]
  rw [List.take_eq_take_iff, List.length_drop]
  omega

end WindowConfiguration

/-- The windows of a text with tokens: the loop ends, without a look at a token that does not exist,
and makes as many windows as there are steps to the first window that reaches the end. Each covers
the tokens from a multiple of the step on, up to the size or the end. Every token is in a window,
and a window with a next one is full, shares as many tokens with it as there is to overlap, and does
not contain it. -/
theorem windows_schedule (U : UnicodeData) (configuration : WindowConfiguration) {text : Text}
    (h : tokens U text ≠ []) :
  let n := (tokens U text).length
  let size := configuration.size
  let overlap := configuration.overlap
  let step := size - overlap
  ∃ (made : List TextWindow) (ranges : List Span), windowsOf U configuration text = some made
    ∧ made = ranges.map (fun range =>
      textWindow text (((tokens U text).drop range.start).take (range.stop - range.start)))
    ∧ ranges.length = (if n ≤ size then 1 else 1 + (n - size) ⌈/⌉ step)
    ∧ (∀ i range, ranges[i]? = some range →
      range.start = i * step ∧ range.stop = min (i * step + size) n ∧ range.start < range.stop)
    ∧ (∀ place < n, ∃ range ∈ ranges, range.Has place)
    ∧ ∀ i range range', ranges[i]? = some range → ranges[i + 1]? = some range' →
      range.stop = range.start + size
        ∧ (∀ place, range.Has place ∧ range'.Has place
          ↔ range'.start ≤ place ∧ place < range'.start + overlap)
        ∧ ∃ place, range'.Has place ∧ ¬ range.Has place
  := by
  intro n size overlap step
  have hn : 1 ≤ n := List.length_pos_iff.mpr h
  use textWindows U configuration text, configuration.schedule n
  refine ⟨windowsOf_eq U configuration text, ?_, ?_, ?_, ?_, ?_⟩
  · have hwindows := configuration.windows_eq_map_schedule h
    rw [WindowConfiguration.step] at hwindows
    rw [textWindows, hwindows, List.map_map]
    rfl
  · rw [WindowConfiguration.schedule, List.length_map, List.length_range]
    rfl
  · intro i range hrange
    obtain ⟨hi, rfl⟩ := WindowConfiguration.eq_of_getElem?_schedule hrange
    use rfl, rfl
    apply WindowConfiguration.start_lt_stop_tokenRange hn hi
  · intro place hplace
    apply WindowConfiguration.exists_has_of_lt hplace
  · intro i range range' hrange hrange'
    obtain ⟨-, rfl⟩ := WindowConfiguration.eq_of_getElem?_schedule hrange
    obtain ⟨hi, rfl⟩ := WindowConfiguration.eq_of_getElem?_schedule hrange'
    apply WindowConfiguration.tokenRange_succ hi

/-- Windows of three tokens, two of which they share. -/
def WindowConfiguration.sample : WindowConfiguration :=
  ⟨3, 2, by decide⟩

/-- A text of five tokens has three such windows. -/
theorem windows_schedule_sample :
  ∃ made, windowsOf .ascii .sample "to be, or not".toList = some made
    ∧ made.length = 3
  := by
  have hcount : (tokens .ascii "to be, or not".toList).length = 5 := by
    decide
  have hne : tokens .ascii "to be, or not".toList ≠ [] := by
    intro hnil
    rw [hnil] at hcount
    cases hcount
  obtain ⟨made, ranges, hloop, hmade, hlength, -⟩ :=
    windows_schedule .ascii .sample hne
  use made, hloop
  rw [hmade, List.length_map, hlength, hcount]
  decide

end KnowledgeSearch

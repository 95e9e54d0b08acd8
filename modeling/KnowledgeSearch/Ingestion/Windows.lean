import KnowledgeSearch.Ingestion.Chunking

/-!
# The windows of a text

The tokens of a text are disjoint and in order, have no white space at their ends, and leave
out white space only. `TextWindow.Cut` is what follows for a window: it is a slice of the text
from which there is nothing to strip.
-/

namespace KnowledgeSearch

/-! ### Tokens -/

theorem wordLength_le (U : UnicodeData) (s : Text) :
  wordLength U s ≤ s.length
  := by
  induction s with
  | nil => apply le_refl
  | cons c s ih =>
      rw [wordLength, List.length_cons]
      split
      · omega
      · split
        · omega
        · omega

/-- A word ends with one of its characters. -/
theorem isWord_getLast?_take (U : UnicodeData) (s : Text) :
  ∀ c ∈ (s.take (wordLength U s)).getLast?, U.isWord c = true
  := by
  induction s with
  | nil => simp
  | cons d s ih =>
      intro c hc
      rw [wordLength] at hc
      split at hc
      · rename_i hd
        rw [List.take_succ_cons, List.getLast?_cons, Option.mem_def, Option.some_inj] at hc
        cases hlast : (s.take (wordLength U s)).getLast? with
        | none =>
            rw [hlast, Option.getD_none] at hc
            rw [← hc, hd]
        | some e =>
            rw [hlast, Option.getD_some] at hc
            apply ih c
            rw [hlast, hc]
            rfl
      · split at hc
        · rename_i hjoint
          rw [Bool.and_eq_true] at hjoint
          cases s with
          | nil => cases hjoint.2
          | cons e s =>
              -- What joins two parts of a word is followed by the second part.
              have hword : U.isWord e = true := hjoint.2
              rw [List.take_succ_cons, List.getLast?_cons, Option.mem_def, Option.some_inj] at hc
              cases hlast : ((e :: s).take (wordLength U (e :: s))).getLast? with
              | none =>
                  rw [wordLength, if_pos hword, List.take_succ_cons, List.getLast?_cons] at hlast
                  cases hlast
              | some f =>
                  rw [hlast, Option.getD_some] at hc
                  apply ih c
                  rw [hlast, hc]
                  rfl
        · cases hc

theorem tokenLength_le (U : UnicodeData) (s : Text) :
  tokenLength U s ≤ s.length
  := by
  cases s with
  | nil => apply le_refl
  | cons c s =>
      have hle := wordLength_le U s
      rw [tokenLength, List.length_cons]
      split
      · omega
      · split
        · omega
        · omega

/-- A token starts wherever there is a visible character. -/
theorem tokenLength_eq_zero_iff {U : UnicodeData} {c : Char} {s : Text} :
  tokenLength U (c :: s) = 0 ↔ isSpace c = true
  := by
  rw [tokenLength]
  split
  · rename_i hword
    simp [U.isSpace_of_isWord c hword]
  · simp

/-- A token ends with a visible character. -/
theorem isSpace_getLast?_take (U : UnicodeData) (s : Text) :
  ∀ c ∈ (s.take (tokenLength U s)).getLast?, isSpace c = false
  := by
  cases s with
  | nil => simp
  | cons d s =>
      intro c hc
      rw [tokenLength] at hc
      split at hc
      · rename_i hd
        rw [List.take_succ_cons, List.getLast?_cons, Option.mem_def, Option.some_inj] at hc
        cases hlast : (s.take (wordLength U s)).getLast? with
        | none =>
            rw [hlast, Option.getD_none] at hc
            rw [← hc]
            apply U.isSpace_of_isWord d hd
        | some e =>
            rw [hlast, Option.getD_some] at hc
            apply U.isSpace_of_isWord
            apply isWord_getLast?_take U s c
            rw [hlast, hc]
            rfl
      · split at hc
        · cases hc
        · rename_i hspace
          cases hc
          rwa [Bool.not_eq_true] at hspace

/-- A token is a range of the text with visible characters at its ends. -/
structure Span.Visible (text : Text) (m : Span) : Prop where
  lt : m.start < m.stop
  le : m.stop ≤ text.length
  first : ∀ c ∈ text[m.start]?, isSpace c = false
  last : ∀ c ∈ text[m.stop - 1]?, isSpace c = false

theorem visible_of_mem_tokens {U : UnicodeData} {text : Text} {m : Span}
    (h : m ∈ tokens U text) :
  m.Visible text
  := by
  obtain ⟨hne, hstop⟩ := mem_allMatches h
  have hle := tokenLength_le U (text.drop m.start)
  rw [List.length_drop] at hle
  refine ⟨by omega, by omega, ?_, ?_⟩
  · intro c hc
    rw [List.drop_eq_getElem_cons (by omega : m.start < text.length), ne_eq,
      tokenLength_eq_zero_iff, Bool.not_eq_true] at hne
    rw [List.getElem?_eq_getElem (by omega), Option.mem_def, Option.some_inj] at hc
    rw [← hc, hne]
  · intro c hc
    apply isSpace_getLast?_take U (text.drop m.start) c
    rw [List.getLast?_eq_getElem?, List.length_take, List.length_drop, Option.mem_def,
      List.getElem?_take_of_lt (by omega), List.getElem?_drop]
    rw [Option.mem_def] at hc
    rw [← hc]
    congr 1
    omega

/-- Every visible character is part of a token. -/
theorem exists_mem_tokens {U : UnicodeData} {text : Text} {i : ℕ} {c : Char}
    (hget : text[i]? = some c) (hspace : isSpace c = false) :
  ∃ m ∈ tokens U text, m.start ≤ i ∧ i < m.stop
  := by
  obtain ⟨hi, hget⟩ := List.getElem?_eq_some_iff.mp hget
  apply exists_mem_allMatches _ hi
  rw [List.drop_eq_getElem_cons hi, ne_eq, tokenLength_eq_zero_iff, hget, hspace]
  exact Bool.false_ne_true

/-! ### Windows -/

/-- A window of a text: a slice with visible characters at its ends. -/
structure TextWindow.Cut (text : Text) (window : TextWindow) : Prop where
  lt : window.charStart < window.charEnd
  le : window.charEnd ≤ text.length
  first : ∀ c ∈ text[window.charStart]?, isSpace c = false
  text_eq : window.text = sliceText text window.charStart window.charEnd
  strip_text : strip window.text = window.text
  one_le_tokenCount : 1 ≤ window.tokenCount

theorem WindowConfiguration.one_le_size (self : WindowConfiguration) :
  1 ≤ self.size
  := Nat.one_le_of_lt self.overlap_lt_size

theorem WindowConfiguration.one_le_step (self : WindowConfiguration) :
  1 ≤ self.size - self.overlap
  := Nat.sub_pos_of_lt self.overlap_lt_size

/-- The tokens of a window. -/
theorem exists_of_mem_textWindows {U : UnicodeData} {configuration : WindowConfiguration}
    {text : Text} {window : TextWindow} (h : window ∈ textWindows U configuration text) :
  ∃ ms ∈ windows configuration.size (configuration.size - configuration.overlap) (tokens U text),
    window = textWindow text ms ∧ ms ≠ [] ∧ ms <:+: tokens U text
  := by
  obtain ⟨ms, hms, rfl⟩ := List.mem_map.mp h
  exact ⟨ms, hms, rfl,
    isInfix_of_mem_windows configuration.one_le_size configuration.one_le_step _ ms hms⟩

theorem exists_mem_charStart_textWindow (text : Text) {ms : List Span} (h : ms ≠ []) :
  ∃ first ∈ ms, (textWindow text ms).charStart = first.start
  := by
  obtain ⟨first, ms, rfl⟩ := List.exists_cons_of_ne_nil h
  exact ⟨first, List.mem_cons_self, rfl⟩

theorem exists_mem_charEnd_textWindow (text : Text) {ms : List Span} (h : ms ≠ []) :
  ∃ last ∈ ms, (textWindow text ms).charEnd = last.stop
  := by
  use ms.getLast h, List.getLast_mem h
  simp [textWindow, List.getLast?_eq_some_getLast h]

/-- A window has all of its tokens. -/
theorem charStart_textWindow_le (text : Text) {ms : List Span}
    (hordered : ms.Pairwise fun m m' => m.stop ≤ m'.start)
    (hlt : ∀ m ∈ ms, m.start < m.stop) {m : Span} (hm : m ∈ ms) :
  (textWindow text ms).charStart ≤ m.start ∧ m.stop ≤ (textWindow text ms).charEnd
  := by
  have hne := List.ne_nil_of_mem hm
  obtain ⟨hfirst, hlast⟩ := within_of_pairwise hordered hlt hm
  constructor
  · obtain ⟨first, ms, rfl⟩ := List.exists_cons_of_ne_nil hne
    apply hfirst first rfl
  · rw [textWindow, List.getLast?_eq_some_getLast hne]
    apply hlast _ (List.getLast?_eq_some_getLast hne)

/-- The window of successive tokens of a text is cut from it. -/
theorem cut_textWindow {U : UnicodeData} {text : Text} {ms : List Span} (hne : ms ≠ [])
    (hsub : ms <:+: tokens U text) :
  (textWindow text ms).Cut text
  := by
  have hordered := (pairwise_allMatches (tokenLength U) text).sublist hsub.sublist
  have hvisible : ∀ m ∈ ms, m.Visible text := fun m hm => visible_of_mem_tokens (hsub.subset hm)
  have hlt : ∀ m ∈ ms, m.start < m.stop := fun m hm => (hvisible m hm).lt
  obtain ⟨first, hfirst, hcharStart⟩ := exists_mem_charStart_textWindow text hne
  obtain ⟨last, hlast, hcharEnd⟩ := exists_mem_charEnd_textWindow text hne
  have hcut : (textWindow text ms).charStart < (textWindow text ms).charEnd := by
    have hend := (charStart_textWindow_le text hordered hlt hfirst).2
    have hpos := hlt first hfirst
    omega
  have hle : (textWindow text ms).charEnd ≤ text.length := by
    rw [hcharEnd]
    apply (hvisible last hlast).le
  have hhead : ∀ c ∈ text[(textWindow text ms).charStart]?, isSpace c = false := by
    rw [hcharStart]
    apply (hvisible first hfirst).first
  have hstrip : strip (sliceText text (textWindow text ms).charStart (textWindow text ms).charEnd)
      = sliceText text (textWindow text ms).charStart (textWindow text ms).charEnd := by
    apply strip_eq_self
    · rw [head?_sliceText hcut]
      apply hhead
    · rw [getLast?_sliceText hcut hle, hcharEnd]
      apply (hvisible last hlast).last
  exact ⟨hcut, hle, hhead, hstrip, strip_strip _, List.length_pos_iff.mpr hne⟩

theorem cut_of_mem_textWindows {U : UnicodeData} {configuration : WindowConfiguration}
    {text : Text} {window : TextWindow} (h : window ∈ textWindows U configuration text) :
  window.Cut text
  := by
  obtain ⟨ms, -, rfl, hne, hsub⟩ := exists_of_mem_textWindows h
  apply cut_textWindow hne hsub

/-- The windows of a text start one after the other. -/
theorem pairwise_charStart_textWindows (U : UnicodeData) (configuration : WindowConfiguration)
    (text : Text) :
  (textWindows U configuration text).Pairwise fun window window' =>
    window.charStart < window'.charStart
  := by
  have hstarts : (tokens U text).Pairwise fun m m' => m.start < m'.start := by
    apply (pairwise_allMatches (tokenLength U) text).imp_of_mem
    intro m m' hm _ hle
    apply lt_of_lt_of_le (visible_of_mem_tokens hm).lt hle
  apply List.pairwise_map.mpr
  apply (pairwise_head_windows configuration.one_le_size configuration.one_le_step
    hstarts).imp_of_mem
  intro ms ms' hms hms' hlt
  obtain ⟨first, ms, rfl⟩ := List.exists_cons_of_ne_nil
    (isInfix_of_mem_windows configuration.one_le_size configuration.one_le_step _ ms hms).1
  obtain ⟨first', ms', rfl⟩ := List.exists_cons_of_ne_nil
    (isInfix_of_mem_windows configuration.one_le_size configuration.one_le_step _ ms' hms').1
  apply hlt first rfl first' rfl

/-- Windows that share no tokens are disjoint. -/
theorem pairwise_charEnd_textWindows {U : UnicodeData} {configuration : WindowConfiguration}
    (h : configuration.overlap = 0) (text : Text) :
  (textWindows U configuration text).Pairwise fun window window' =>
    window.charEnd ≤ window'.charStart
  := by
  have hflatten := flatten_windows configuration.one_le_size (tokens U text)
  have hordered := pairwise_allMatches (tokenLength U) text
  rw [← tokens, ← hflatten, List.pairwise_flatten] at hordered
  rw [textWindows, h, Nat.sub_zero]
  apply List.pairwise_map.mpr
  apply hordered.2.imp_of_mem
  intro ms ms' hms hms' hle
  obtain ⟨last, hlast, hcharEnd⟩ := exists_mem_charEnd_textWindow text
    (isInfix_of_mem_windows configuration.one_le_size configuration.one_le_size _ ms hms).1
  obtain ⟨first, hfirst, hcharStart⟩ := exists_mem_charStart_textWindow text
    (isInfix_of_mem_windows configuration.one_le_size configuration.one_le_size _ ms' hms').1
  rw [hcharEnd, hcharStart]
  apply hle last hlast first hfirst

/-- Every visible character is in a window. -/
theorem exists_mem_textWindows (U : UnicodeData) (configuration : WindowConfiguration)
    {text : Text} {i : ℕ} {c : Char} (hget : text[i]? = some c) (hspace : isSpace c = false) :
  ∃ window ∈ textWindows U configuration text, window.charStart ≤ i ∧ i < window.charEnd
  := by
  obtain ⟨m, hm, hstart, hstop⟩ := exists_mem_tokens (U := U) hget hspace
  obtain ⟨ms, hms, hmem⟩ := exists_mem_windows configuration.one_le_step
    (Nat.sub_le configuration.size configuration.overlap) (tokens U text) m hm
  have hsub := (isInfix_of_mem_windows configuration.one_le_size configuration.one_le_step
    (tokens U text) ms hms).2
  have hle := charStart_textWindow_le text
    ((pairwise_allMatches (tokenLength U) text).sublist hsub.sublist)
    (fun m hm => (visible_of_mem_tokens (hsub.subset hm)).lt) hmem
  exact ⟨textWindow text ms, List.mem_map_of_mem hms, by omega, by omega⟩

end KnowledgeSearch

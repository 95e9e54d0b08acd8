import KnowledgeSearch.Foundations.Patterns
import KnowledgeSearch.Ingestion.Coverage
import Mathlib.Algebra.BigOperators.Ring.Finset

/-!
# The tokens of a text

`tokenPattern` is the pattern of the source, and `tokenLength` the length of its match,
`first_tokenPattern`. The length of a token depends on the characters of the token only, and white
space is not part of any. So a text that is cut between tokens has the tokens of its parts, and one
that is cut out between the ends of successive tokens has these.
-/

namespace KnowledgeSearch

/-! ### The pattern -/

/-- The characters that may join the parts of a word: `[-']`. -/
def isJoint (c : Char) : Bool :=
  c == '-' || c == '\''

/-- What is joined to a word: `[-'][\w]+`. -/
def joinedPattern (U : UnicodeData) : Pattern Char :=
  .seq (.single isJoint) (.plus (.single U.isWord))

/-- `TOKEN_PATTERN`, `\w+(?:[-'][\w]+)*|[^\w\s]`. -/
def tokenPattern (U : UnicodeData) : Pattern Char :=
  .alt (.seq (.plus (.single U.isWord)) (.star (joinedPattern U)))
    (.single fun c => !U.isWord c && !isSpace c)

/-- A word goes on as long as there are its characters, and then with what is joined to it. -/
theorem wordLength_eq_add (U : UnicodeData) (s : Text) :
  wordLength U s = (s.takeWhile U.isWord).length + wordLength U (s.drop (s.takeWhile U.isWord).length)
  := by
  induction s with
  | nil => rfl
  | cons c s ih =>
      cases hc : U.isWord c with
      | true =>
          rw [List.takeWhile_cons_of_pos hc, List.length_cons, List.drop_succ_cons, wordLength,
            if_pos hc, ih]
          omega
      | false =>
          rw [List.takeWhile_cons_of_neg (by simp [hc])]
          simp

/-- The character after those of a word is none of a word. -/
theorem isWord_head?_drop (U : UnicodeData) (s : Text) :
  ∀ c ∈ (s.drop (s.takeWhile U.isWord).length).head?, U.isWord c = false
  := by
  induction s with
  | nil => simp
  | cons d s ih =>
      cases hd : U.isWord d with
      | true =>
          rw [List.takeWhile_cons_of_pos hd, List.length_cons, List.drop_succ_cons]
          apply ih
      | false =>
          rw [List.takeWhile_cons_of_neg (by simp [hd])]
          rintro c ⟨⟩
          apply hd

/-- Nothing is joined by a character that joins no parts of words, or that no word follows. -/
theorem lengths_joinedPattern {U : UnicodeData} {c : Char} {s : Text}
    (h : (isJoint c && s.head?.any U.isWord) = false) :
  Pattern.lengths (joinedPattern U) (c :: s) = []
  := by
  rw [joinedPattern]
  cases hjoint : isJoint c with
  | false =>
      apply Pattern.lengths_seq_of_lengths
      rw [Pattern.lengths_single_cons, hjoint]
      rfl
  | true =>
      rw [hjoint, Bool.true_and] at h
      have hplus : Pattern.lengths (.plus (.single U.isWord)) s = [] := by
        cases s with
        | nil => rfl
        | cons d s => apply Pattern.lengths_plus_single (p := U.isWord) h
      rw [Pattern.lengths, Pattern.lengths_single_cons, hjoint, if_pos rfl, List.flatMap_singleton,
        List.drop_succ_cons, List.drop_zero, hplus]
      rfl

theorem first_joinedPattern {U : UnicodeData} {c d : Char} {s : Text} (hc : isJoint c = true)
    (hd : U.isWord d = true) :
  Pattern.first (joinedPattern U) (c :: d :: s) = some (1 + (1 + (s.takeWhile U.isWord).length))
  := by
  apply Pattern.first_seq_of_first
  · rw [Pattern.first, Pattern.lengths_single_cons, hc]
    rfl
  · apply Pattern.first_plus_single hd

/-- What is joined to a word is matched as often as possible. -/
theorem first_star_joinedPattern {U : UnicodeData} {s : Text}
    (h : ∀ c ∈ s.head?, U.isWord c = false) :
  Pattern.first (.star (joinedPattern U)) s = some (wordLength U s)
  := by
  induction hn : s.length using Nat.strong_induction_on generalizing s with
  | _ n ih =>
      cases s with
      | nil => rfl
      | cons c s =>
          rw [wordLength, h c rfl, if_neg Bool.false_ne_true, ← isJoint]
          cases hjoined : isJoint c && s.head?.any U.isWord with
          | false =>
              apply Pattern.first_star_of_lengths
              apply lengths_joinedPattern hjoined
          | true =>
              rw [Bool.and_eq_true] at hjoined
              cases s with
              | nil => cases hjoined.2
              | cons d s =>
                  have hd : U.isWord d = true := hjoined.2
                  have hword := wordLength_eq_add U (d :: s)
                  have hhead := isWord_head?_drop U (d :: s)
                  rw [List.takeWhile_cons_of_pos hd, List.length_cons, List.drop_succ_cons]
                    at hword hhead
                  have hdrop : (c :: d :: s).drop (1 + (1 + (s.takeWhile U.isWord).length))
                      = s.drop (s.takeWhile U.isWord).length := by
                    rw [Nat.add_comm 1, List.drop_succ_cons, Nat.add_comm 1, List.drop_succ_cons]
                  have hlt : (s.drop (s.takeWhile U.isWord).length).length < n := by
                    rw [← hn, List.length_drop, List.length_cons, List.length_cons]
                    omega
                  have hrest := ih _ hlt hhead rfl
                  rw [← hdrop] at hrest
                  rw [Pattern.first_star_of_first (first_joinedPattern hjoined.1 hd)
                    (Nat.add_pos_left Nat.one_pos _) hrest, if_pos rfl, hword, hdrop]
                  congr 1
                  omega

/-- A token is the match of the pattern. -/
theorem first_tokenPattern (U : UnicodeData) (s : Text) :
  (Pattern.first (tokenPattern U) s).getD 0 = tokenLength U s
  := by
  cases s with
  | nil => rfl
  | cons c s =>
      rw [tokenPattern, Pattern.first_alt, tokenLength]
      cases hc : U.isWord c with
      | true =>
          have hword := first_star_joinedPattern (isWord_head?_drop U s)
          rw [Pattern.first_seq_of_first (Pattern.first_plus_single hc)
            (k := wordLength U (s.drop (s.takeWhile U.isWord).length)), Option.some_or,
            Option.getD_some, if_pos rfl, wordLength_eq_add U s]
          · omega
          · rwa [Nat.add_comm 1, List.drop_succ_cons]
      | false =>
          have hnone : Pattern.first (.seq (.plus (.single U.isWord)) (.star (joinedPattern U)))
              (c :: s) = none := by
            rw [Pattern.first, Pattern.lengths_seq_of_lengths (Pattern.lengths_plus_single hc)]
            rfl
          rw [hnone, Option.none_or, Pattern.first, Pattern.lengths_single_cons, hc]
          cases isSpace c with
          | true => rfl
          | false => rfl

/-! ### The characters of a token -/

/-- White space is no part of a word. -/
theorem isSpace_of_mem_take_wordLength {U : UnicodeData} {s : Text} :
  ∀ c ∈ s.take (wordLength U s), isSpace c = false
  := by
  induction s with
  | nil => simp
  | cons d s ih =>
      rw [wordLength]
      split
      · rename_i hd
        rw [List.take_succ_cons, List.forall_mem_cons]
        exact ⟨U.isSpace_of_isWord d hd, ih⟩
      · split
        · rename_i hjoined
          rw [Bool.and_eq_true, Bool.or_eq_true, beq_iff_eq, beq_iff_eq] at hjoined
          rw [List.take_succ_cons, List.forall_mem_cons]
          refine ⟨?_, ih⟩
          rcases hjoined.1 with rfl | rfl
          · rfl
          · rfl
        · simp

/-- White space is no part of a token. -/
theorem isSpace_of_mem_take_tokenLength {U : UnicodeData} {s : Text} :
  ∀ c ∈ s.take (tokenLength U s), isSpace c = false
  := by
  cases s with
  | nil => simp
  | cons d s =>
      rw [tokenLength]
      split
      · rename_i hd
        rw [List.take_succ_cons, List.forall_mem_cons]
        exact ⟨U.isSpace_of_isWord d hd, isSpace_of_mem_take_wordLength⟩
      · split
        · simp
        · rename_i hspace
          simpa using hspace

/-- A word ends where it does when the text ends there or later. -/
theorem wordLength_take {U : UnicodeData} {s : Text} {n : ℕ} (h : wordLength U s ≤ n) :
  wordLength U (s.take n) = wordLength U s
  := by
  induction s generalizing n with
  | nil => rw [List.take_nil]
  | cons c s ih =>
      cases n with
      | zero =>
          rw [List.take_zero, Nat.le_zero.mp h]
          rfl
      | succ n =>
          rw [wordLength] at h
          rw [List.take_succ_cons, wordLength, wordLength]
          split at h
          · rename_i hc
            rw [if_pos hc, if_pos hc, ih (by omega)]
          · rename_i hc
            rw [if_neg hc, if_neg hc]
            have hhead : ∀ p : Char → Bool, (s.take n).head?.any p = true → s.head?.any p = true := by
              intro p
              cases n with
              | zero => simp
              | succ n =>
                  cases s with
                  | nil => exact id
                  | cons d s => exact id
            split at h
            · rename_i hjoined
              rw [if_pos hjoined, ih (by omega), if_pos]
              rw [Bool.and_eq_true] at hjoined ⊢
              refine ⟨hjoined.1, ?_⟩
              -- The part that is joined has a first character, which is not cut off.
              cases s with
              | nil => cases hjoined.2
              | cons d s =>
                  have hd : U.isWord d = true := hjoined.2
                  rw [wordLength, if_pos hd] at h
                  cases n with
                  | zero => omega
                  | succ n => apply hd
            · rename_i hjoined
              rw [if_neg hjoined, if_neg]
              intro hcut
              rw [Bool.and_eq_true] at hjoined hcut
              apply hjoined ⟨hcut.1, hhead _ hcut.2⟩

theorem localLength_tokenLength (U : UnicodeData) :
  LocalLength (tokenLength U)
  := by
  constructor
  · apply tokenLength_le
  · intro s n h
    cases s with
    | nil => rw [List.take_nil]
    | cons c s =>
        cases n with
        | zero =>
            rw [List.take_zero, Nat.le_zero.mp h]
            rfl
        | succ n =>
            rw [tokenLength] at h
            rw [List.take_succ_cons, tokenLength, tokenLength]
            split at h
            · rename_i hc
              rw [if_pos hc, if_pos hc, wordLength_take (by omega)]
            · rename_i hc
              rw [if_neg hc, if_neg hc]

/-! ### Joined texts -/

/-- The tokens of texts with two line feeds between them, the first of which starts at
`offset`. -/
def tokensFrom (U : UnicodeData) : ℕ → List Text → List Span
  | _, [] => []
  | offset, text :: texts =>
      (tokens U text).map (Span.shift offset) ++ tokensFrom U (offset + text.length + 2) texts

/-- No token goes across a position before white space. -/
theorem uncrossed_of_isSpace {U : UnicodeData} {text : Text} {position : ℕ} {c : Char}
    (hget : text[position]? = some c) (hspace : isSpace c = true) :
  Uncrossed (tokens U text) position
  := by
  intro m hm hstart
  by_contra hlt
  obtain ⟨-, hstop⟩ := mem_allMatches hm
  have hmem : c ∈ (text.drop m.start).take (tokenLength U (text.drop m.start)) := by
    apply List.mem_of_getElem? (i := position - m.start)
    rw [List.getElem?_take_of_lt (by omega), List.getElem?_drop, Nat.add_sub_cancel' hstart.le, hget]
  have hvisible := isSpace_of_mem_take_tokenLength c hmem
  rw [hspace] at hvisible
  cases hvisible

/-- White space before a text moves its tokens. -/
theorem tokens_cons_of_isSpace {U : UnicodeData} {c : Char} (hc : isSpace c = true) (s : Text) :
  tokens U (c :: s) = (tokens U s).map (Span.shift 1)
  := by
  rw [tokens, allMatches, matchesFrom, if_pos (tokenLength_eq_zero_iff.mpr hc), Nat.zero_add,
    matchesFrom_offset]
  rfl

/-- The tokens of two texts with two line feeds between them. -/
theorem tokens_append (U : UnicodeData) (s t : Text) :
  tokens U (s ++ '\n' :: '\n' :: t)
    = tokens U s ++ (tokens U t).map (Span.shift (s.length + 2))
  := by
  have hcut : Uncrossed (tokens U (s ++ '\n' :: '\n' :: t)) s.length := by
    apply uncrossed_of_isSpace (c := '\n')
    · rw [List.getElem?_append_right (le_refl _), Nat.sub_self]
      rfl
    · rfl
  rw [tokens, allMatches_append (localLength_tokenLength U) hcut, ← tokens, ← tokens,
    tokens_cons_of_isSpace (by rfl), tokens_cons_of_isSpace (by rfl), List.map_map, List.map_map]
  congr 1
  apply List.map_congr_left
  intro m _
  rw [Function.comp_apply, Function.comp_apply, Span.shift_shift, Span.shift_shift]

@[simp]
theorem map_shift_zero (ms : List Span) :
  ms.map (Span.shift 0) = ms
  := by
  have hid : ∀ m ∈ ms, Span.shift 0 m = id m := by
    intro m _
    simp [Span.shift]
  rw [List.map_congr_left hid, List.map_id]

theorem map_shift_tokensFrom (U : UnicodeData) (a b : ℕ) (texts : List Text) :
  (tokensFrom U b texts).map (Span.shift a) = tokensFrom U (a + b) texts
  := by
  induction texts generalizing b with
  | nil => rfl
  | cons text texts ih =>
      rw [tokensFrom, tokensFrom, List.map_append, List.map_map, ih, ← Nat.add_assoc,
        ← Nat.add_assoc]
      congr 1
      apply List.map_congr_left
      intro m _
      rw [Function.comp_apply, Span.shift_shift]

/-- The tokens of joined texts are those of each, moved to where it starts. -/
theorem tokens_intercalate (U : UnicodeData) (texts : List Text) :
  tokens U (List.intercalate ['\n', '\n'] texts) = tokensFrom U 0 texts
  := by
  induction texts with
  | nil => rfl
  | cons text texts ih =>
      cases texts with
      | nil => simp [tokensFrom]
      | cons next texts =>
          rw [List.intercalate_cons_cons, List.append_assoc]
          show tokens U (text ++ '\n' :: '\n' :: List.intercalate ['\n', '\n'] (next :: texts)) = _
          rw [tokens_append, ih, map_shift_tokensFrom]
          show _ = (tokens U text).map (Span.shift 0)
            ++ tokensFrom U (0 + text.length + 2) (next :: texts)
          rw [map_shift_zero, Nat.zero_add, Nat.add_zero]

/-- The tokens of the whole text are those of its sections, moved to where these are. -/
theorem Tiled.tokens_joinSections {U : UnicodeData} {sections : List NormalizedSection}
    (h : Tiled 0 sections) :
  tokens U (joinSections sections)
    = sections.flatMap fun part =>
      (tokens U part.text).map (Span.shift part.locator.charStart.toNat)
  := by
  have hfrom : ∀ (cursor : ℕ) (sections : List NormalizedSection), Tiled cursor sections →
      tokensFrom U cursor (sections.map NormalizedSection.text) = sections.flatMap fun part =>
        (tokens U part.text).map (Span.shift part.locator.charStart.toNat) := by
    intro cursor sections h
    induction sections generalizing cursor with
    | nil => rfl
    | cons part sections ih =>
        obtain ⟨hstart, -, -, hrest⟩ := h
        rw [List.map_cons, tokensFrom, List.flatMap_cons, hstart, ih _ hrest, Int.toNat_natCast]
  rw [joinSections, tokens_intercalate, hfrom 0 sections h]

/-! ### Successive tokens -/

/-- The tokens of a slice between the ends of successive tokens are these. -/
theorem map_shift_tokens_sliceText {U : UnicodeData} {text : Text} {ms : List Span}
    (hms : ms <:+: tokens U text) {first last : Span} (hfirst : ms.head? = some first)
    (hlast : ms.getLast? = some last) :
  (tokens U (sliceText text first.start last.stop)).map (Span.shift first.start) = ms
  := map_shift_allMatches_slice (localLength_tokenLength U) hms hfirst hlast

/-- The tokens of the text of a window are those it is a window of. -/
theorem map_shift_tokens_textWindow {U : UnicodeData} {text : Text} {ms : List Span}
    (hne : ms ≠ []) (hms : ms <:+: tokens U text) :
  (tokens U (textWindow text ms).text).map (Span.shift (textWindow text ms).charStart) = ms
  := by
  have hfirst := List.head?_eq_some_head hne
  have hlast := List.getLast?_eq_some_getLast hne
  have hstart : (textWindow text ms).charStart = (ms.head hne).start := by
    rw [textWindow, hfirst]
    rfl
  have hend : (textWindow text ms).charEnd = (ms.getLast hne).stop := by
    rw [textWindow, hlast]
    rfl
  rw [(cut_textWindow hne hms).text_eq, hstart, hend]
  apply map_shift_tokens_sliceText hms hfirst hlast

/-- The number of tokens of a window is that of its text. -/
theorem tokenCount_of_mem_textWindows {U : UnicodeData} {configuration : WindowConfiguration}
    {text : Text} {window : TextWindow} (h : window ∈ textWindows U configuration text) :
  window.tokenCount = (tokens U window.text).length
  := by
  obtain ⟨ms, -, rfl, hne, hms⟩ := exists_of_mem_textWindows h
  have hlength := congrArg List.length (map_shift_tokens_textWindow hne hms)
  rw [List.length_map] at hlength
  exact hlength.symm

/-- The tokens of a window of a text that starts at `offset`. -/
def TextWindow.tokenSpansFrom (U : UnicodeData) (offset : ℤ) (window : TextWindow) : List Span :=
  (tokens U window.text).map (Span.shift (offset + window.charStart).toNat)

/-- Windows that do not overlap have the tokens of the text, one after the other. -/
theorem flatMap_tokenSpansFrom {U : UnicodeData} {configuration : WindowConfiguration}
    (h : configuration.overlap = 0) (offset : ℕ) (text : Text) :
  ((textWindows U configuration text).map (TextWindow.tokenSpansFrom U offset)).flatten
    = (tokens U text).map (Span.shift offset)
  := by
  rw [textWindows, List.map_map, h, Nat.sub_zero]
  have hwindow : ∀ ms ∈ windows configuration.size configuration.size (tokens U text),
      (TextWindow.tokenSpansFrom U offset ∘ textWindow text) ms = ms.map (Span.shift offset) := by
    intro ms hms
    obtain ⟨hne, hsub⟩ :=
      isInfix_of_mem_windows configuration.one_le_size configuration.one_le_size _ ms hms
    have hspans := congrArg (List.map (Span.shift offset)) (map_shift_tokens_textWindow hne hsub)
    rw [List.map_map] at hspans
    rw [← hspans, Function.comp_apply, TextWindow.tokenSpansFrom]
    apply List.map_congr_left
    intro m _
    rw [Function.comp_apply, Span.shift_shift]
    congr 1
  rw [List.map_congr_left hwindow, ← List.map_flatten, flatten_windows configuration.one_le_size]

/-! ### Chunks -/

/-- The tokens of a passage. -/
def Segment.tokenSpans (U : UnicodeData) (segment : Segment) : List Span :=
  (tokens U segment.text).map (Span.shift segment.locator.charStart.toNat)

theorem Segment.Of.tokenSpans_eq {U : UnicodeData} {part : NormalizedSection} {offset : ℤ}
    {window : TextWindow} {segment : Segment} (h : segment.Of part offset window) :
  segment.tokenSpans U = window.tokenSpansFrom U offset
  := by rw [Segment.tokenSpans, h.text, h.charStart, TextWindow.tokenSpansFrom]

/-- The token count of a passage is the number of tokens of its text. -/
theorem DocumentChunker.tokenCount_of_mem_segments {self : DocumentChunker} {U : UnicodeData}
    {sections : List NormalizedSection} {segments : List Segment}
    (h : self.segments U sections = .ok segments) {segment : Segment} (hsegment : segment ∈ segments) :
  segment.tokenCount = (tokens U segment.text).length
  := by
  have hof : ∀ {part offset window segment}, Segment.Of part offset window segment →
      (segment.text, segment.tokenCount) = (window.text, (window.tokenCount : ℤ)) := by
    intro part offset window segment hof
    rw [hof.text, hof.tokenCount]
  have hpair := List.mem_map_of_mem (f := fun segment : Segment =>
    (segment.text, segment.tokenCount)) hsegment
  have hwindow : ∃ (text : Text) (window : TextWindow),
      window ∈ textWindows U self.configuration text
        ∧ (window.text, (window.tokenCount : ℤ)) = (segment.text, segment.tokenCount) := by
    obtain ⟨strategy, configuration⟩ := self
    cases strategy with
    | fixedWindow =>
        rw [map_fixedWindowSegments (g := fun _ window => (window.text, (window.tokenCount : ℤ)))
          hof h] at hpair
        obtain ⟨window, hwindow, heq⟩ := List.mem_map.mp hpair
        exact ⟨_, window, hwindow, heq⟩
    | sectionAware =>
        rw [map_sectionAwareSegments (g := fun _ window => (window.text, (window.tokenCount : ℤ)))
          hof h] at hpair
        obtain ⟨part, -, hpair⟩ := List.mem_flatMap.mp hpair
        obtain ⟨window, hwindow, heq⟩ := List.mem_map.mp hpair
        exact ⟨_, window, hwindow, heq⟩
  obtain ⟨text, window, hwindow, heq⟩ := hwindow
  rw [Prod.mk.injEq] at heq
  rw [← heq.1, ← heq.2, tokenCount_of_mem_textWindows hwindow]

/-- Chunkers whose windows do not overlap cut the tokens of the whole text. -/
theorem DocumentChunker.flatMap_tokenSpans {self : DocumentChunker} {U : UnicodeData}
    {sections : List NormalizedSection} (htiled : Tiled 0 sections) {segments : List Segment}
    (h : self.segments U sections = .ok segments) (hoverlap : self.configuration.overlap = 0) :
  (segments.map (Segment.tokenSpans U)).flatten = tokens U (joinSections sections)
  := by
  obtain ⟨strategy, configuration⟩ := self
  cases strategy with
  | fixedWindow =>
      rw [map_fixedWindowSegments Segment.Of.tokenSpans_eq h]
      apply (flatMap_tokenSpansFrom hoverlap 0 _).trans (map_shift_zero _)
  | sectionAware =>
      rw [map_sectionAwareSegments Segment.Of.tokenSpans_eq h, htiled.tokens_joinSections,
        ← List.flatMap_id, List.flatMap_assoc]
      apply List.flatMap_congr
      intro part hpart
      obtain ⟨before, -, -, hstart, -⟩ := htiled.exists_join_eq hpart
      have hcast : part.locator.charStart = (part.locator.charStart.toNat : ℕ) := by omega
      rw [List.flatMap_id, hcast, Int.toNat_natCast]
      apply flatMap_tokenSpansFrom hoverlap

/-- The tokens of a chunk. -/
def Chunk.tokenSpans (U : UnicodeData) (chunk : Chunk) : List Span :=
  (tokens U chunk.text).map (Span.shift chunk.locator.charStart.toNat)

/-- The chunks of normalized sections count the tokens of their texts. Those of windows that do not
overlap have the tokens of the whole text, one after the other. -/
theorem DocumentChunker.tokens_chunk {self : DocumentChunker} {U : UnicodeData} {S : Services}
    {documentId : Uuid} {sections : List NormalizedSection} (htiled : Tiled 0 sections)
    {chunks : List Chunk} (h : self.chunk U S documentId sections = .ok chunks) :
  (∀ chunk ∈ chunks, chunk.tokenCount = (tokens U chunk.text).length)
    ∧ (self.configuration.overlap = 0 →
      chunks.flatMap (Chunk.tokenSpans U) = tokens U (joinSections sections)
        ∧ (chunks.map fun chunk => chunk.tokenCount).sum
          = (tokens U (joinSections sections)).length)
  := by
  obtain ⟨segments, hsegments, hchunks⟩ := chunk_eq_ok_iff.mp h
  have hmap := map_segment_createChunks hchunks
  have hcount : ∀ chunk ∈ chunks, chunk.tokenCount = (tokens U chunk.text).length := by
    intro chunk hchunk
    have hmem : chunk.segment ∈ segments := by
      rw [← hmap]
      apply List.mem_map_of_mem hchunk
    apply tokenCount_of_mem_segments hsegments hmem
  use hcount
  intro hoverlap
  have hspans : chunks.flatMap (Chunk.tokenSpans U) = tokens U (joinSections sections) := by
    rw [← flatMap_tokenSpans htiled hsegments hoverlap, ← hmap, List.map_map]
    rfl
  have hlength : ∀ chunk ∈ chunks, chunk.tokenCount = ((chunk.tokenSpans U).length : ℤ) := by
    intro chunk hchunk
    rw [hcount chunk hchunk, Chunk.tokenSpans, List.length_map]
  use hspans
  rw [← hspans, List.length_flatMap, Nat.cast_list_sum, List.map_map,
    List.map_congr_left hlength]
  rfl

/-! ### Main result -/

/-- Tokens are those of the pattern of the source. Joined texts have the tokens of each, moved to
where it starts, and what lies between the ends of successive tokens has these. Hence the chunks
of normalized sections count the tokens of their texts, and without overlap both chunkers cut the
tokens of the whole text, which are those of the sections, and count as many. -/
theorem tokens_compositional (U : UnicodeData) :
  (∀ text, tokens U text
    = allMatches (fun s => (Pattern.first (tokenPattern U) s).getD 0) text)
  ∧ (∀ texts, tokens U (List.intercalate ['\n', '\n'] texts) = tokensFrom U 0 texts)
  ∧ (∀ text ms first last, ms <:+: tokens U text → ms.head? = some first →
    ms.getLast? = some last →
      (tokens U (sliceText text first.start last.stop)).map (Span.shift first.start) = ms)
  ∧ ∀ extracted sections, normalizeSections U extracted = .ok sections →
    (tokens U (joinSections sections) = sections.flatMap fun part =>
      (tokens U part.text).map (Span.shift part.locator.charStart.toNat))
    ∧ ∀ (self : DocumentChunker) (S : Services) (documentId : Uuid) (chunks : List Chunk),
      self.chunk U S documentId sections = .ok chunks →
        (∀ chunk ∈ chunks, chunk.tokenCount = (tokens U chunk.text).length)
        ∧ (self.configuration.overlap = 0 →
          chunks.flatMap (Chunk.tokenSpans U) = tokens U (joinSections sections)
            ∧ (chunks.map fun chunk => chunk.tokenCount).sum
              = (tokens U (joinSections sections)).length)
  := by
  refine ⟨?_, tokens_intercalate U, ?_, ?_⟩
  · intro text
    rw [funext (first_tokenPattern U), tokens]
  · intro text ms first last hms hfirst hlast
    apply map_shift_tokens_sliceText hms hfirst hlast
  · intro extracted sections h
    have htiled : Tiled 0 sections :=
      tiled_normalizeSectionsFrom (normalizeSections_eq_ok_iff.mp h).1
    use htiled.tokens_joinSections
    intro self S documentId chunks hchunks
    apply DocumentChunker.tokens_chunk htiled hchunks

theorem tokens_compositional_sample :
  (tokens .ascii (sliceText "co-op's 2 x".toList 0 9)).map (Span.shift 0) = [⟨0, 7⟩, ⟨8, 9⟩]
    ∧ tokens .ascii (joinSections sampleNormalized) = [⟨0, 5⟩, ⟨6, 10⟩, ⟨12, 17⟩]
    ∧ ∃ chunks, (⟨.fixedWindow, ⟨2, 0, by decide⟩⟩ : DocumentChunker).chunk .ascii .sample
          Services.sampleDocumentId sampleNormalized = .ok chunks
      ∧ (chunks.map fun chunk => chunk.tokenCount).sum = 3
  := by
  obtain ⟨-, -, hslice, hsections⟩ := tokens_compositional .ascii
  have hms : [⟨0, 7⟩, ⟨8, 9⟩] <:+: tokens .ascii "co-op's 2 x".toList := by
    refine ⟨[], [⟨10, 11⟩], ?_⟩
    decide +kernel
  have hnormalize : normalizeSections .ascii [.ofText "alpha beta\n".toList ["A".toList] (by decide),
      .ofText "\ngamma\n".toList ["B".toList] (by decide)] = .ok sampleNormalized := by
    decide +kernel
  have htokens : tokens .ascii (joinSections sampleNormalized) = [⟨0, 5⟩, ⟨6, 10⟩, ⟨12, 17⟩] := by
    decide +kernel
  use hslice _ _ _ _ hms rfl rfl, htokens
  cases hchunk : (⟨.fixedWindow, ⟨2, 0, by decide⟩⟩ : DocumentChunker).chunk .ascii .sample
      Services.sampleDocumentId sampleNormalized with
  | error e =>
      have hok : ((⟨.fixedWindow, ⟨2, 0, by decide⟩⟩ : DocumentChunker).chunk .ascii .sample
        Services.sampleDocumentId sampleNormalized).isOk = true := by decide +kernel
      rw [hchunk] at hok
      cases hok
  | ok chunks =>
      refine ⟨chunks, rfl, ?_⟩
      obtain ⟨-, hcounts⟩ := (hsections _ _ hnormalize).2 _ _ _ _ hchunk
      rw [(hcounts rfl).2, htokens]
      rfl

end KnowledgeSearch

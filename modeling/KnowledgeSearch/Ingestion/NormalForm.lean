import KnowledgeSearch.Ingestion.Locators
import KnowledgeSearch.Ingestion.Normalization
import Mathlib.Data.List.Chain
import Mathlib.Logic.Relation

/-!
# The normal form of a text

`NormalText` says what normalization leaves: no carriage returns and no no-break spaces, no
blanks before a line feed, no three successive line feeds and no white space at the ends. Every
pass leaves a text in normal form as it is, and each keeps what the passes before it established.

`Tidying` is a single change of white space as the passes make it. Normalization only tidies the
normal form C of a text, `tidied_normalizeDocumentText`, so where that form is stable under
tidying, normalizing twice is normalizing once.
-/

namespace KnowledgeSearch

/-- A text in normal form. -/
structure NormalText (text : Text) : Prop where
  not_mem_cr : '\r' ∉ text
  not_mem_nbsp : '\u00a0' ∉ text
  not_blank_lf : ∀ c, isBlankChar c = true → ¬ [c, '\n'] <:+: text
  not_lf_lf_lf : ¬ ['\n', '\n', '\n'] <:+: text
  head : ∀ c ∈ text.head?, isSpace c = false
  last : ∀ c ∈ text.getLast?, isSpace c = false

/-! ### Line ends -/

/-- A character that may come before another: not a blank before a line feed. -/
def MayPrecede (c d : Char) : Prop :=
  isBlankChar c = true → d ≠ '\n'

/-- No blank comes before a line feed when each character may come before the next. -/
theorem isChain_mayPrecede_iff {s : Text} :
  s.IsChain MayPrecede ↔ ∀ c, isBlankChar c = true → ¬ [c, '\n'] <:+: s
  := by
  constructor
  · intro h c hc hinfix
    have hpair := h.infix hinfix
    rw [List.isChain_pair] at hpair
    apply hpair hc rfl
  · intro h
    induction s with
    | nil => apply List.isChain_nil
    | cons c s ih =>
        rw [List.isChain_cons]
        constructor
        · rintro d hd hc rfl
          obtain ⟨t, rfl⟩ := List.head?_eq_some_iff.mp hd
          apply h c hc
          exact ⟨[], t, rfl⟩
        · apply ih
          intro d hd hrun
          apply h d hd (hrun.trans (List.suffix_cons c s).isInfix)

/-- After a blank the end of the line is where it is after what follows. -/
theorem atLineEnd_cons_of_blank {c : Char} (h : isBlankChar c = true) (s : Text) :
  atLineEnd (c :: s) = atLineEnd s
  := by rw [atLineEnd, List.dropWhile_cons_of_pos h, atLineEnd]

theorem atLineEnd_cons_of_not_blank {c : Char} (h : isBlankChar c = false) (s : Text) :
  atLineEnd (c :: s) = (c == '\n')
  := by
  rw [atLineEnd, List.dropWhile_cons_of_neg]
  simp [h]

/-- What starts before the end of a line starts with no line feed once the blanks at the ends of
lines are removed. -/
theorem head?_removeTrailingWhitespace {s : Text} (h : atLineEnd s = false) :
  ∀ d ∈ (removeTrailingWhitespace s).head?, d ≠ '\n'
  := by
  cases s with
  | nil => cases h
  | cons c s =>
      cases hc : isBlankChar c with
      | true =>
          rw [atLineEnd_cons_of_blank hc] at h
          rw [removeTrailingWhitespace, hc, h]
          rintro d ⟨⟩ rfl
          cases hc
      | false =>
          rw [atLineEnd_cons_of_not_blank hc, beq_eq_false_iff_ne] at h
          rw [removeTrailingWhitespace, hc]
          rintro d ⟨⟩
          apply h

/-- No blanks are left before line feeds. -/
theorem isChain_removeTrailingWhitespace (s : Text) :
  (removeTrailingWhitespace s).IsChain MayPrecede
  := by
  induction s with
  | nil => apply List.isChain_nil
  | cons c s ih =>
      rw [removeTrailingWhitespace]
      split
      · apply ih
      · rename_i h
        rw [List.isChain_cons]
        refine ⟨?_, ih⟩
        intro d hd hc
        rw [hc, Bool.true_and, Bool.not_eq_true] at h
        apply head?_removeTrailingWhitespace h d hd

/-- A blank is not at the end of a line when none comes before a line feed or at the end. -/
theorem atLineEnd_of_isChain {c : Char} {s : Text} (hc : isBlankChar c = true)
    (hchain : (c :: s).IsChain MayPrecede)
    (hlast : ∀ d ∈ (c :: s).getLast?, isBlankChar d = false) :
  atLineEnd s = false
  := by
  induction s generalizing c with
  | nil =>
      have hnot := hlast c rfl
      rw [hc] at hnot
      cases hnot
  | cons d s ih =>
      obtain ⟨hne, hchain⟩ := List.isChain_cons_cons.mp hchain
      rw [List.getLast?_cons_cons] at hlast
      cases hd : isBlankChar d with
      | true =>
          rw [atLineEnd_cons_of_blank hd]
          apply ih hd hchain hlast
      | false =>
          rw [atLineEnd_cons_of_not_blank hd, beq_eq_false_iff_ne]
          apply hne hc

theorem removeTrailingWhitespace_eq_self {s : Text} (hchain : s.IsChain MayPrecede)
    (hlast : ∀ d ∈ s.getLast?, isBlankChar d = false) :
  removeTrailingWhitespace s = s
  := by
  induction s with
  | nil => rfl
  | cons c s ih =>
      have hrest : removeTrailingWhitespace s = s := by
        apply ih (List.isChain_cons.mp hchain).2
        intro d hd
        apply hlast d
        rw [List.getLast?_cons, Option.mem_def.mp hd]
        rfl
      rw [removeTrailingWhitespace, hrest, if_neg]
      intro h
      rw [Bool.and_eq_true] at h
      have hnot := atLineEnd_of_isChain h.1 hchain hlast
      rw [h.2] at hnot
      cases hnot

theorem removeTrailingWhitespace_sublist (s : Text) :
  (removeTrailingWhitespace s).Sublist s
  := by
  induction s with
  | nil => apply List.Sublist.refl
  | cons c s ih =>
      rw [removeTrailingWhitespace]
      split
      · apply ih.cons
      · apply ih.cons_cons

/-! ### Line feeds -/

theorem limitLineFeeds_sublist (count : ℕ) (s : Text) :
  (limitLineFeeds count s).Sublist s
  := by
  induction s generalizing count with
  | nil => apply List.Sublist.refl
  | cons c s ih =>
      rw [limitLineFeeds]
      split
      · split
        · apply (ih _).cons_cons
        · apply (ih _).cons
      · apply (ih _).cons_cons

theorem head?_limitLineFeeds_zero (s : Text) :
  (limitLineFeeds 0 s).head? = s.head?
  := by
  cases s with
  | nil => rfl
  | cons c s =>
      rw [limitLineFeeds]
      split
      · rfl
      · rfl

/-- What may precede is kept when line feeds are left out, since only other line feeds come
before these. -/
theorem isChain_limitLineFeeds {s : Text} (h : s.IsChain MayPrecede) (count : ℕ) :
  (limitLineFeeds count s).IsChain MayPrecede
  := by
  induction s generalizing count with
  | nil => apply List.isChain_nil
  | cons c s ih =>
      obtain ⟨hhead, htail⟩ := List.isChain_cons.mp h
      rw [limitLineFeeds]
      split
      · rename_i hc
        split
        · rw [List.isChain_cons]
          refine ⟨?_, ih htail _⟩
          intro d _ hblank
          rw [hc] at hblank
          cases hblank
        · apply ih htail
      · rw [List.isChain_cons, head?_limitLineFeeds_zero]
        exact ⟨hhead, ih htail _⟩

/-- After two line feeds as many are left out as after more. -/
theorem limitLineFeeds_of_two_le (count : ℕ) (h : 2 ≤ count) (s : Text) :
  limitLineFeeds count s = limitLineFeeds 2 s
  := by
  induction s generalizing count with
  | nil => rfl
  | cons c s ih =>
      rw [limitLineFeeds, limitLineFeeds]
      split
      · rw [if_neg (by omega), if_neg (by omega), ih _ (by omega), ih (2 + 1) (by omega)]
      · rfl

/-- A text with no three successive line feeds, that comes after `count` of these, is left as it
is. -/
theorem limitLineFeeds_eq_self {count : ℕ} {s : Text} (hcount : count ≤ 2)
    (h : ¬ ['\n', '\n', '\n'] <:+: List.replicate count '\n' ++ s) :
  limitLineFeeds count s = s
  := by
  induction s generalizing count with
  | nil => rfl
  | cons c s ih =>
      rw [limitLineFeeds]
      split
      · rename_i hc
        rw [hc, List.append_cons, ← List.replicate_succ'] at h
        split
        · rw [ih (by omega) h]
        · obtain rfl : count = 2 := by omega
          exact absurd ⟨[], s, rfl⟩ h
      · rw [ih (by omega)]
        intro hrun
        apply h
        exact hrun.trans ((List.suffix_cons c s).trans (List.suffix_append _ _)).isInfix

/-- The third of three successive line feeds is left out. -/
theorem length_limitLineFeeds_lt {s : Text} (h : ['\n', '\n', '\n'] <:+: s) (count : ℕ) :
  (limitLineFeeds count s).length < s.length
  := by
  obtain ⟨before, after, rfl⟩ := h
  induction before generalizing count with
  | nil =>
      have hle := (limitLineFeeds_sublist (count + 1 + 1 + 1) after).length_le
      have hthird : ¬ count + 1 + 1 < 2 := by omega
      simp only [List.nil_append, List.cons_append, limitLineFeeds, if_true, hthird, if_false]
      split
      · split
        · simp only [List.length_cons]
          omega
        · simp only [List.length_cons]
          omega
      · split
        · simp only [List.length_cons]
          omega
        · simp only [List.length_cons]
          omega
  | cons c before ih =>
      rw [List.cons_append, List.cons_append, limitLineFeeds]
      split
      · split
        · apply Nat.succ_lt_succ (ih _)
        · apply (ih _).trans (Nat.lt_succ_self _)
      · apply Nat.succ_lt_succ (ih _)

/-- Leaving out line feeds once is enough. -/
theorem limitLineFeeds_limitLineFeeds (count : ℕ) (s : Text) :
  limitLineFeeds count (limitLineFeeds count s) = limitLineFeeds count s
  := by
  induction s generalizing count with
  | nil => rfl
  | cons c s ih =>
      rw [limitLineFeeds]
      split
      · rename_i hc
        split
        · rename_i hcount
          rw [limitLineFeeds, if_pos hc, if_pos hcount, ih]
        · rw [limitLineFeeds_of_two_le _ (by omega), limitLineFeeds_of_two_le (count + 1)
            (by omega), ih]
      · rename_i hc
        rw [limitLineFeeds, if_neg hc, ih]

/-- No three successive line feeds are left. -/
theorem not_lf_lf_lf_removeExcessBlankLines (s : Text) :
  ¬ ['\n', '\n', '\n'] <:+: removeExcessBlankLines s
  := by
  intro hinfix
  have hlt := length_limitLineFeeds_lt hinfix 0
  rw [removeExcessBlankLines, limitLineFeeds_limitLineFeeds] at hlt
  apply lt_irrefl _ hlt

/-! ### Replaced characters -/

theorem not_mem_replaceChar {old new : Char} (hne : new ≠ old) (s : Text) :
  old ∉ replaceChar old new s
  := by
  intro hmem
  obtain ⟨c, -, hc⟩ := List.mem_map.mp hmem
  split at hc
  · apply hne hc
  · contradiction

/-- A character that is not put in is absent where it was absent. -/
theorem not_mem_replaceChar_of_not_mem {old new c : Char} {s : Text} (hne : new ≠ c) (h : c ∉ s) :
  c ∉ replaceChar old new s
  := by
  intro hmem
  obtain ⟨d, hd, hc⟩ := List.mem_map.mp hmem
  split at hc
  · apply hne hc
  · apply h
    rwa [← hc]

theorem replaceChar_eq_self {old new : Char} {s : Text} (h : old ∉ s) :
  replaceChar old new s = s
  := by
  have hid : ∀ c ∈ s, (if c = old then new else c) = id c := by
    intro c hc
    apply if_neg
    rintro rfl
    apply h hc
  rw [replaceChar, List.map_congr_left hid, List.map_id]

theorem replaceCrLf_eq_self {s : Text} (h : '\r' ∉ s) :
  replaceCrLf s = s
  := by
  induction s with
  | nil => rfl
  | cons c s ih =>
      rw [List.mem_cons, not_or] at h
      rw [replaceCrLf, if_neg, ih h.2]
      rintro ⟨rfl, -⟩
      apply h.1 rfl

/-! ### The normal form -/

theorem isInfix_strip (s : Text) :
  strip s <:+: s
  := (List.rdropWhile_prefix isSpace _).isInfix.trans (List.dropWhile_suffix isSpace).isInfix

/-- Normalization leaves a text in normal form. -/
theorem normalText_normalizeDocumentText (U : UnicodeData) (text : Text) :
  NormalText (normalizeDocumentText U text)
  := by
  rw [normalizeDocumentText]
  generalize hreplaced : replaceChar '\u00a0' ' ' (replaceChar '\r' '\n' (replaceCrLf (U.nfc text)))
    = replaced
  have hcr : '\r' ∉ replaced := by
    rw [← hreplaced]
    apply not_mem_replaceChar_of_not_mem (by decide)
    apply not_mem_replaceChar (by decide)
  have hnbsp : '\u00a0' ∉ replaced := by
    rw [← hreplaced]
    apply not_mem_replaceChar (by decide)
  have hsub : (strip (removeExcessBlankLines (removeTrailingWhitespace replaced))).Sublist replaced :=
    (isInfix_strip _).sublist.trans
      ((limitLineFeeds_sublist 0 _).trans (removeTrailingWhitespace_sublist replaced))
  have hchain := isChain_limitLineFeeds (isChain_removeTrailingWhitespace replaced) 0
  constructor
  · intro hmem
    apply hcr (hsub.subset hmem)
  · intro hmem
    apply hnbsp (hsub.subset hmem)
  · have hstrip := hchain.infix (isInfix_strip _)
    apply isChain_mayPrecede_iff.mp hstrip
  · intro hrun
    apply not_lf_lf_lf_removeExcessBlankLines _ (hrun.trans (isInfix_strip _))
  · intro c hc
    apply isSpace_head?_strip hc
  · intro c hc
    apply isSpace_getLast?_strip hc

/-- Texts in both normal forms are the ones that are normalized already. -/
theorem normalizeDocumentText_eq_self {U : UnicodeData} {text : Text} (h : NormalText text)
    (hnfc : U.nfc text = text) :
  normalizeDocumentText U text = text
  := by
  have hlast : ∀ d ∈ text.getLast?, isBlankChar d = false := by
    intro d hd
    by_contra hblank
    rw [Bool.not_eq_false] at hblank
    have hspace := h.last d hd
    rw [isSpace_of_isBlankChar hblank] at hspace
    cases hspace
  rw [normalizeDocumentText, hnfc, replaceCrLf_eq_self h.not_mem_cr,
    replaceChar_eq_self h.not_mem_cr, replaceChar_eq_self h.not_mem_nbsp,
    removeTrailingWhitespace_eq_self (isChain_mayPrecede_iff.mpr h.not_blank_lf) hlast,
    removeExcessBlankLines, limitLineFeeds_eq_self (Nat.zero_le 2) h.not_lf_lf_lf,
    strip_eq_self h.head h.last]

/-! ### Tidying -/

/-- A change of white space: a white space character is deleted at an end of the text or next to a
line feed, or one that is no line feed becomes a space or a line feed. -/
inductive Tidying : Text → Text → Prop
  | replace (s t : Text) {c d : Char} (hc : isSpace c = true) (hne : c ≠ '\n')
    (hd : d = ' ' ∨ d = '\n') : Tidying (s ++ c :: t) (s ++ d :: t)
  | deleteFirst (t : Text) {c : Char} (hc : isSpace c = true) : Tidying (c :: t) t
  | deleteLast (s : Text) {c : Char} (hc : isSpace c = true) : Tidying (s ++ [c]) s
  | deleteBefore (s t : Text) {c : Char} (hc : isSpace c = true) :
    Tidying (s ++ c :: '\n' :: t) (s ++ '\n' :: t)
  | deleteAfter (s t : Text) {c : Char} (hc : isSpace c = true) :
    Tidying (s ++ '\n' :: c :: t) (s ++ '\n' :: t)

/-- What a number of such changes make of a text. -/
abbrev Tidied : Text → Text → Prop :=
  Relation.ReflTransGen Tidying

theorem tidied_replaceCrLf (before s : Text) :
  Tidied (before ++ s) (before ++ replaceCrLf s)
  := by
  induction s generalizing before with
  | nil => apply Relation.ReflTransGen.refl
  | cons c s ih =>
      rw [replaceCrLf]
      split
      · rename_i h
        obtain ⟨t, rfl⟩ := List.head?_eq_some_iff.mp h.2
        rw [h.1]
        apply Relation.ReflTransGen.head (Tidying.deleteBefore before t (by decide)) (ih before)
      · rw [List.append_cons, List.append_cons before c (replaceCrLf s)]
        apply ih

theorem tidied_replaceChar (old new : Char) (hold : isSpace old = true) (hne : old ≠ '\n')
    (hnew : new = ' ' ∨ new = '\n') (before s : Text) :
  Tidied (before ++ s) (before ++ replaceChar old new s)
  := by
  induction s generalizing before with
  | nil => apply Relation.ReflTransGen.refl
  | cons c s ih =>
      rw [replaceChar, List.map_cons, ← replaceChar]
      have hrest : ∀ d, Tidied (before ++ d :: s) (before ++ d :: replaceChar old new s) := by
        intro d
        rw [List.append_cons, List.append_cons before d (replaceChar old new s)]
        apply ih
      split
      · rename_i h
        rw [h]
        apply Relation.ReflTransGen.head (Tidying.replace before s hold hne hnew) (hrest new)
      · apply hrest c

/-- The blanks of an end of a line are all removed. -/
theorem removeTrailingWhitespace_of_atLineEnd {s : Text} (h : atLineEnd s = true) :
  removeTrailingWhitespace s = [] ∨ ∃ t, removeTrailingWhitespace s = '\n' :: t
  := by
  induction s with
  | nil => exact Or.inl rfl
  | cons c s ih =>
      cases hc : isBlankChar c with
      | true =>
          rw [atLineEnd_cons_of_blank hc] at h
          rw [removeTrailingWhitespace, hc, h]
          apply ih h
      | false =>
          rw [atLineEnd_cons_of_not_blank hc, beq_iff_eq] at h
          rw [removeTrailingWhitespace, hc, h]
          exact Or.inr ⟨_, rfl⟩

theorem tidied_removeTrailingWhitespace (before s : Text) :
  Tidied (before ++ s) (before ++ removeTrailingWhitespace s)
  := by
  induction s generalizing before with
  | nil => apply Relation.ReflTransGen.refl
  | cons c s ih =>
      have hrest : Tidied (before ++ c :: s) (before ++ c :: removeTrailingWhitespace s) := by
        rw [List.append_cons, List.append_cons before c (removeTrailingWhitespace s)]
        apply ih
      rw [removeTrailingWhitespace]
      split
      · rename_i h
        rw [Bool.and_eq_true] at h
        have hspace := isSpace_of_isBlankChar h.1
        -- The blanks after `c` are gone already.
        rcases removeTrailingWhitespace_of_atLineEnd h.2 with hnil | ⟨t, ht⟩
        · rw [hnil] at hrest ⊢
          rw [List.append_nil]
          apply hrest.tail (Tidying.deleteLast before hspace)
        · rw [ht] at hrest ⊢
          apply hrest.tail (Tidying.deleteBefore before t hspace)
      · apply hrest

/-- Line feeds are left out after others. -/
theorem tidied_limitLineFeeds {count : ℕ} {before : Text}
    (h : 0 < count → ∃ t, before = t ++ ['\n']) (s : Text) :
  Tidied (before ++ s) (before ++ limitLineFeeds count s)
  := by
  induction s generalizing count before with
  | nil => apply Relation.ReflTransGen.refl
  | cons c s ih =>
      rw [limitLineFeeds]
      split
      · rename_i hc
        split
        · rw [List.append_cons, List.append_cons before c (limitLineFeeds _ s)]
          apply ih
          intro _
          rw [hc]
          exact ⟨before, rfl⟩
        · obtain ⟨t, rfl⟩ := h (by omega)
          have hstep : Tidying (t ++ ['\n'] ++ c :: s) (t ++ ['\n'] ++ s) := by
            rw [hc, List.append_assoc, List.append_assoc]
            apply Tidying.deleteAfter t s (by decide)
          apply Relation.ReflTransGen.head hstep
          apply ih
          intro _
          exact ⟨t, rfl⟩
      · rw [List.append_cons, List.append_cons before c (limitLineFeeds 0 s)]
        apply ih
        intro hzero
        cases hzero

theorem tidied_strip (s : Text) :
  Tidied s (strip s)
  := by
  have hfirst : ∀ t : Text, Tidied t (t.dropWhile isSpace) := by
    intro t
    induction t with
    | nil => apply Relation.ReflTransGen.refl
    | cons c t ih =>
        rw [List.dropWhile_cons]
        split
        · rename_i hc
          apply Relation.ReflTransGen.head (Tidying.deleteFirst t hc) ih
        · apply Relation.ReflTransGen.refl
  have hlast : ∀ t : Text, Tidied t (t.rdropWhile isSpace) := by
    intro t
    induction t using List.reverseRecOn with
    | nil => apply Relation.ReflTransGen.refl
    | append_singleton t c ih =>
        rw [List.rdropWhile_concat]
        split
        · rename_i hc
          apply Relation.ReflTransGen.head (Tidying.deleteLast t hc) ih
        · apply Relation.ReflTransGen.refl
  apply (hfirst s).trans (hlast _)

/-- Normalization only tidies the normal form C of a text. -/
theorem tidied_normalizeDocumentText (U : UnicodeData) (text : Text) :
  Tidied (U.nfc text) (normalizeDocumentText U text)
  := by
  rw [normalizeDocumentText]
  apply (tidied_replaceCrLf [] _).trans
  apply (tidied_replaceChar '\r' _ (by decide) (by decide) (Or.inr rfl) [] _).trans
  apply (tidied_replaceChar '\u00a0' _ (by decide) (by decide) (Or.inl rfl) [] _).trans
  apply (tidied_removeTrailingWhitespace [] _).trans
  apply (tidied_limitLineFeeds (fun h => absurd h (lt_irrefl 0)) _).trans
  apply tidied_strip

/-- The sections the pipeline goes on with are in normal form. -/
theorem normalText_normalizeSections {U : UnicodeData} {sections : List ExtractedSection}
    {normalized : List NormalizedSection} (h : normalizeSections U sections = .ok normalized) :
  ∀ part ∈ normalized, NormalText part.text
  := by
  have hfrom : ∀ cursor normalized, normalizeSectionsFrom U cursor sections = .ok normalized →
      ∀ part ∈ normalized, NormalText part.text := by
    clear h
    induction sections with
    | nil =>
        rintro cursor normalized ⟨⟩ part hpart
        cases hpart
    | cons part sections ih =>
        intro cursor normalized h
        rw [normalizeSectionsFrom] at h
        split at h
        · apply ih _ _ h
        · obtain ⟨locator, rest, -, hrest, rfl⟩ := bind_cons_eq_ok_iff.mp h
          rintro part' (_ | ⟨_, hpart'⟩)
          · apply normalText_normalizeDocumentText
          · apply ih _ _ hrest part' hpart'
  apply hfrom 0 normalized (normalizeSections_eq_ok_iff.mp h).1

/-- Normal form C is stable when tidying a text in normal form C leaves it in normal form C. -/
def UnicodeData.Stable (U : UnicodeData) : Prop :=
  ∀ text tidied, Tidied (U.nfc text) tidied → U.nfc tidied = tidied

/-- Normalization reaches a normal form, and what it leaves is normalized. -/
theorem normalizeDocumentText_normal {U : UnicodeData} (hstable : U.Stable) (text : Text) :
  NormalText (normalizeDocumentText U text)
    ∧ normalizeDocumentText U (normalizeDocumentText U text) = normalizeDocumentText U text
  := by
  have hnormal := normalText_normalizeDocumentText U text
  use hnormal
  apply normalizeDocumentText_eq_self hnormal
  apply hstable text _ (tidied_normalizeDocumentText U text)

theorem normalizeDocumentText_normal_sample :
  NormalText "a\n\nb".toList
    ∧ normalizeDocumentText .ascii "\t a \r\n\r\r\n \n\nb\u00a0".toList = "a\n\nb".toList
    ∧ normalizeDocumentText .ascii "a\n\nb".toList = "a\n\nb".toList
  := by
  have hsample : normalizeDocumentText .ascii "\t a \r\n\r\r\n \n\nb\u00a0".toList
    = "a\n\nb".toList := by decide
  have h := normalizeDocumentText_normal (U := .ascii) (fun _ _ _ => rfl)
    "\t a \r\n\r\r\n \n\nb\u00a0".toList
  rw [hsample] at h
  exact ⟨h.1, hsample, h.2⟩

end KnowledgeSearch

import KnowledgeSearch.Ingestion.Extraction

/-!
# The lines of Markdown sections

`MarkdownExtractor` numbers the lines of a text as `str.splitlines` does, the parser as
CommonMark does, where only a line feed, a carriage return or both end a line. `slices` are the
ranges of lines the emitted sections are made of; `Slice.Covers` is about a line of CommonMark,
whose characters lie in the range.
-/

namespace KnowledgeSearch

/-! ### Lines -/

/-- A character that ends a line, followed by `rest`, in CommonMark. -/
def endsCommonMarkLine (c : Char) (rest : Text) : Bool :=
  c == '\n' || (c == '\r' && rest.head? != some '\n')

/-- The lines of CommonMark, with their ends. -/
def commonMarkLines : Text → List Text :=
  cuts endsCommonMarkLine

/-- A line without its end. -/
def lineContent (line : Text) : Text :=
  line.rdropWhile fun c => c == '\n' || c == '\r'

/-- Where the content of the line of number `i` ends. -/
def contentEnd (lines : List Text) (i : ℕ) : ℕ :=
  cutStart lines i + (lineContent (lines[i]?.getD [])).length

/-- A line with a visible character has one before its end. -/
theorem exists_getElem?_lineContent {text : Text} (h : blank text = false) :
  ∃ p c, p < (lineContent text).length ∧ text[p]? = some c ∧ isSpace c = false
  := by
  obtain ⟨c, hc, hspace⟩ := blank_eq_false_iff.mp h
  have hsplit : lineContent text ++ text.rtakeWhile (fun c => c == '\n' || c == '\r') = text :=
    List.rdropWhile_append_rtakeWhile
  have hmem : c ∈ lineContent text := by
    rw [← hsplit, List.mem_append] at hc
    rcases hc with hc | hc
    · apply hc
    · have hend := List.mem_rtakeWhile_imp hc
      rw [Bool.or_eq_true, beq_iff_eq, beq_iff_eq] at hend
      rcases hend with rfl | rfl
      · cases hspace
      · cases hspace
  obtain ⟨p, hp, hget⟩ := List.mem_iff_getElem.mp hmem
  refine ⟨p, c, hp, ?_, hspace⟩
  rw [← hsplit, List.getElem?_append_left hp, ← hget]
  apply List.getElem?_eq_getElem

theorem length_lineContent_le (line : Text) :
  (lineContent line).length ≤ line.length
  := (List.rdropWhile_prefix _ line).length_le

@[simp]
theorem flatten_splitlines (text : Text) :
  (splitlines text).flatten = text
  := flatten_cuts _ text

@[simp]
theorem flatten_commonMarkLines (text : Text) :
  (commonMarkLines text).flatten = text
  := flatten_cuts _ text

/-- `str.splitlines` ends a line wherever CommonMark does, so that its lines of the same
numbers start earlier. -/
theorem cutStart_splitlines_le (text : Text) (i : ℕ) :
  cutStart (splitlines text) i ≤ cutStart (commonMarkLines text) i
  := by
  obtain ⟨groups, hne, hsplit, hcommon⟩ := exists_groups_cuts
    (p := endsCommonMarkLine)
    (q := fun c rest => isLineBoundary c && !(c == '\r' && rest.head? == some '\n')) (by
      intro c rest h
      rw [endsCommonMarkLine, Bool.or_eq_true, Bool.and_eq_true, beq_iff_eq, beq_iff_eq] at h
      rcases h with rfl | ⟨rfl, hrest⟩
      · rfl
      · simpa [isLineBoundary] using hrest) text
  rw [splitlines, commonMarkLines, hsplit, hcommon]
  apply cutStart_flatten_le hne

/-- A range of lines is a range of characters. -/
theorem sliceLines_eq (lines : List Text) (first last : ℕ) :
  sliceLines lines first last
    = sliceText lines.flatten (cutStart lines first) (cutStart lines last)
  := flatten_drop_take lines first last

/-- The characters of a range of lines are those of its lines. -/
theorem mem_sliceLines {lines : List Text} {first last : ℕ} {c : Char} :
  c ∈ sliceLines lines first last
    ↔ ∃ i line, first ≤ i ∧ i < last ∧ lines[i]? = some line ∧ c ∈ line
  := by
  rw [sliceLines, List.mem_flatten]
  constructor
  · rintro ⟨line, hline, hc⟩
    obtain ⟨i, hi⟩ := List.mem_iff_getElem?.mp hline
    rw [List.getElem?_drop, List.getElem?_take] at hi
    split at hi
    · exact ⟨first + i, line, by omega, by assumption, hi, hc⟩
    · cases hi
  · rintro ⟨i, line, hfirst, hlast, hline, hc⟩
    refine ⟨line, List.mem_iff_getElem?.mpr ⟨i - first, ?_⟩, hc⟩
    rw [List.getElem?_drop, Nat.add_sub_cancel' hfirst, List.getElem?_take_of_lt hlast, hline]

/-! ### Slices -/

/-- The range of lines of a section, from `first` on and before `last`, below its heading. -/
structure Slice where
  heading : Option Heading
  first : ℕ
  last : ℕ
  deriving DecidableEq

/-- The text of the section of a slice. -/
def Slice.text (lines : List Text) (slice : Slice) : Text :=
  match slice.heading with
  | none => sliceLines lines slice.first slice.last
  | some heading => heading.text ++ '\n' :: sliceLines lines slice.first slice.last

/-- The slices below headings. -/
def headingSlices (lines : List Text) : List Heading → List Slice
  | [] => []
  | heading :: rest =>
      ⟨some heading, heading.first + 1, nextLine lines rest⟩ :: headingSlices lines rest

/-- The slices of a document, the first of which is below no heading. -/
def allSlices (lines : List Text) (headings : List Heading) : List Slice :=
  ⟨none, 0, nextLine lines headings⟩ :: headingSlices lines headings

/-- A slice with a visible character. -/
def Slice.isEmitted (lines : List Text) (slice : Slice) : Bool :=
  !blank (sliceLines lines slice.first slice.last)

/-- The slices of the emitted sections. -/
def slices (lines : List Text) (headings : List Heading) : List Slice :=
  (allSlices lines headings).filter (Slice.isEmitted lines)

/-- A section is the section of a slice. -/
structure Slice.Yields (lines : List Text) (slice : Slice) (part : ExtractedSection) : Prop where
  text : part.text = slice.text lines
  sectionPath : part.sectionPath.getLast? = slice.heading.map Heading.text

theorem forall₂_headingSections (lines : List Text) (stack : List (ℕ × Text))
    (headings : List Heading) :
  List.Forall₂ (Slice.Yields lines) ((headingSlices lines headings).filter (Slice.isEmitted lines))
    (headingSections lines stack headings)
  := by
  induction headings generalizing stack with
  | nil => apply List.Forall₂.nil
  | cons heading rest ih =>
      rw [headingSections, headingSlices]
      split
      · rename_i h
        rw [List.filter_cons_of_neg]
        · apply ih
        · simp [Slice.isEmitted, h]
      · rename_i h
        rw [List.filter_cons_of_pos]
        · apply List.Forall₂.cons _ (ih _)
          use rfl
          simp [ExtractedSection.ofText, pushHeading]
        · simp [Slice.isEmitted, h]

theorem forall₂_preambleSections (lines : List Text) (first : ℕ) :
  List.Forall₂ (Slice.Yields lines) ([⟨none, 0, first⟩].filter (Slice.isEmitted lines))
    (preambleSections lines first)
  := by
  rw [preambleSections]
  split
  · rename_i h
    rw [List.filter_cons_of_neg]
    · apply List.Forall₂.nil
    · simp [Slice.isEmitted, h]
  · rename_i h
    rw [List.filter_cons_of_pos]
    · apply List.Forall₂.cons _ List.Forall₂.nil
      use rfl
      rfl
    · simp [Slice.isEmitted, h]

/-- The sections of a document are those of the emitted slices. -/
theorem MarkdownExtractor.extract_eq_ok {parse : Text → List Token} {source : Bytes}
    {sections : List ExtractedSection} (h : extract parse source = .ok sections) :
  ∃ text hs, readUtf8 source = .ok text ∧ headings (parse text) = .ok hs
    ∧ List.Forall₂ (Slice.Yields (splitlines text)) (slices (splitlines text) hs) sections
  := by
  obtain ⟨text, htext, h⟩ := bind_eq_ok_iff.mp h
  split at h
  · cases h
  · rename_i hblank
    obtain ⟨hs, hhs, h⟩ := bind_eq_ok_iff.mp h
    refine ⟨text, hs, htext, hhs, ?_⟩
    split at h
    · cases h
      have hall : sliceLines (splitlines text) 0 (splitlines text).length = text := by
        rw [sliceLines, List.take_length, List.drop_zero, flatten_splitlines]
      rw [slices, allSlices, headingSlices, List.filter_cons_of_pos]
      · apply List.Forall₂.cons _ List.Forall₂.nil
        use hall.symm
        rfl
      · simp [Slice.isEmitted, nextLine, hall, hblank]
    · cases h
      rw [slices, allSlices, ← List.singleton_append, List.filter_append]
      apply List.rel_append
      · apply forall₂_preambleSections
      · apply forall₂_headingSections

/-! ### The texts of headings -/

/-- The text of a heading is the content of a token, stripped, and is not empty. -/
theorem exists_token_of_mem_headings {tokens : List Token} {hs : List Heading}
    (h : headings tokens = .ok hs) {heading : Heading} (hheading : heading ∈ hs) :
  (∃ token ∈ tokens, heading.text = strip token.content) ∧ heading.text ≠ []
  := by
  fun_induction headings tokens generalizing hs with
  | case1 =>
      cases h
      cases hheading
  | case2 => cases h
  | case3 level map inlineToken tokens ih =>
      obtain ⟨rest, hrest, h⟩ := bind_eq_ok_iff.mp h
      have hlater : heading ∈ rest →
          (∃ token ∈ Token.headingOpen level (some map) :: inlineToken :: tokens,
            heading.text = strip token.content) ∧ heading.text ≠ [] := by
        intro hmem
        obtain ⟨⟨token, htoken, htext⟩, hne⟩ := ih hrest hmem
        exact ⟨⟨token, List.mem_cons_of_mem _ htoken, htext⟩, hne⟩
      dsimp only at h
      split at h
      · cases h
        apply hlater hheading
      · rename_i hne
        cases h
        rcases List.mem_cons.mp hheading with rfl | hheading
        · exact ⟨⟨inlineToken, by simp, rfl⟩, hne⟩
        · apply hlater hheading
  | case4 token tokens _ ih =>
      obtain ⟨⟨token', htoken, htext⟩, hne⟩ := ih h hheading
      exact ⟨⟨token', List.mem_cons_of_mem _ htoken, htext⟩, hne⟩

/-- The headings that are found have visible characters. -/
theorem blank_of_mem_headings {tokens : List Token} {hs : List Heading}
    (h : headings tokens = .ok hs) {heading : Heading} (hheading : heading ∈ hs) :
  blank heading.text = false
  := by
  obtain ⟨⟨token, -, htext⟩, hne⟩ := exists_token_of_mem_headings h hheading
  rw [Bool.eq_false_iff, ne_eq, ← strip_eq_nil_iff, htext, strip_strip, ← htext]
  apply hne

/-! ### The slice of a line -/

/-- The blocks of the headings are ranges of lines, one after the other. -/
structure OrderedHeadings (headings : List Heading) : Prop where
  nonempty : ∀ heading ∈ headings, heading.first < heading.last
  ordered : headings.Pairwise fun heading heading' => heading.last ≤ heading'.first

theorem OrderedHeadings.pairwise_first {headings : List Heading} (h : OrderedHeadings headings) :
  headings.Pairwise fun heading heading' => heading.first < heading'.first
  := by
  apply h.ordered.imp_of_mem
  intro heading heading' hmem _ hle
  have hlt := h.nonempty heading hmem
  omega

/-- The nearest heading that starts on line `i` or before, if there is one. -/
def IsNearestHeading (headings : List Heading) (i : ℕ) : Option Heading → Prop
  | none => ∀ heading ∈ headings, i < heading.first
  | some nearest =>
      nearest ∈ headings ∧ nearest.first ≤ i
        ∧ ∀ heading ∈ headings, heading.first ≤ i → heading.first ≤ nearest.first

/-- A slice ends with the last line or before a heading. -/
def Slice.EndsAfter (lines : List Text) (headings : List Heading) (i : ℕ) (slice : Slice) :
    Prop :=
  slice.last = lines.length ∨ ∃ heading ∈ headings, slice.last = heading.first ∧ i < heading.first

/-- The slice of the nearest heading. -/
theorem exists_mem_headingSlices (lines : List Text) {i : ℕ} {heading : Heading}
    {rest : List Heading}
    (h : (heading :: rest).Pairwise fun heading heading' => heading.first < heading'.first)
    (hi : heading.first ≤ i) :
  ∃ slice nearest, slice ∈ headingSlices lines (heading :: rest)
    ∧ slice.heading = some nearest ∧ IsNearestHeading (heading :: rest) i (some nearest)
    ∧ slice.first = nearest.first + 1 ∧ slice.EndsAfter lines (heading :: rest) i
  := by
  induction rest generalizing heading with
  | nil =>
      refine ⟨_, heading, List.mem_cons_self, rfl, ⟨List.mem_cons_self, hi, ?_⟩, rfl, Or.inl rfl⟩
      intro other hother _
      rw [List.mem_singleton.mp hother]
  | cons next rest ih =>
      obtain ⟨hlt, hrest⟩ := List.pairwise_cons.mp h
      by_cases hnext : next.first ≤ i
      · obtain ⟨slice, nearest, hslice, hheading, ⟨hmem, hle, hmax⟩, hfirst, hends⟩ :=
          ih hrest hnext
        refine ⟨slice, nearest, List.mem_cons_of_mem _ hslice, hheading,
          ⟨List.mem_cons_of_mem _ hmem, hle, ?_⟩, hfirst, ?_⟩
        · rw [List.forall_mem_cons]
          refine ⟨fun _ => ?_, hmax⟩
          have hnear := hlt nearest hmem
          omega
        · rcases hends with hends | ⟨after, hafter, hends⟩
          · apply Or.inl hends
          · exact Or.inr ⟨after, List.mem_cons_of_mem _ hafter, hends⟩
      · refine ⟨_, heading, List.mem_cons_self, rfl, ⟨List.mem_cons_self, hi, ?_⟩, rfl,
          Or.inr ⟨next, by simp, rfl, by omega⟩⟩
        intro other hother hle
        rcases List.mem_cons.mp hother with rfl | hother
        · apply le_refl
        · rcases List.mem_cons.mp hother with rfl | hother
          · omega
          · have hafter := (List.pairwise_cons.mp hrest).1 other hother
            omega

/-- Every line has a slice, which is below its nearest heading. -/
theorem exists_mem_allSlices (lines : List Text) {headings : List Heading}
    (h : headings.Pairwise fun heading heading' => heading.first < heading'.first) (i : ℕ) :
  ∃ slice ∈ allSlices lines headings, IsNearestHeading headings i slice.heading
    ∧ slice.first = (slice.heading.map fun heading => heading.first + 1).getD 0
    ∧ slice.EndsAfter lines headings i
  := by
  cases headings with
  | nil =>
      refine ⟨_, List.mem_cons_self, ?_, rfl, Or.inl rfl⟩
      intro heading hheading
      cases hheading
  | cons heading rest =>
      by_cases hi : heading.first ≤ i
      · obtain ⟨slice, nearest, hslice, hheading, hnearest, hfirst, hends⟩ :=
          exists_mem_headingSlices lines h hi
        refine ⟨slice, List.mem_cons_of_mem _ hslice, ?_, ?_, hends⟩
        · rw [hheading]
          apply hnearest
        · rw [hheading, hfirst]
          rfl
      · refine ⟨_, List.mem_cons_self, ?_, rfl, Or.inr ⟨heading, by simp, rfl, by omega⟩⟩
        rw [IsNearestHeading, List.forall_mem_cons]
        refine ⟨by omega, fun other hother => ?_⟩
        have hlt := (List.pairwise_cons.mp h).1 other hother
        omega

/-- A slice below a heading. -/
theorem exists_of_mem_headingSlices {lines : List Text} {headings : List Heading}
    {slice : Slice} (h : slice ∈ headingSlices lines headings) :
  ∃ heading ∈ headings, slice.heading = some heading ∧ slice.first = heading.first + 1
  := by
  induction headings with
  | nil => cases h
  | cons heading rest ih =>
      rcases List.mem_cons.mp h with rfl | h
      · exact ⟨heading, List.mem_cons_self, rfl, rfl⟩
      · obtain ⟨other, hother, hslice⟩ := ih h
        exact ⟨other, List.mem_cons_of_mem _ hother, hslice⟩

/-- A slice ends before the headings after its own. -/
theorem last_le_of_mem_headingSlices (lines : List Text) {headings : List Heading}
    (h : headings.Pairwise fun heading heading' => heading.first < heading'.first)
    {slice : Slice} (hslice : slice ∈ headingSlices lines headings) {own heading : Heading}
    (hown : slice.heading = some own) (hheading : heading ∈ headings)
    (hlt : own.first < heading.first) :
  slice.last ≤ heading.first
  := by
  induction headings with
  | nil => cases hslice
  | cons first rest ih =>
      obtain ⟨hfirst, hrest⟩ := List.pairwise_cons.mp h
      rcases List.mem_cons.mp hslice with rfl | hslice'
      · cases hown
        rcases List.mem_cons.mp hheading with rfl | hheading
        · omega
        · cases rest with
          | nil => cases hheading
          | cons next rest =>
              rcases List.mem_cons.mp hheading with rfl | hheading
              · apply le_refl
              · apply le_of_lt ((List.pairwise_cons.mp hrest).1 heading hheading)
      · apply ih hrest hslice'
        rcases List.mem_cons.mp hheading with rfl | hheading
        · obtain ⟨other, hother, hsome, -⟩ := exists_of_mem_headingSlices hslice'
          rw [hown, Option.some_inj] at hsome
          rw [← hsome] at hother
          have hafter := hfirst own hother
          omega
        · apply hheading

/-- The slice of a line ends before the headings after the line. -/
theorem last_le_of_mem_allSlices {lines : List Text} {headings : List Heading}
    (h : headings.Pairwise fun heading heading' => heading.first < heading'.first)
    {slice : Slice} (hslice : slice ∈ allSlices lines headings) {i : ℕ}
    (hnearest : IsNearestHeading headings i slice.heading) {heading : Heading}
    (hheading : heading ∈ headings) (hlt : i < heading.first) :
  slice.last ≤ heading.first
  := by
  rcases List.mem_cons.mp hslice with rfl | hslice
  · cases headings with
    | nil => cases hheading
    | cons first rest =>
        rcases List.mem_cons.mp hheading with rfl | hheading
        · apply le_refl
        · apply le_of_lt ((List.pairwise_cons.mp h).1 heading hheading)
  · obtain ⟨own, -, hown, -⟩ := exists_of_mem_headingSlices hslice
    rw [hown] at hnearest
    apply last_le_of_mem_headingSlices lines h hslice hown hheading
    have hle := hnearest.2.1
    omega

/-- Slices are disjoint and in order. -/
theorem pairwise_allSlices (lines : List Text) {headings : List Heading}
    (h : headings.Pairwise fun heading heading' => heading.first < heading'.first) :
  (allSlices lines headings).Pairwise fun slice slice' => slice.last ≤ slice'.first
  := by
  rw [allSlices, List.pairwise_cons]
  constructor
  · intro slice hslice
    obtain ⟨own, hown, -, hfirst⟩ := exists_of_mem_headingSlices hslice
    rw [hfirst]
    cases headings with
    | nil => cases hown
    | cons first rest =>
        show first.first ≤ own.first + 1
        rcases List.mem_cons.mp hown with rfl | hown
        · omega
        · have hlt := (List.pairwise_cons.mp h).1 own hown
          omega
  · induction headings with
    | nil => apply List.Pairwise.nil
    | cons heading rest ih =>
        obtain ⟨hlt, hrest⟩ := List.pairwise_cons.mp h
        rw [headingSlices, List.pairwise_cons]
        refine ⟨?_, ih hrest⟩
        intro slice hslice
        obtain ⟨own, hown, -, hfirst⟩ := exists_of_mem_headingSlices hslice
        rw [hfirst]
        have hle := last_le_of_mem_headingSlices lines h List.mem_cons_self rfl
          (List.mem_cons_of_mem _ hown) (hlt own hown)
        exact Nat.le_succ_of_le hle

end KnowledgeSearch

import KnowledgeSearch.Ingestion.Sectioning

/-!
# Where the lines of a Markdown document go

`Sectioned` says that the sections of a document have every line with a visible character that
is not part of a heading, each in the section of its nearest heading. The extractor looks for
the first lines of headings among the lines of `str.splitlines`, so that this is so only when
those before a heading reach as far as the lines of CommonMark do, `sectioned_iff`.

`HeadingsExcluded` says that no line of a heading is part of a section. The extractor leaves
out the first line of each heading, so that this is so only when there are no other lines,
`headingsExcluded_iff`.
-/

namespace KnowledgeSearch

open Services (encodeUtf8)

/-- The lines with a visible character outside the blocks of headings. -/
def IsBodyLine (text : Text) (headings : List Heading) (i : ℕ) : Prop :=
  (∃ line, (commonMarkLines text)[i]? = some line ∧ blank line = false)
    ∧ ∀ heading ∈ headings, ¬(heading.first ≤ i ∧ i < heading.last)

/-- The content of line `i` lies in the slice. -/
def Slice.Covers (text : Text) (slice : Slice) (i : ℕ) : Prop :=
  cutStart (splitlines text) slice.first ≤ cutStart (commonMarkLines text) i
    ∧ contentEnd (commonMarkLines text) i ≤ cutStart (splitlines text) slice.last

/-- Line `i` occurs in the emitted section of number `k`. -/
def Occurs (text : Text) (headings : List Heading) (i k : ℕ) : Prop :=
  ∃ slice, (slices (splitlines text) headings)[k]? = some slice ∧ slice.Covers text i

/-- Every body line occurs in one of the sections, that of its nearest heading, and the lines
occur in their order. -/
structure Sectioned (text : Text) (headings : List Heading) (sections : List ExtractedSection) :
    Prop where
  yields : List.Forall₂ (Slice.Yields (splitlines text)) (slices (splitlines text) headings)
    sections
  occurs : ∀ i, IsBodyLine text headings i → ∃ k slice,
    (slices (splitlines text) headings)[k]? = some slice
      ∧ IsNearestHeading headings i slice.heading ∧ ∀ l, Occurs text headings i l ↔ l = k
  ordered : ∀ i j k l, IsBodyLine text headings i → IsBodyLine text headings j → i < j →
    Occurs text headings i k → Occurs text headings j l → k ≤ l

/-- A body line has a visible character within its content. -/
theorem IsBodyLine.exists_visible {text : Text} {headings : List Heading} {i : ℕ}
    (h : IsBodyLine text headings i) :
  ∃ n c, cutStart (commonMarkLines text) i ≤ n ∧ n < contentEnd (commonMarkLines text) i
    ∧ text[n]? = some c ∧ isSpace c = false
  := by
  obtain ⟨⟨line, hline, hblank⟩, -⟩ := h
  obtain ⟨p, c, hp, hget, hspace⟩ := exists_getElem?_lineContent hblank
  have hlt : p < line.length := lt_of_lt_of_le hp (length_lineContent_le line)
  have htext := getElem?_cutStart_add hline hlt
  rw [flatten_commonMarkLines, hget] at htext
  refine ⟨_, c, Nat.le_add_right _ p, ?_, htext, hspace⟩
  rw [contentEnd, hline, Option.getD_some]
  omega

/-- The content of a line ends in the text. -/
theorem contentEnd_le (lines : List Text) (i : ℕ) :
  contentEnd lines i ≤ lines.flatten.length
  := by
  rw [contentEnd]
  cases hline : lines[i]? with
  | none =>
      have hle := cutStart_le lines i
      simpa [lineContent] using hle
  | some line =>
      have hle := cutStart_le lines (i + 1)
      rw [cutStart_succ hline] at hle
      have hlen := length_lineContent_le line
      rw [Option.getD_some]
      omega

/-- A slice that covers a body line is emitted. -/
theorem Slice.isEmitted_of_covers {text : Text} {headings : List Heading} {slice : Slice} {i : ℕ}
    (hi : IsBodyLine text headings i) (h : slice.Covers text i) :
  slice.isEmitted (splitlines text) = true
  := by
  obtain ⟨n, c, hstart, hend, hget, hspace⟩ := hi.exists_visible
  rw [Slice.isEmitted, Bool.not_eq_true', blank_eq_false_iff]
  refine ⟨c, ?_, hspace⟩
  rw [sliceLines_eq, flatten_splitlines, mem_sliceText]
  exact ⟨n, le_trans h.1 hstart, lt_of_lt_of_le hend h.2, hget⟩

/-- The emitted slices are disjoint and in order. -/
theorem cutStart_last_le {text : Text} {headings : List Heading} (h : OrderedHeadings headings)
    {k l : ℕ} {slice slice' : Slice}
    (hk : (slices (splitlines text) headings)[k]? = some slice)
    (hl : (slices (splitlines text) headings)[l]? = some slice') (hlt : k < l) :
  cutStart (splitlines text) slice.last ≤ cutStart (splitlines text) slice'.first
  := by
  have hpairwise := (pairwise_allSlices (splitlines text) h.pairwise_first).filter
    (Slice.isEmitted (splitlines text))
  obtain ⟨hklen, hk⟩ := List.getElem?_eq_some_iff.mp hk
  obtain ⟨hllen, hl⟩ := List.getElem?_eq_some_iff.mp hl
  apply cutStart_mono
  rw [← hk, ← hl]
  apply List.pairwise_iff_getElem.mp hpairwise k l hklen hllen hlt

/-- A line occurs no later than the lines after it. -/
theorem occurs_mono {text : Text} {headings : List Heading} (h : OrderedHeadings headings)
    {i j k l : ℕ} (hi : IsBodyLine text headings i) (hj : IsBodyLine text headings j)
    (hle : i ≤ j) (hk : Occurs text headings i k) (hl : Occurs text headings j l) :
  k ≤ l
  := by
  obtain ⟨slice, hslice, hcovers⟩ := hk
  obtain ⟨slice', hslice', hcovers'⟩ := hl
  obtain ⟨n, -, hn, hn', -⟩ := hi.exists_visible
  obtain ⟨m, -, hm, hm', -⟩ := hj.exists_visible
  by_contra hlt
  have hdisjoint := cutStart_last_le h hslice' hslice (not_le.mp hlt)
  have hstart := cutStart_mono (commonMarkLines text) hle
  have hfirst := hcovers.1
  have hlast := hcovers'.2
  omega

/-- The slice of the nearest heading covers a body line when it does not end before it. -/
theorem covers_of_le {text : Text} {headings : List Heading} (h : OrderedHeadings headings)
    {i : ℕ} (hi : IsBodyLine text headings i) {slice : Slice}
    (hnearest : IsNearestHeading headings i slice.heading)
    (hfirst : slice.first = (slice.heading.map fun heading => heading.first + 1).getD 0)
    (hlast : contentEnd (commonMarkLines text) i ≤ cutStart (splitlines text) slice.last) :
  slice.Covers text i
  := by
  refine ⟨le_trans (cutStart_splitlines_le text slice.first) ?_, hlast⟩
  apply cutStart_mono
  rw [hfirst]
  cases hheading : slice.heading with
  | none => apply Nat.zero_le
  | some own =>
      rw [hheading] at hnearest
      obtain ⟨hmem, hle, -⟩ := hnearest
      -- The line is below the heading, but not in its block.
      have hblock := hi.2 own hmem
      have hne := h.nonempty own hmem
      show own.first + 1 ≤ i
      omega

/-- The sections have every line of the document where it belongs exactly when, for each
heading, the lines `str.splitlines` counts before it reach to the end of the lines CommonMark
counts before it. -/
theorem MarkdownExtractor.sectioned_iff {parse : Text → List Token} {source : Bytes}
    {text : Text} {hs : List Heading} {sections : List ExtractedSection}
    (htext : readUtf8 source = .ok text) (hhs : headings (parse text) = .ok hs)
    (hordered : OrderedHeadings hs) (h : extract parse source = .ok sections) :
  Sectioned text hs sections
    ↔ ∀ heading ∈ hs, ∀ i < heading.first, IsBodyLine text hs i →
        contentEnd (commonMarkLines text) i ≤ cutStart (splitlines text) heading.first
  := by
  constructor
  · intro hsectioned heading hheading i hlt hi
    obtain ⟨k, slice, hslice, hnearest, hiff⟩ := hsectioned.occurs i hi
    obtain ⟨slice', hslice', hcovers⟩ := (hiff k).mpr rfl
    rw [hslice, Option.some_inj] at hslice'
    subst hslice'
    have hmem := List.mem_of_mem_filter (List.mem_of_getElem? hslice)
    have hlast := last_le_of_mem_allSlices hordered.pairwise_first hmem hnearest hheading hlt
    apply le_trans hcovers.2 (cutStart_mono _ hlast)
  · intro hreach
    obtain ⟨text', hs', htext', hhs', hyields⟩ := extract_eq_ok h
    rw [htext, Except.ok.injEq] at htext'
    subst htext'
    rw [hhs, Except.ok.injEq] at hhs'
    subst hhs'
    refine ⟨hyields, ?_, ?_⟩
    · intro i hi
      obtain ⟨slice, hmem, hnearest, hfirst, hends⟩ :=
        exists_mem_allSlices (splitlines text) hordered.pairwise_first i
      have hcovers : slice.Covers text i := by
        apply covers_of_le hordered hi hnearest hfirst
        rcases hends with hends | ⟨heading, hheading, hends, hlt⟩
        · rw [hends, cutStart_of_length_le (le_refl _), flatten_splitlines]
          have hle := contentEnd_le (commonMarkLines text) i
          rw [flatten_commonMarkLines] at hle
          apply hle
        · rw [hends]
          apply hreach heading hheading i hlt hi
      obtain ⟨k, hk⟩ := List.mem_iff_getElem?.mp
        (List.mem_filter.mpr ⟨hmem, Slice.isEmitted_of_covers hi hcovers⟩)
      have hoccurs : Occurs text hs i k := ⟨slice, hk, hcovers⟩
      refine ⟨k, slice, hk, hnearest, fun l => ⟨fun hl => ?_, fun hl => hl ▸ hoccurs⟩⟩
      apply le_antisymm
      · apply occurs_mono hordered hi hi (le_refl i) hl hoccurs
      · apply occurs_mono hordered hi hi (le_refl i) hoccurs hl
    · intro i j k l hi hj hlt
      apply occurs_mono hordered hi hj (le_of_lt hlt)

/-- The tokens of a text with one heading, `T`, that takes the given lines. -/
def titleTokens (first last : ℕ) (_ : Text) : List Token :=
  [.headingOpen 1 (some (first, last)), .other "T".toList, .other []]

theorem orderedHeadings_singleton {heading : Heading} (h : heading.first < heading.last) :
  OrderedHeadings [heading]
  := by
  use by simpa using h
  apply List.pairwise_singleton

theorem MarkdownExtractor.sectioned_iff_sample :
  Sectioned "a\n# T\nc\n".toList [⟨1, 2, 1, "T".toList⟩]
    [.ofText "a\n".toList [] (by decide), .ofText "T\nc\n".toList ["T".toList] (by decide)]
  := by
  have htext : readUtf8 (encodeUtf8 "a\n# T\nc\n".toList) = .ok "a\n# T\nc\n".toList := by
    decide +kernel
  have hhs : headings (titleTokens 1 2 "a\n# T\nc\n".toList) = .ok [⟨1, 2, 1, "T".toList⟩] := rfl
  apply (sectioned_iff htext hhs (orderedHeadings_singleton (by decide)) (by decide +kernel)).mpr
  intro heading hheading i hi _
  rw [List.mem_singleton.mp hheading] at hi ⊢
  obtain rfl : i = 0 := by
    simp at hi
    omega
  decide +kernel

/-- The form feed ends a line for `str.splitlines`, but not for the parser. The character `b`
is lost. -/
theorem MarkdownExtractor.not_sectioned_sampleFormFeed :
  readUtf8 (encodeUtf8 "a\x0cb\n# T\nc\n".toList) = .ok "a\x0cb\n# T\nc\n".toList
    ∧ headings (titleTokens 1 2 "a\x0cb\n# T\nc\n".toList) = .ok [⟨1, 2, 1, "T".toList⟩]
    ∧ OrderedHeadings [⟨1, 2, 1, "T".toList⟩]
    ∧ extract (titleTokens 1 2) (encodeUtf8 "a\x0cb\n# T\nc\n".toList)
      = .ok [.ofText "a\x0c".toList [] (by decide),
        .ofText "T\n# T\nc\n".toList ["T".toList] (by decide)]
    ∧ ∀ sections, ¬Sectioned "a\x0cb\n# T\nc\n".toList [⟨1, 2, 1, "T".toList⟩] sections
  := by
  refine ⟨by decide +kernel, rfl, orderedHeadings_singleton (by decide), by decide +kernel, ?_⟩
  intro sections h
  obtain ⟨k, -, -, -, hiff⟩ := h.occurs 0 ⟨⟨"a\x0cb\n".toList, rfl, by decide⟩, by simp⟩
  obtain ⟨slice, hslice, hcovers⟩ := (hiff k).mpr rfl
  have hnone : ∀ slice ∈ slices (splitlines "a\x0cb\n# T\nc\n".toList) [⟨1, 2, 1, "T".toList⟩],
      ¬contentEnd (commonMarkLines "a\x0cb\n# T\nc\n".toList) 0
        ≤ cutStart (splitlines "a\x0cb\n# T\nc\n".toList) slice.last
      ∨ ¬cutStart (splitlines "a\x0cb\n# T\nc\n".toList) slice.first
        ≤ cutStart (commonMarkLines "a\x0cb\n# T\nc\n".toList) 0 := by
    decide +kernel
  rcases hnone slice (List.mem_of_getElem? hslice) with hnot | hnot
  · apply hnot hcovers.2
  · apply hnot hcovers.1

/-! ### Headings in sections -/

/-- The block of a heading ends before the headings after it. -/
theorem OrderedHeadings.last_le {headings : List Heading} (h : OrderedHeadings headings)
    {heading other : Heading} (hheading : heading ∈ headings) (hother : other ∈ headings)
    (hlt : heading.first < other.first) :
  heading.last ≤ other.first
  := by
  obtain ⟨i, hi, rfl⟩ := List.mem_iff_getElem.mp hheading
  obtain ⟨j, hj, rfl⟩ := List.mem_iff_getElem.mp hother
  rcases lt_trichotomy i j with hij | rfl | hij
  · apply List.pairwise_iff_getElem.mp h.ordered i j hi hj hij
  · omega
  · have hafter := List.pairwise_iff_getElem.mp h.pairwise_first j i hj hi hij
    omega

/-- The lines from `heading` to the next heading are blank but for those of its block. -/
def IsBareHeading (text : Text) (headings : List Heading) (heading : Heading) : Prop :=
  ∀ i, heading.last ≤ i → (∀ other ∈ headings, heading.first < other.first → i < other.first) →
    ∀ line, (commonMarkLines text)[i]? = some line → blank line = true

/-- No line of a heading is part of the body of a section, and a heading with no other lines
below it has no section. -/
structure HeadingsExcluded (text : Text) (headings : List Heading)
    (sections : List ExtractedSection) : Prop where
  yields : List.Forall₂ (Slice.Yields (splitlines text)) (slices (splitlines text) headings)
    sections
  excluded : ∀ slice ∈ slices (splitlines text) headings, ∀ heading ∈ headings, ∀ i,
    heading.first ≤ i → i < heading.last → ¬(slice.first ≤ i ∧ i < slice.last)
  bare : ∀ heading ∈ headings, IsBareHeading text headings heading →
    ∀ slice ∈ slices (splitlines text) headings, slice.heading ≠ some heading

/-- A visible character of a range of lines is on one of them. -/
theorem exists_line_of_not_blank {lines : List Text} {first last : ℕ}
    (h : blank (sliceLines lines first last) = false) :
  ∃ i line, first ≤ i ∧ i < last ∧ lines[i]? = some line ∧ blank line = false
  := by
  obtain ⟨c, hc, hspace⟩ := blank_eq_false_iff.mp h
  obtain ⟨i, line, hfirst, hlast, hline, hc⟩ := mem_sliceLines.mp hc
  exact ⟨i, line, hfirst, hlast, hline, blank_eq_false_iff.mpr ⟨c, hc, hspace⟩⟩

/-- A range of lines has the visible characters of each of them. -/
theorem not_blank_sliceLines {lines : List Text} {first last i : ℕ} {line : Text}
    (hfirst : first ≤ i) (hlast : i < last) (hline : lines[i]? = some line)
    (h : blank line = false) :
  blank (sliceLines lines first last) = false
  := by
  obtain ⟨c, hc, hspace⟩ := blank_eq_false_iff.mp h
  exact blank_eq_false_iff.mpr ⟨c, mem_sliceLines.mpr ⟨i, line, hfirst, hlast, hline, hc⟩, hspace⟩

/-- The slice below a heading. -/
theorem exists_slice_of_mem (lines : List Text) {headings : List Heading}
    (h : headings.Pairwise fun heading heading' => heading.first < heading'.first)
    {heading : Heading} (hheading : heading ∈ headings) :
  ∃ slice ∈ allSlices lines headings, slice.heading = some heading
    ∧ slice.first = heading.first + 1 ∧ slice.EndsAfter lines headings heading.first
  := by
  obtain ⟨slice, hslice, hnearest, hfirst, hends⟩ := exists_mem_allSlices lines h heading.first
  cases hown : slice.heading with
  | none =>
      rw [hown] at hnearest
      exact absurd (hnearest heading hheading) (lt_irrefl _)
  | some own =>
      rw [hown] at hnearest hfirst
      obtain ⟨hmem, hle, hmax⟩ := hnearest
      have hge := hmax heading hheading (le_refl _)
      have heq : own = heading := by
        apply List.inj_on_of_nodup_map _ hmem hheading (le_antisymm hle hge)
        apply (List.pairwise_map.mpr h).imp
        intro m n hlt
        apply ne_of_lt hlt
      subst heq
      exact ⟨slice, hslice, hown, hfirst, hends⟩

/-- The slices of a document with headings of one line have no line of a heading. -/
theorem excluded_of_mem_allSlices {lines : List Text} {headings : List Heading}
    (h : headings.Pairwise fun heading heading' => heading.first < heading'.first)
    {slice : Slice} (hslice : slice ∈ allSlices lines headings) {heading : Heading}
    (hheading : heading ∈ headings) :
  ¬(slice.first ≤ heading.first ∧ heading.first < slice.last)
  := by
  rintro ⟨hfirst, hlast⟩
  rcases List.mem_cons.mp hslice with rfl | hslice
  · cases headings with
    | nil => cases hheading
    | cons first rest =>
        replace hlast : heading.first < first.first := hlast
        rcases List.mem_cons.mp hheading with rfl | hheading
        · omega
        · have hlt := (List.pairwise_cons.mp h).1 heading hheading
          omega
  · obtain ⟨own, -, hown, hafter⟩ := exists_of_mem_headingSlices hslice
    have hle := last_le_of_mem_headingSlices lines h hslice hown hheading (by omega)
    omega

/-- When the numbers of lines agree, the sections have no line of a heading exactly when every
heading takes one line. The last line of a heading is an underline or has the marks of the
heading. -/
theorem MarkdownExtractor.headingsExcluded_iff {parse : Text → List Token} {source : Bytes}
    {text : Text} {hs : List Heading} {sections : List ExtractedSection}
    (htext : readUtf8 source = .ok text) (hhs : headings (parse text) = .ok hs)
    (hordered : OrderedHeadings hs) (hagree : splitlines text = commonMarkLines text)
    (hmarked : ∀ heading ∈ hs, ∃ line,
      (commonMarkLines text)[heading.last - 1]? = some line ∧ blank line = false)
    (h : extract parse source = .ok sections) :
  HeadingsExcluded text hs sections ↔ ∀ heading ∈ hs, heading.last = heading.first + 1
  := by
  constructor
  · intro hexcluded heading hheading
    by_contra hne
    have hlt := hordered.nonempty heading hheading
    obtain ⟨line, hline, hblank⟩ := hmarked heading hheading
    obtain ⟨slice, hslice, hown, hfirst, hends⟩ :=
      exists_slice_of_mem (splitlines text) hordered.pairwise_first hheading
    have hlast : heading.last ≤ slice.last := by
      rcases hends with hends | ⟨other, hother, hends, hafter⟩
      · rw [hends, hagree]
        have hlen := (List.getElem?_eq_some_iff.mp hline).1
        omega
      · rw [hends]
        apply hordered.last_le hheading hother hafter
    apply hexcluded.excluded slice _ heading hheading (heading.last - 1)
    · omega
    · omega
    · omega
    · apply List.mem_filter.mpr ⟨hslice, _⟩
      rw [Slice.isEmitted, Bool.not_eq_true', hagree]
      apply not_blank_sliceLines _ _ hline hblank
      · omega
      · omega
  · intro hone
    obtain ⟨text', hs', htext', hhs', hyields⟩ := extract_eq_ok h
    rw [htext, Except.ok.injEq] at htext'
    subst htext'
    rw [hhs, Except.ok.injEq] at hhs'
    subst hhs'
    refine ⟨hyields, ?_, ?_⟩
    · intro slice hslice heading hheading i hfirst hlast hmem
      have hi : i = heading.first := by
        have hlines := hone heading hheading
        omega
      rw [hi] at hmem
      apply excluded_of_mem_allSlices hordered.pairwise_first (List.mem_of_mem_filter hslice)
        hheading hmem
    · intro heading hheading hbare slice hslice hown
      obtain ⟨hslice, hemitted⟩ := List.mem_filter.mp hslice
      rw [Slice.isEmitted, Bool.not_eq_true'] at hemitted
      obtain ⟨i, line, hfirst, hlast, hline, hblank⟩ := exists_line_of_not_blank hemitted
      have hbelow : slice ∈ headingSlices (splitlines text) hs := by
        rcases List.mem_cons.mp hslice with rfl | hslice
        · cases hown
        · apply hslice
      obtain ⟨own, -, hown', hown_first⟩ := exists_of_mem_headingSlices hbelow
      rw [hown, Option.some_inj] at hown'
      subst hown'
      rw [hagree] at hline
      rw [hbare i _ _ line hline] at hblank
      · cases hblank
      · have hlines := hone heading hheading
        omega
      · intro other hother hlt
        apply lt_of_lt_of_le hlast
        apply last_le_of_mem_headingSlices _ hordered.pairwise_first hbelow hown hother hlt

theorem MarkdownExtractor.headingsExcluded_iff_sample :
  HeadingsExcluded "a\n# T\nc\n".toList [⟨1, 2, 1, "T".toList⟩]
    [.ofText "a\n".toList [] (by decide), .ofText "T\nc\n".toList ["T".toList] (by decide)]
  := by
  have htext : readUtf8 (encodeUtf8 "a\n# T\nc\n".toList) = .ok "a\n# T\nc\n".toList := by
    decide +kernel
  have hhs : headings (titleTokens 1 2 "a\n# T\nc\n".toList) = .ok [⟨1, 2, 1, "T".toList⟩] := rfl
  apply (headingsExcluded_iff htext hhs (orderedHeadings_singleton (by decide))
    (by decide +kernel) _ (by decide +kernel)).mpr
  · simp
  · intro heading hheading
    rw [List.mem_singleton.mp hheading]
    exact ⟨"# T\n".toList, by decide +kernel, by decide⟩

/-- The underline of a heading is the body of a section. -/
theorem MarkdownExtractor.not_headingsExcluded_sampleUnderline :
  readUtf8 (encodeUtf8 "T\n===\n".toList) = .ok "T\n===\n".toList
    ∧ headings (titleTokens 0 2 "T\n===\n".toList) = .ok [⟨0, 2, 1, "T".toList⟩]
    ∧ OrderedHeadings [⟨0, 2, 1, "T".toList⟩]
    ∧ splitlines "T\n===\n".toList = commonMarkLines "T\n===\n".toList
    ∧ extract (titleTokens 0 2) (encodeUtf8 "T\n===\n".toList)
      = .ok [.ofText "T\n===\n".toList ["T".toList] (by decide)]
    ∧ IsBareHeading "T\n===\n".toList [⟨0, 2, 1, "T".toList⟩] ⟨0, 2, 1, "T".toList⟩
    ∧ ∀ sections, ¬HeadingsExcluded "T\n===\n".toList [⟨0, 2, 1, "T".toList⟩] sections
  := by
  refine ⟨by decide +kernel, rfl, orderedHeadings_singleton (by decide), by decide +kernel,
    by decide +kernel, ?_, ?_⟩
  · intro i hi _ line hline
    have hlen : (commonMarkLines "T\n===\n".toList).length = 2 := by
      decide +kernel
    have hlt := (List.getElem?_eq_some_iff.mp hline).1
    rw [hlen] at hlt
    replace hi : 2 ≤ i := hi
    omega
  · intro sections h
    have hmem : (⟨some ⟨0, 2, 1, "T".toList⟩, 1, 2⟩ : Slice)
        ∈ slices (splitlines "T\n===\n".toList) [⟨0, 2, 1, "T".toList⟩] := by
      decide +kernel
    apply h.excluded _ hmem _ (List.mem_singleton_self _) 1
    · decide
    · decide
    · decide

end KnowledgeSearch

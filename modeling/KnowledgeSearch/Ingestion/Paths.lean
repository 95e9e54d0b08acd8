import KnowledgeSearch.Foundations.Enclosing
import KnowledgeSearch.Ingestion.Sectioning

/-!
# Section paths

The section path of a Markdown section names the headings that enclose its heading: those from
which on all headings have a higher level, up to it. The stack of the extractor holds them whatever
the sections are that are left out.
-/

namespace KnowledgeSearch

/-- The level of the `i`-th heading. -/
def headingLevel (hs : List Heading) (i : ℕ) : ℕ :=
  (hs[i]?.map Heading.level).getD 0

/-- The text of the `i`-th heading. -/
def headingText (hs : List Heading) (i : ℕ) : Text :=
  (hs[i]?.map Heading.text).getD []

/-- The texts of the headings that enclose the `i`-th. -/
def headingPath (hs : List Heading) (i : ℕ) : List Text :=
  (enclosing (headingLevel hs) i).map (headingText hs)

/-- The slice below the `i`-th heading has visible characters. -/
def isEmittedAt (lines : List Text) (hs : List Heading) (i : ℕ) : Bool :=
  (headingSlices lines hs)[i]?.any (Slice.isEmitted lines)

/-- A section is that of the slice below the `i`-th heading, and names the headings that enclose
it. -/
structure YieldsAt (lines : List Text) (hs : List Heading) (i : ℕ) (part : ExtractedSection) :
    Prop where
  text : ∃ slice, (headingSlices lines hs)[i]? = some slice ∧ part.text = slice.text lines
  sectionPath : part.sectionPath = headingPath hs i

theorem getElem?_headingSlices (lines : List Text) (hs : List Heading) (i : ℕ) :
  (headingSlices lines hs)[i]? = hs[i]?.map fun heading =>
    ⟨some heading, heading.first + 1, nextLine lines (hs.drop (i + 1))⟩
  := by
  induction hs generalizing i with
  | nil => rfl
  | cons heading rest ih =>
      cases i with
      | zero => rfl
      | succ i => exact ih i

/-- The stack after the first headings has those of them that enclose the last. -/
theorem foldl_pushHeading (hs : List Heading) {i : ℕ} (h : i ≤ hs.length) :
  (hs.take i).foldl pushHeading []
    = ((List.range i).foldl (pushPlace (headingLevel hs)) []).map fun j =>
        (headingLevel hs j, headingText hs j)
  := by
  induction i with
  | zero => rfl
  | succ i ih =>
      have hheading : hs[i]? = some hs[i] := List.getElem?_eq_getElem h
      have hlevel : headingLevel hs i = hs[i].level := by
        rw [headingLevel, hheading]
        rfl
      have htext : headingText hs i = hs[i].text := by
        rw [headingText, hheading]
        rfl
      rw [List.take_succ_eq_append_getElem h, List.foldl_append, ih (Nat.le_of_succ_le h),
        List.range_succ, List.foldl_append, List.foldl_cons, List.foldl_nil, List.foldl_cons,
        List.foldl_nil, pushHeading, pushPlace, List.map_cons, List.dropWhile_map, hlevel, htext]
      rfl

/-- The sections of the headings from the `i`-th on. -/
theorem forall₂_yieldsAt (lines : List Text) (hs : List Heading) {rest : List Heading} {i : ℕ}
    (hrest : hs.drop i = rest) :
  List.Forall₂ (YieldsAt lines hs)
    ((List.range' i rest.length).filter (isEmittedAt lines hs))
    (headingSections lines ((hs.take i).foldl pushHeading []) rest)
  := by
  induction rest generalizing i with
  | nil => apply List.Forall₂.nil
  | cons heading rest ih =>
      have hlt : i < hs.length := by
        apply lt_of_not_ge
        intro hle
        rw [List.drop_eq_nil_of_le hle] at hrest
        cases hrest
      rw [List.drop_eq_getElem_cons hlt] at hrest
      obtain ⟨hheading, hrest⟩ := List.cons.inj hrest
      have hget : hs[i]? = some heading := by
        rw [List.getElem?_eq_getElem hlt, hheading]
      have hslice : (headingSlices lines hs)[i]?
          = some ⟨some heading, heading.first + 1, nextLine lines rest⟩ := by
        rw [getElem?_headingSlices, hget, hrest]
        rfl
      have hstack : pushHeading ((hs.take i).foldl pushHeading []) heading
          = (hs.take (i + 1)).foldl pushHeading [] := by
        rw [List.take_succ_eq_append_getElem hlt, List.foldl_append, hheading]
        rfl
      have hpath : ((pushHeading ((hs.take i).foldl pushHeading []) heading).map Prod.snd).reverse
          = headingPath hs i := by
        rw [hstack, foldl_pushHeading hs hlt, foldl_pushPlace, List.map_map, ← List.map_reverse,
          List.reverse_reverse]
        rfl
      have hemitted : isEmittedAt lines hs i
          = !blank (sliceLines lines (heading.first + 1) (nextLine lines rest)) := by
        rw [isEmittedAt, hslice]
        rfl
      rw [headingSections, List.length_cons, List.range'_succ]
      split
      · rename_i hblank
        rw [List.filter_cons_of_neg]
        · rw [hstack]
          apply ih hrest
        · simp [hemitted, hblank]
      · rename_i hblank
        rw [List.filter_cons_of_pos]
        · apply List.Forall₂.cons
          · exact ⟨⟨_, hslice, rfl⟩, hpath⟩
          · rw [hstack]
            apply ih hrest
        · simp [hemitted, hblank]

/-- The sections of a Markdown document with headings: what precedes the first heading, and in the
order of the headings, one for each whose body has visible characters. Its section path has, in
order, the headings up to its own whose levels are below those of all later ones up to it; their
levels go up, the last is its own, and none is blank. -/
theorem MarkdownExtractor.sectionPath_eq_headingPath (parse : Text → List Token) {source : Bytes}
    {text : Text} {hs : List Heading} {sections : List ExtractedSection}
    (htext : readUtf8 source = .ok text) (hhs : headings (parse text) = .ok hs)
    (h : extract parse source = .ok sections) :
  (∃ preamble emitted, sections = preamble ++ emitted
    ∧ (∀ part ∈ preamble, part.sectionPath = [])
    ∧ List.Forall₂ (YieldsAt (splitlines text) hs)
      ((List.range hs.length).filter (isEmittedAt (splitlines text) hs)) emitted)
  ∧ ∀ i < hs.length,
    (∀ j, j ∈ enclosing (headingLevel hs) i
      ↔ j ≤ i ∧ ∀ k, j < k → k ≤ i → headingLevel hs j < headingLevel hs k)
    ∧ ((enclosing (headingLevel hs) i).Pairwise fun j k =>
      j < k ∧ headingLevel hs j < headingLevel hs k)
    ∧ (headingPath hs i).getLast? = hs[i]?.map Heading.text
    ∧ ∀ entry ∈ headingPath hs i, blank entry = false
  := by
  constructor
  · obtain ⟨text', htext', h⟩ := bind_eq_ok_iff.mp h
    cases htext.symm.trans htext'
    split at h
    · cases h
    · obtain ⟨hs', hhs', h⟩ := bind_eq_ok_iff.mp h
      cases hhs.symm.trans hhs'
      have hsections := forall₂_yieldsAt (splitlines text) hs (rfl : hs.drop 0 = hs)
      rw [← List.range_eq_range'] at hsections
      split at h
      · cases h
        refine ⟨[_], [], (List.append_nil _).symm, ?_, List.Forall₂.nil⟩
        intro part hpart
        rw [List.mem_singleton.mp hpart]
        rfl
      · cases h
        refine ⟨_, _, rfl, ?_, hsections⟩
        intro part hpart
        rw [preambleSections] at hpart
        split at hpart
        · cases hpart
        · rw [List.mem_singleton.mp hpart]
          rfl
  · intro i hi
    refine ⟨fun j => mem_enclosing, pairwise_enclosing, ?_, ?_⟩
    · rw [headingPath, List.getLast?_map, getLast?_enclosing, Option.map_some, headingText,
        List.getElem?_eq_getElem hi]
      rfl
    · intro entry hentry
      obtain ⟨j, hj, rfl⟩ := List.mem_map.mp hentry
      have hlt : j < hs.length := lt_of_le_of_lt (mem_enclosing.mp hj).1 hi
      rw [headingText, List.getElem?_eq_getElem hlt]
      apply blank_of_mem_headings hhs (List.getElem_mem hlt)

/-- A text with three headings, the second of which skips a level. -/
def sampleMarkdown : Text :=
  "# Search\nFind it.\n### Ranks\nOrder it.\n## Cache\nKeep it.\n".toList

def sampleHeadingTokens : List Token :=
  [.headingOpen 1 (some (0, 1)), .other "Search".toList, .headingOpen 3 (some (2, 3)),
    .other "Ranks".toList, .headingOpen 2 (some (4, 5)), .other "Cache".toList]

def sampleHeadings : List Heading :=
  [⟨0, 1, 1, "Search".toList⟩, ⟨2, 3, 3, "Ranks".toList⟩, ⟨4, 5, 2, "Cache".toList⟩]

/-- All three headings have a section, and the section path of the third ends with it. -/
theorem MarkdownExtractor.sectionPath_eq_headingPath_sample :
  ∃ sections, extract (fun _ => sampleHeadingTokens)
      (byteOrderMark ++ Services.encodeUtf8 sampleMarkdown) = .ok sections
    ∧ (∃ preamble emitted, sections = preamble ++ emitted
      ∧ (∀ part ∈ preamble, part.sectionPath = [])
      ∧ List.Forall₂ (YieldsAt (splitlines sampleMarkdown) sampleHeadings) [0, 1, 2] emitted)
    ∧ (headingPath sampleHeadings 2).getLast? = some "Cache".toList
    ∧ ∀ entry ∈ headingPath sampleHeadings 2, blank entry = false
  := by
  have hread := readUtf8_byteOrderMark sampleMarkdown
  have hhs : headings sampleHeadingTokens = .ok sampleHeadings := rfl
  have hblank : ¬ blank sampleMarkdown = true := by decide
  have hemitted : (List.range sampleHeadings.length).filter
      (isEmittedAt (splitlines sampleMarkdown) sampleHeadings) = [0, 1, 2] := by
    decide +kernel
  have hsections : extract (fun _ => sampleHeadingTokens)
      (byteOrderMark ++ Services.encodeUtf8 sampleMarkdown)
        = .ok (preambleSections (splitlines sampleMarkdown) 0
          ++ headingSections (splitlines sampleMarkdown) [] sampleHeadings) := by
    apply bind_eq_ok_iff.mpr
    use sampleMarkdown, hread
    rw [dif_neg hblank]
    rfl
  obtain ⟨hyields, hpaths⟩ :=
    sectionPath_eq_headingPath (fun _ => sampleHeadingTokens) hread hhs hsections
  rw [hemitted] at hyields
  obtain ⟨-, -, hlast, hvisible⟩ := hpaths 2 (by decide)
  exact ⟨_, hsections, hyields, hlast, hvisible⟩

/-- The second heading, which is deeper, does not enclose the third. -/
example : headingPath sampleHeadings 2 = ["Search".toList, "Cache".toList] := by
  decide

end KnowledgeSearch

import KnowledgeSearch.Ingestion.Segments

/-!
# Where passages come from

Normalized sections follow one another in the whole text with two line feeds between them,
`Tiled`. A visible character of the whole text is therefore part of one section,
`Tiled.exists_contains`, which is the one `sectionAtOffset` finds. `Segment.Located` says what
the locator of a passage means, and `chunk_located` that the locators of all chunks mean it.
-/

namespace KnowledgeSearch

/-! ### Sections in the whole text -/

/-- The offset lies in the section. -/
def NormalizedSection.Contains (part : NormalizedSection) (offset : ℤ) : Prop :=
  part.locator.charStart ≤ offset ∧ offset < part.locator.charEnd

/-- The sections follow one another, the first of which starts at `cursor`. -/
def Tiled : ℕ → List NormalizedSection → Prop
  | _, [] => True
  | cursor, part :: sections =>
      part.locator.charStart = cursor ∧ part.locator.charEnd = cursor + part.text.length
        ∧ part.text ≠ [] ∧ Tiled (cursor + part.text.length + 2) sections

theorem tiled_normalizeSectionsFrom {U : UnicodeData} {cursor : ℕ}
    {sections : List ExtractedSection} {normalized : List NormalizedSection}
    (h : normalizeSectionsFrom U cursor sections = .ok normalized) :
  Tiled cursor normalized
  := by
  induction sections generalizing cursor normalized with
  | nil =>
      cases h
      trivial
  | cons part sections ih =>
      rw [normalizeSectionsFrom] at h
      split at h
      · apply ih h
      · rename_i hne
        obtain ⟨locator, rest, hlocator, hrest, rfl⟩ := bind_cons_eq_ok_iff.mp h
        rw [liftDomain_eq_ok_iff, SourceLocator.construct_eq_ok_iff] at hlocator
        simp only [Tiled, hlocator]
        exact ⟨trivial, trivial, hne, ih hrest⟩

/-- Normalized sections are at least one. -/
theorem normalizeSections_eq_ok_iff {U : UnicodeData} {sections : List ExtractedSection}
    {normalized : List NormalizedSection} :
  normalizeSections U sections = .ok normalized
    ↔ normalizeSectionsFrom U 0 sections = .ok normalized ∧ normalized ≠ []
  := by
  constructor
  · intro h
    obtain ⟨normalized', hnormalized, h⟩ := bind_eq_ok_iff.mp h
    split at h
    · cases h
    · rename_i hne
      cases h
      use hnormalized
      intro hnil
      apply hne
      rw [hnil]
      rfl
  · rintro ⟨hnormalized, hne⟩
    apply bind_eq_ok_iff.mpr
    use normalized, hnormalized
    rw [if_neg]
    rwa [List.isEmpty_iff]

theorem joinSections_cons (part : NormalizedSection) (sections : List NormalizedSection) :
  joinSections (part :: sections)
    = part.text ++ if sections = [] then [] else '\n' :: '\n' :: joinSections sections
  := by
  cases sections with
  | nil => simp [joinSections]
  | cons next sections =>
      rw [if_neg (List.cons_ne_nil _ _), joinSections, List.map_cons, List.map_cons,
        List.intercalate_cons_cons, joinSections, List.map_cons]
      simp

/-- A section is the part of the whole text at its place. -/
theorem Tiled.exists_join_eq {cursor : ℕ} {sections : List NormalizedSection}
    (h : Tiled cursor sections) {part : NormalizedSection} (hpart : part ∈ sections) :
  ∃ before after, joinSections sections = before ++ part.text ++ after
    ∧ part.locator.charStart = cursor + before.length
    ∧ part.locator.charEnd = cursor + before.length + part.text.length
  := by
  induction sections generalizing cursor with
  | nil => cases hpart
  | cons first sections ih =>
      obtain ⟨hstart, hend, -, hrest⟩ := h
      rcases List.mem_cons.mp hpart with rfl | hpart
      · refine ⟨[], _, joinSections_cons part sections, ?_, ?_⟩
        · rw [hstart]
          simp
        · rw [hend]
          simp
      · obtain ⟨before, after, hjoin, hstart', hend'⟩ := ih hrest hpart
        refine ⟨first.text ++ '\n' :: '\n' :: before, after, ?_, ?_, ?_⟩
        · rw [joinSections_cons, if_neg (List.ne_nil_of_mem hpart), hjoin]
          simp
        · rw [hstart']
          simp only [List.length_append, List.length_cons]
          omega
        · rw [hend']
          simp only [List.length_append, List.length_cons]
          omega

/-- The sections are apart and in order. -/
theorem Tiled.pairwise {cursor : ℕ} {sections : List NormalizedSection}
    (h : Tiled cursor sections) :
  sections.Pairwise fun part part' => part.locator.charEnd < part'.locator.charStart
  := by
  induction sections generalizing cursor with
  | nil => apply List.Pairwise.nil
  | cons part sections ih =>
      obtain ⟨-, hend, -, hrest⟩ := h
      rw [List.pairwise_cons]
      refine ⟨?_, ih hrest⟩
      intro part' hpart'
      obtain ⟨before, -, -, hstart', -⟩ := hrest.exists_join_eq hpart'
      omega

/-- A visible character of the whole text is part of a section. -/
theorem Tiled.exists_contains {cursor : ℕ} {sections : List NormalizedSection}
    (h : Tiled cursor sections) {i : ℕ} {c : Char} (hget : (joinSections sections)[i]? = some c)
    (hspace : isSpace c = false) :
  ∃ part ∈ sections, part.Contains (cursor + i)
  := by
  induction sections generalizing cursor i with
  | nil => cases hget
  | cons part sections ih =>
      obtain ⟨hstart, hend, -, hrest⟩ := h
      by_cases hi : i < part.text.length
      · refine ⟨part, List.mem_cons_self, ?_, ?_⟩
        · omega
        · omega
      · rw [joinSections_cons, List.getElem?_append_right (by omega)] at hget
        split at hget
        · cases hget
        · obtain ⟨k, hk⟩ := Nat.exists_eq_add_of_le (not_lt.mp hi)
          rw [hk, Nat.add_sub_cancel_left] at hget
          -- The line feeds between the sections are not visible.
          match k with
          | 0 =>
              cases hget
              cases hspace
          | 1 =>
              cases hget
              cases hspace
          | k + 2 =>
              obtain ⟨part', hpart', hcontains⟩ := ih hrest hget
              refine ⟨part', List.mem_cons_of_mem _ hpart', ?_⟩
              have hoffset : (cursor : ℤ) + i = (cursor + part.text.length + 2 : ℕ) + k := by
                omega
              rw [hoffset]
              apply hcontains

/-- One section only contains an offset. -/
theorem Tiled.eq_of_contains {cursor : ℕ} {sections : List NormalizedSection}
    (h : Tiled cursor sections) {i j : ℕ} {part part' : NormalizedSection} {offset : ℤ}
    (hi : sections[i]? = some part) (hj : sections[j]? = some part')
    (hpart : part.Contains offset) (hpart' : part'.Contains offset) :
  i = j
  := by
  obtain ⟨hilen, hi⟩ := List.getElem?_eq_some_iff.mp hi
  obtain ⟨hjlen, hj⟩ := List.getElem?_eq_some_iff.mp hj
  obtain ⟨hstart, hend⟩ := hpart
  obtain ⟨hstart', hend'⟩ := hpart'
  rcases lt_trichotomy i j with hij | hij | hij
  · have hlt := List.pairwise_iff_getElem.mp h.pairwise i j hilen hjlen hij
    rw [hi, hj] at hlt
    omega
  · apply hij
  · have hlt := List.pairwise_iff_getElem.mp h.pairwise j i hjlen hilen hij
    rw [hi, hj] at hlt
    omega

theorem firstAtOffset_eq {sections sections' : List NormalizedSection} {part : NormalizedSection}
    {offset : ℕ} (hpart : part.locator.charStart ≤ offset)
    (h : ∀ part' ∈ sections, (offset : ℤ) < part'.locator.charStart) :
  firstAtOffset offset (sections ++ part :: sections') = .ok part
  := by
  induction sections with
  | nil => rw [List.nil_append, firstAtOffset, if_pos hpart]
  | cons first sections ih =>
      rw [List.forall_mem_cons] at h
      rw [List.cons_append, firstAtOffset, if_neg (not_le.mpr h.1)]
      apply ih h.2

/-- The section found for an offset is the one that contains it. -/
theorem Tiled.sectionAtOffset_eq {cursor : ℕ} {sections : List NormalizedSection}
    (h : Tiled cursor sections) {part : NormalizedSection} (hpart : part ∈ sections) {offset : ℕ}
    (hcontains : part.Contains offset) :
  sectionAtOffset sections offset = .ok part
  := by
  obtain ⟨before, after, rfl⟩ := List.append_of_mem hpart
  rw [sectionAtOffset, List.reverse_append, List.reverse_cons, List.append_assoc,
    List.singleton_append]
  apply firstAtOffset_eq hcontains.1
  intro part' hpart'
  have hlt := (List.pairwise_cons.mp (List.pairwise_append.mp h.pairwise).2.1).1 part'
    (List.mem_reverse.mp hpart')
  obtain ⟨-, hend⟩ := hcontains
  omega

/-! ### Passages -/

/-- The fields of a passage of a window whose text starts at `offset`. -/
structure Segment.Of (part : NormalizedSection) (offset : ℤ) (window : TextWindow)
    (segment : Segment) : Prop where
  text : segment.text = window.text
  tokenCount : segment.tokenCount = window.tokenCount
  sectionPath : segment.locator.sectionPath = part.locator.sectionPath
  pageNumber : segment.locator.pageNumber = part.locator.pageNumber
  charStart : segment.locator.charStart = offset + window.charStart
  charEnd : segment.locator.charEnd = offset + window.charEnd

theorem of_segmentOf {part : NormalizedSection} {offset : ℤ} {window : TextWindow}
    {segment : Segment} (h : segmentOf part offset window = .ok segment) :
  segment.Of part offset window
  := by
  obtain ⟨locator, hlocator, h⟩ := bind_eq_ok_iff.mp h
  cases h
  rw [liftDomain_eq_ok_iff, SourceLocator.construct_eq_ok_iff] at hlocator
  constructor
  · rfl
  · rfl
  · rw [hlocator]
  · rw [hlocator]
  · rw [hlocator]
  · rw [hlocator]

/-- A window can be located in a section. -/
theorem exists_segmentOf (part : NormalizedSection) {offset : ℤ} {window : TextWindow}
    (hoffset : 0 ≤ offset) (h : window.charStart ≤ window.charEnd) :
  ∃ segment, segmentOf part offset window = .ok segment
  := by
  have hvalid := firstViolation_eq_none_iff.mp part.locator.valid
  simp only [SourceLocatorFields.checks, List.mem_cons, List.not_mem_nil, or_false,
    forall_eq_or_imp, forall_eq] at hvalid
  have hfields : firstViolation (SourceLocatorFields.checks
      { sectionPath := part.locator.sectionPath
        pageNumber := part.locator.pageNumber
        charStart := offset + window.charStart
        charEnd := offset + window.charEnd }) = none := by
    apply firstViolation_eq_none_iff.mpr
    simp only [SourceLocatorFields.checks, List.mem_cons, List.not_mem_nil, or_false,
      forall_eq_or_imp, forall_eq, decide_eq_false_iff_not]
    exact ⟨hvalid.1, hvalid.2.1, by omega, by omega⟩
  rw [segmentOf, SourceLocator.construct_eq_ok hfields]
  exact ⟨_, rfl⟩

/-- The locator of a passage names its characters in the whole text, and the only section that
contains the first of them. -/
structure Segment.Located (sections : List NormalizedSection) (segment : Segment) : Prop where
  text : ∃ charStart charEnd : ℕ, segment.locator.charStart = charStart
    ∧ segment.locator.charEnd = charEnd ∧ charStart < charEnd
    ∧ charEnd ≤ (joinSections sections).length
    ∧ segment.text = sliceText (joinSections sections) charStart charEnd
  strip_text : strip segment.text = segment.text
  source : ∃ (i : ℕ) (part : NormalizedSection), sections[i]? = some part
    ∧ part.Contains segment.locator.charStart
    ∧ segment.locator.sectionPath = part.locator.sectionPath
    ∧ segment.locator.pageNumber = part.locator.pageNumber
    ∧ ∀ (j : ℕ) (part' : NormalizedSection), sections[j]? = some part' →
      part'.Contains segment.locator.charStart → j = i

/-- All characters of the passage are part of one section. -/
def Segment.WithinSection (sections : List NormalizedSection) (segment : Segment) : Prop :=
  ∃ part ∈ sections, part.Contains segment.locator.charStart
    ∧ segment.locator.charEnd ≤ part.locator.charEnd

/-- A located passage is not empty. -/
theorem Segment.Located.text_ne_nil {sections : List NormalizedSection} {segment : Segment}
    (h : segment.Located sections) :
  segment.text ≠ []
  := by
  obtain ⟨charStart, charEnd, -, -, hlt, hle, htext⟩ := h.text
  rw [htext]
  apply List.ne_nil_of_length_pos
  rw [length_sliceText hle]
  omega

/-- A passage that is not empty, and has nothing to strip, is not blank. -/
theorem Segment.Located.blank_text {sections : List NormalizedSection} {segment : Segment}
    (h : segment.Located sections) :
  blank segment.text = false
  := by
  rw [← Bool.not_eq_true, ← strip_eq_nil_iff, h.strip_text]
  apply h.text_ne_nil

/-- A passage of a window of the whole text. -/
theorem Segment.Of.located {sections : List NormalizedSection} (h : Tiled 0 sections)
    {window : TextWindow} (hcut : window.Cut (joinSections sections)) {part : NormalizedSection}
    (hpart : part ∈ sections) (hcontains : part.Contains window.charStart) {segment : Segment}
    (hsegment : segment.Of part 0 window) :
  segment.Located sections
  := by
  have hstart : segment.locator.charStart = window.charStart := by
    rw [hsegment.charStart, Int.zero_add]
  have hend : segment.locator.charEnd = window.charEnd := by
    rw [hsegment.charEnd, Int.zero_add]
  constructor
  · refine ⟨window.charStart, window.charEnd, hstart, hend, hcut.lt, hcut.le, ?_⟩
    rw [hsegment.text, hcut.text_eq]
  · rw [hsegment.text, hcut.strip_text]
  · obtain ⟨i, hi⟩ := List.mem_iff_getElem?.mp hpart
    rw [hstart]
    refine ⟨i, part, hi, hcontains, hsegment.sectionPath, hsegment.pageNumber, ?_⟩
    intro j part' hj hcontains'
    apply h.eq_of_contains hj hi hcontains' hcontains

/-- A slice of a part of a text. -/
theorem sliceText_append {before text after : Text} {first last : ℕ} (h : last ≤ text.length) :
  sliceText (before ++ text ++ after) (before.length + first) (before.length + last)
    = sliceText text first last
  := by
  rw [sliceText, sliceText, List.append_assoc, List.take_length_add_append,
    List.take_append_of_le_length h, List.drop_length_add_append]

/-- A passage of a window of a section. -/
theorem Segment.Of.located_of_section {sections : List NormalizedSection} (h : Tiled 0 sections)
    {part : NormalizedSection} (hpart : part ∈ sections) {window : TextWindow}
    (hcut : window.Cut part.text) {segment : Segment}
    (hsegment : segment.Of part part.locator.charStart window) :
  segment.Located sections ∧ segment.WithinSection sections
  := by
  obtain ⟨before, after, hjoin, hstart, hend⟩ := h.exists_join_eq hpart
  have hle := hcut.le
  have hlt := hcut.lt
  have hsegment_start := hsegment.charStart
  have hsegment_end := hsegment.charEnd
  have hcontains : part.Contains segment.locator.charStart := by
    constructor
    · omega
    · omega
  constructor
  · constructor
    · refine ⟨before.length + window.charStart, before.length + window.charEnd, by omega,
        by omega, by omega, ?_, ?_⟩
      · rw [hjoin, List.length_append, List.length_append]
        omega
      · rw [hsegment.text, hcut.text_eq, hjoin, sliceText_append hle]
    · rw [hsegment.text, hcut.strip_text]
    · obtain ⟨i, hi⟩ := List.mem_iff_getElem?.mp hpart
      refine ⟨i, part, hi, hcontains, hsegment.sectionPath, hsegment.pageNumber, ?_⟩
      intro j part' hj hcontains'
      apply h.eq_of_contains hj hi hcontains' hcontains
  · refine ⟨part, hpart, hcontains, ?_⟩
    omega

/-! ### The passages of a document -/

/-- A passage of the whole document is that of a window and the section found for it. -/
theorem mem_fixedWindowSegments {sections : List NormalizedSection} {windows : List TextWindow}
    {segments : List Segment} (h : fixedWindowSegments sections windows = .ok segments)
    {segment : Segment} (hsegment : segment ∈ segments) :
  ∃ window ∈ windows, ∃ part, sectionAtOffset sections window.charStart = .ok part
    ∧ segment.Of part 0 window
  := by
  induction windows generalizing segments with
  | nil =>
      cases h
      cases hsegment
  | cons window windows ih =>
      obtain ⟨part, hpart, h⟩ := bind_eq_ok_iff.mp h
      obtain ⟨first, rest, hfirst, hrest, rfl⟩ := bind_cons_eq_ok_iff.mp h
      rcases List.mem_cons.mp hsegment with rfl | hsegment
      · exact ⟨window, List.mem_cons_self, part, hpart, of_segmentOf hfirst⟩
      · obtain ⟨window', hwindow', hof⟩ := ih hrest hsegment
        exact ⟨window', List.mem_cons_of_mem _ hwindow', hof⟩

theorem mem_sectionSegments {part : NormalizedSection} {windows : List TextWindow}
    {segments : List Segment} (h : sectionSegments part windows = .ok segments)
    {segment : Segment} (hsegment : segment ∈ segments) :
  ∃ window ∈ windows, segment.Of part part.locator.charStart window
  := by
  induction windows generalizing segments with
  | nil =>
      cases h
      cases hsegment
  | cons window windows ih =>
      obtain ⟨first, rest, hfirst, hrest, rfl⟩ := bind_cons_eq_ok_iff.mp h
      rcases List.mem_cons.mp hsegment with rfl | hsegment
      · exact ⟨window, List.mem_cons_self, of_segmentOf hfirst⟩
      · obtain ⟨window', hwindow', hof⟩ := ih hrest hsegment
        exact ⟨window', List.mem_cons_of_mem _ hwindow', hof⟩

/-- A passage of a section is that of one of its windows. -/
theorem mem_sectionAwareSegments {U : UnicodeData} {configuration : WindowConfiguration}
    {sections : List NormalizedSection} {segments : List Segment}
    (h : sectionAwareSegments U configuration sections = .ok segments)
    {segment : Segment} (hsegment : segment ∈ segments) :
  ∃ part ∈ sections, ∃ window ∈ textWindows U configuration part.text,
    segment.Of part part.locator.charStart window
  := by
  induction sections generalizing segments with
  | nil =>
      cases h
      cases hsegment
  | cons part sections ih =>
      obtain ⟨first, hfirst, h⟩ := bind_eq_ok_iff.mp h
      obtain ⟨rest, hrest, h⟩ := bind_eq_ok_iff.mp h
      cases h
      rcases List.mem_append.mp hsegment with hsegment | hsegment
      · exact ⟨part, List.mem_cons_self, mem_sectionSegments hfirst hsegment⟩
      · obtain ⟨part', hpart', hwindow⟩ := ih hrest hsegment
        exact ⟨part', List.mem_cons_of_mem _ hpart', hwindow⟩

/-- A window of the whole text starts in a section. -/
theorem Tiled.exists_of_cut {sections : List NormalizedSection} (h : Tiled 0 sections)
    {window : TextWindow} (hcut : window.Cut (joinSections sections)) :
  ∃ part ∈ sections, part.Contains window.charStart
    ∧ sectionAtOffset sections window.charStart = .ok part
  := by
  have hlt : window.charStart < (joinSections sections).length :=
    lt_of_lt_of_le hcut.lt hcut.le
  obtain ⟨part, hpart, hcontains⟩ := h.exists_contains (List.getElem?_eq_getElem hlt)
    (hcut.first _ (List.getElem?_eq_getElem hlt))
  simp only [Nat.cast_zero, zero_add] at hcontains
  exact ⟨part, hpart, hcontains, h.sectionAtOffset_eq hpart hcontains⟩

theorem exists_fixedWindowSegments_of_tiled {sections : List NormalizedSection}
    (h : Tiled 0 sections) {windows : List TextWindow}
    (hwindows : ∀ window ∈ windows, window.Cut (joinSections sections)) :
  ∃ segments, fixedWindowSegments sections windows = .ok segments
  := by
  induction windows with
  | nil => exact ⟨[], rfl⟩
  | cons window windows ih =>
      rw [List.forall_mem_cons] at hwindows
      obtain ⟨part, -, -, hpart⟩ := h.exists_of_cut hwindows.1
      obtain ⟨segment, hsegment⟩ := exists_segmentOf part (le_refl 0) (le_of_lt hwindows.1.lt)
      obtain ⟨segments, hsegments⟩ := ih hwindows.2
      use segment :: segments
      exact bind_eq_ok_iff.mpr ⟨part, hpart, bind_eq_ok_iff.mpr ⟨segment, hsegment,
        bind_eq_ok_iff.mpr ⟨segments, hsegments, rfl⟩⟩⟩

theorem exists_sectionSegments_of_cut (part : NormalizedSection)
    (h : 0 ≤ part.locator.charStart) {windows : List TextWindow}
    (hwindows : ∀ window ∈ windows, window.Cut part.text) :
  ∃ segments, sectionSegments part windows = .ok segments
  := by
  induction windows with
  | nil => exact ⟨[], rfl⟩
  | cons window windows ih =>
      rw [List.forall_mem_cons] at hwindows
      obtain ⟨segment, hsegment⟩ := exists_segmentOf part h (le_of_lt hwindows.1.lt)
      obtain ⟨segments, hsegments⟩ := ih hwindows.2
      use segment :: segments
      exact bind_eq_ok_iff.mpr ⟨segment, hsegment,
        bind_eq_ok_iff.mpr ⟨segments, hsegments, rfl⟩⟩

theorem exists_sectionAwareSegments_of_tiled (U : UnicodeData)
    (configuration : WindowConfiguration) {cursor : ℕ} {sections : List NormalizedSection}
    (h : Tiled cursor sections) :
  ∃ segments, sectionAwareSegments U configuration sections = .ok segments
  := by
  induction sections generalizing cursor with
  | nil => exact ⟨[], rfl⟩
  | cons part sections ih =>
      obtain ⟨hstart, -, -, hrest⟩ := h
      obtain ⟨segments, hsegments⟩ := exists_sectionSegments_of_cut part (by omega)
        (fun window hwindow => cut_of_mem_textWindows hwindow)
      obtain ⟨rest, hrest⟩ := ih hrest
      use segments ++ rest
      exact bind_eq_ok_iff.mpr ⟨segments, hsegments, bind_eq_ok_iff.mpr ⟨rest, hrest, rfl⟩⟩

/-- The passages of normalized sections can be located. -/
theorem DocumentChunker.exists_segments (self : DocumentChunker) (U : UnicodeData)
    {sections : List NormalizedSection} (h : Tiled 0 sections) :
  ∃ segments, self.segments U sections = .ok segments
  := by
  obtain ⟨strategy, configuration⟩ := self
  cases strategy with
  | fixedWindow =>
      apply exists_fixedWindowSegments_of_tiled h
      intro window hwindow
      apply cut_of_mem_textWindows hwindow
  | sectionAware => apply exists_sectionAwareSegments_of_tiled U configuration h

/-- The passages of normalized sections are where their locators say. -/
theorem DocumentChunker.located_of_mem_segments {self : DocumentChunker} {U : UnicodeData}
    {sections : List NormalizedSection} (h : Tiled 0 sections) {segments : List Segment}
    (hsegments : self.segments U sections = .ok segments) {segment : Segment}
    (hsegment : segment ∈ segments) :
  segment.Located sections ∧ 1 ≤ segment.tokenCount
    ∧ (self.strategy = .sectionAware → segment.WithinSection sections)
  := by
  obtain ⟨strategy, configuration⟩ := self
  cases strategy with
  | fixedWindow =>
      obtain ⟨window, hwindow, part, hpart, hof⟩ := mem_fixedWindowSegments hsegments hsegment
      have hcut := cut_of_mem_textWindows hwindow
      obtain ⟨part', hmem, hcontains, hpart'⟩ := h.exists_of_cut hcut
      rw [hpart, Except.ok.injEq] at hpart'
      subst hpart'
      refine ⟨hof.located h hcut hmem hcontains, ?_, fun hstrategy => by cases hstrategy⟩
      rw [hof.tokenCount]
      have hcount := hcut.one_le_tokenCount
      omega
  | sectionAware =>
      obtain ⟨part, hpart, window, hwindow, hof⟩ := mem_sectionAwareSegments hsegments hsegment
      have hcut := cut_of_mem_textWindows hwindow
      obtain ⟨hlocated, hwithin⟩ := hof.located_of_section h hpart hcut
      refine ⟨hlocated, ?_, fun _ => hwithin⟩
      rw [hof.tokenCount]
      have hcount := hcut.one_le_tokenCount
      omega

/-! ### Chunks -/

/-- The passage of a chunk. -/
def Chunk.segment (chunk : Chunk) : Segment :=
  ⟨chunk.text, chunk.tokenCount, chunk.locator⟩

section Chunks

variable {S : Services} {documentId : Uuid}

/-- What `_create_chunk` makes of a passage. -/
theorem createChunk_eq_ok_iff {ordinal : ℕ} {segment : Segment} {chunk : Chunk} :
  S.createChunk documentId ordinal segment = .ok chunk
    ↔ chunk.toChunkFields =
      { id := S.uuid5 chunkNamespace
          (stableKey documentId ordinal (S.sha256 (Services.encodeUtf8 segment.text)))
        documentId
        ordinal
        text := segment.text
        tokenCount := segment.tokenCount
        contentHash := S.sha256 (Services.encodeUtf8 segment.text)
        locator := segment.locator }
  := Chunk.construct_eq_ok_iff

/-- A passage with a visible character and a token makes a chunk. -/
theorem exists_createChunk (S : Services) (documentId : Uuid) (ordinal : ℕ) {segment : Segment}
    (htext : blank segment.text = false) (hcount : 1 ≤ segment.tokenCount) :
  ∃ chunk, S.createChunk documentId ordinal segment = .ok chunk
  := by
  have hfields : firstViolation (ChunkFields.checks
      { id := S.uuid5 chunkNamespace
          (stableKey documentId ordinal (S.sha256 (Services.encodeUtf8 segment.text)))
        documentId
        ordinal
        text := segment.text
        tokenCount := segment.tokenCount
        contentHash := S.sha256 (Services.encodeUtf8 segment.text)
        locator := segment.locator }) = none := by
    apply firstViolation_eq_none_iff.mpr
    simp only [ChunkFields.checks, List.mem_cons, List.not_mem_nil, or_false, forall_eq_or_imp,
      forall_eq, decide_eq_false_iff_not, htext, S.isSha256_sha256, Bool.not_true]
    exact ⟨by omega, trivial, by omega, trivial⟩
  use ⟨_, hfields⟩
  apply createChunk_eq_ok_iff.mpr rfl

theorem exists_createChunks (S : Services) (documentId : Uuid) (ordinal : ℕ)
    {segments : List Segment}
    (h : ∀ segment ∈ segments, blank segment.text = false ∧ 1 ≤ segment.tokenCount) :
  ∃ chunks, S.createChunks documentId ordinal segments = .ok chunks
  := by
  induction segments generalizing ordinal with
  | nil => exact ⟨[], rfl⟩
  | cons segment segments ih =>
      rw [List.forall_mem_cons] at h
      obtain ⟨chunk, hchunk⟩ := exists_createChunk S documentId ordinal h.1.1 h.1.2
      obtain ⟨chunks, hchunks⟩ := ih (ordinal + 1) h.2
      use chunk :: chunks
      apply bind_cons_eq_ok_iff.mpr
      exact ⟨chunk, chunks, liftDomain_eq_ok_iff.mpr hchunk, hchunks, rfl⟩

/-- The passages of chunks are those they are made of. -/
theorem map_segment_createChunks {ordinal : ℕ} {segments : List Segment} {chunks : List Chunk}
    (h : S.createChunks documentId ordinal segments = .ok chunks) :
  chunks.map Chunk.segment = segments
  := by
  induction segments generalizing ordinal chunks with
  | nil =>
      cases h
      rfl
  | cons segment segments ih =>
      obtain ⟨chunk, rest, hchunk, hrest, rfl⟩ := bind_cons_eq_ok_iff.mp h
      rw [List.map_cons, ih hrest]
      rw [liftDomain_eq_ok_iff, createChunk_eq_ok_iff] at hchunk
      rw [Chunk.segment, hchunk]

/-- A chunk of a document is made of a passage. -/
theorem exists_createChunk_of_mem {ordinal : ℕ} {segments : List Segment} {chunks : List Chunk}
    (h : S.createChunks documentId ordinal segments = .ok chunks) {chunk : Chunk}
    (hchunk : chunk ∈ chunks) :
  ∃ ordinal segment, S.createChunk documentId ordinal segment = .ok chunk
  := by
  induction segments generalizing ordinal chunks with
  | nil =>
      cases h
      cases hchunk
  | cons segment segments ih =>
      obtain ⟨first, rest, hfirst, hrest, rfl⟩ := bind_cons_eq_ok_iff.mp h
      rcases List.mem_cons.mp hchunk with rfl | hchunk
      · exact ⟨ordinal, segment, liftDomain_eq_ok_iff.mp hfirst⟩
      · apply ih hrest hchunk

/-- Chunks are numbered one after the other. -/
theorem map_ordinal_createChunks {ordinal : ℕ} {segments : List Segment} {chunks : List Chunk}
    (h : S.createChunks documentId ordinal segments = .ok chunks) :
  chunks.map (fun chunk => chunk.ordinal)
    = (List.range' ordinal chunks.length).map (Nat.cast : ℕ → ℤ)
  := by
  induction segments generalizing ordinal chunks with
  | nil =>
      cases h
      rfl
  | cons segment segments ih =>
      obtain ⟨chunk, rest, hchunk, hrest, rfl⟩ := bind_cons_eq_ok_iff.mp h
      rw [List.map_cons, ih hrest, List.length_cons, List.range'_succ, List.map_cons]
      rw [liftDomain_eq_ok_iff, createChunk_eq_ok_iff] at hchunk
      rw [hchunk]

theorem nodup_ordinal_createChunks {ordinal : ℕ} {segments : List Segment} {chunks : List Chunk}
    (h : S.createChunks documentId ordinal segments = .ok chunks) :
  (chunks.map fun chunk => chunk.ordinal).Nodup
  := by
  rw [map_ordinal_createChunks h]
  apply List.Nodup.map Nat.cast_injective List.nodup_range'

end Chunks

/-- The chunkers make chunks of all normalized sections, and the locator of every chunk says
where it comes from. -/
theorem DocumentChunker.chunk_located (self : DocumentChunker) (U : UnicodeData) (S : Services)
    (documentId : Uuid) {sections : List ExtractedSection} {normalized : List NormalizedSection}
    (h : normalizeSections U sections = .ok normalized) :
  ∃ chunks, self.chunk U S documentId normalized = .ok chunks
    ∧ ∀ chunk ∈ chunks, chunk.text ≠ [] ∧ chunk.segment.Located normalized
      ∧ (self.strategy = .sectionAware → chunk.segment.WithinSection normalized)
  := by
  have htiled : Tiled 0 normalized :=
    tiled_normalizeSectionsFrom (normalizeSections_eq_ok_iff.mp h).1
  obtain ⟨segments, hsegments⟩ := self.exists_segments U htiled
  have hlocated : ∀ segment ∈ segments, segment.Located normalized ∧ 1 ≤ segment.tokenCount
      ∧ (self.strategy = .sectionAware → segment.WithinSection normalized) := by
    intro segment hsegment
    apply located_of_mem_segments htiled hsegments hsegment
  obtain ⟨chunks, hchunks⟩ := exists_createChunks S documentId 0
    (fun segment hsegment =>
      ⟨(hlocated segment hsegment).1.blank_text, (hlocated segment hsegment).2.1⟩)
  refine ⟨chunks, chunk_eq_ok_iff.mpr ⟨segments, hsegments, hchunks⟩, ?_⟩
  intro chunk hchunk
  have hmem : chunk.segment ∈ segments := by
    rw [← map_segment_createChunks hchunks]
    apply List.mem_map_of_mem hchunk
  obtain ⟨hchunk_located, -, hwithin⟩ := hlocated _ hmem
  exact ⟨hchunk_located.text_ne_nil, hchunk_located, hwithin⟩

/-- The sections of a sample document after normalization. -/
def sampleNormalized : List NormalizedSection :=
  [⟨"alpha beta".toList, ⟨⟨["A".toList], none, 0, 10⟩, by decide⟩⟩,
    ⟨"gamma".toList, ⟨⟨["B".toList], none, 12, 17⟩, by decide⟩⟩]

theorem DocumentChunker.chunk_located_sample :
  ∃ chunks, DocumentChunker.chunk ⟨.fixedWindow, ⟨2, 1, by decide⟩⟩ .ascii .sample
      Services.sampleDocumentId sampleNormalized = .ok chunks
    ∧ ∀ chunk ∈ chunks, chunk.text ≠ [] ∧ chunk.segment.Located sampleNormalized
      ∧ (ChunkingStrategy.fixedWindow = .sectionAware →
        chunk.segment.WithinSection sampleNormalized)
  := by
  have h : normalizeSections .ascii
      [.ofText "alpha beta\n".toList ["A".toList] (by decide),
        .ofText "\ngamma\n".toList ["B".toList] (by decide)] = .ok sampleNormalized := by
    decide +kernel
  apply chunk_located ⟨.fixedWindow, ⟨2, 1, by decide⟩⟩ .ascii .sample Services.sampleDocumentId h

end KnowledgeSearch

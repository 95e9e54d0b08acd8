import KnowledgeSearch.Ingestion.Locators

/-!
# What content preparation keeps

Normalization keeps the visible characters of a section, `visible_normalizeDocumentText`. The
ranges of the passages of normalized sections are in order and contain every visible character,
once if the windows do not overlap. A document from which sections were extracted therefore
does not run out of text on the way.
-/

namespace KnowledgeSearch

/-! ### The ranges of passages -/

/-- The range of characters of a passage. -/
def Segment.range (segment : Segment) : ℤ × ℤ :=
  (segment.locator.charStart, segment.locator.charEnd)

/-- The range of a window of a text that starts at `offset`. -/
def TextWindow.rangeFrom (offset : ℤ) (window : TextWindow) : ℤ × ℤ :=
  (offset + window.charStart, offset + window.charEnd)

section Passages

variable {β : Type} {f : Segment → β} {g : ℤ → TextWindow → β}

/-- What is read off the passages of windows of the whole document is read off the windows. -/
theorem map_fixedWindowSegments {sections : List NormalizedSection}
    (hfg : ∀ {part offset window segment}, Segment.Of part offset window segment →
      f segment = g offset window)
    {windows : List TextWindow} {segments : List Segment}
    (h : fixedWindowSegments sections windows = .ok segments) :
  segments.map f = windows.map (g 0)
  := by
  induction windows generalizing segments with
  | nil =>
      cases h
      rfl
  | cons window windows ih =>
      obtain ⟨part, -, h⟩ := bind_eq_ok_iff.mp h
      obtain ⟨segment, rest, hsegment, hrest, rfl⟩ := bind_cons_eq_ok_iff.mp h
      rw [List.map_cons, List.map_cons, ih hrest, hfg (of_segmentOf hsegment)]

theorem map_sectionSegments {part : NormalizedSection}
    (hfg : ∀ {part offset window segment}, Segment.Of part offset window segment →
      f segment = g offset window)
    {windows : List TextWindow} {segments : List Segment}
    (h : sectionSegments part windows = .ok segments) :
  segments.map f = windows.map (g part.locator.charStart)
  := by
  induction windows generalizing segments with
  | nil =>
      cases h
      rfl
  | cons window windows ih =>
      obtain ⟨segment, rest, hsegment, hrest, rfl⟩ := bind_cons_eq_ok_iff.mp h
      rw [List.map_cons, List.map_cons, ih hrest, hfg (of_segmentOf hsegment)]

theorem map_sectionAwareSegments {U : UnicodeData} {configuration : WindowConfiguration}
    (hfg : ∀ {part offset window segment}, Segment.Of part offset window segment →
      f segment = g offset window)
    {sections : List NormalizedSection} {segments : List Segment}
    (h : sectionAwareSegments U configuration sections = .ok segments) :
  segments.map f = sections.flatMap fun part =>
    (textWindows U configuration part.text).map (g part.locator.charStart)
  := by
  induction sections generalizing segments with
  | nil =>
      cases h
      rfl
  | cons part sections ih =>
      obtain ⟨first, hfirst, h⟩ := bind_eq_ok_iff.mp h
      obtain ⟨rest, hrest, h⟩ := bind_eq_ok_iff.mp h
      cases h
      rw [List.map_append, List.flatMap_cons, ih hrest, map_sectionSegments hfg hfirst]

end Passages

theorem Segment.Of.range_eq {part : NormalizedSection} {offset : ℤ} {window : TextWindow}
    {segment : Segment} (h : segment.Of part offset window) :
  segment.range = window.rangeFrom offset
  := by
  rw [Segment.range, h.charStart, h.charEnd]
  rfl

/-- The ranges of windows of sections are in the relation `r` when those of the windows of one
section are, and those in different sections are. -/
theorem pairwise_sectionRanges {U : UnicodeData} {configuration : WindowConfiguration}
    {sections : List NormalizedSection} {cursor : ℕ} (h : Tiled cursor sections)
    {r : ℤ × ℤ → ℤ × ℤ → Prop}
    (hwithin : ∀ part ∈ sections, (textWindows U configuration part.text).Pairwise
      fun window window' => r (window.rangeFrom part.locator.charStart)
        (window'.rangeFrom part.locator.charStart))
    (hacross : ∀ a b : ℤ × ℤ, a.1 < a.2 → a.2 < b.1 → r a b) :
  (sections.flatMap fun part =>
    (textWindows U configuration part.text).map
      (TextWindow.rangeFrom part.locator.charStart)).Pairwise r
  := by
  rw [List.pairwise_flatMap]
  constructor
  · intro part hpart
    apply List.pairwise_map.mpr (hwithin part hpart)
  · apply h.pairwise.imp_of_mem
    intro part part' hpart hpart' hlt a ha b hb
    obtain ⟨window, hwindow, rfl⟩ := List.mem_map.mp ha
    obtain ⟨window', -, rfl⟩ := List.mem_map.mp hb
    have hcut := cut_of_mem_textWindows hwindow
    obtain ⟨before, after, -, hstart, hend⟩ := h.exists_join_eq hpart
    have hwindow_lt := hcut.lt
    have hwindow_le := hcut.le
    apply hacross
    · show part.locator.charStart + window.charStart < part.locator.charStart + window.charEnd
      omega
    · show part.locator.charStart + window.charEnd < part'.locator.charStart + window'.charStart
      omega

/-- Passages start one after the other. -/
theorem DocumentChunker.pairwise_charStart {self : DocumentChunker} {U : UnicodeData}
    {sections : List NormalizedSection} (h : Tiled 0 sections) {segments : List Segment}
    (hsegments : self.segments U sections = .ok segments) :
  (segments.map Segment.range).Pairwise fun a b => a.1 < b.1
  := by
  obtain ⟨strategy, configuration⟩ := self
  cases strategy with
  | fixedWindow =>
      rw [map_fixedWindowSegments Segment.Of.range_eq hsegments]
      apply List.pairwise_map.mpr
      apply (pairwise_charStart_textWindows U configuration _).imp
      intro window window' hlt
      show (0 : ℤ) + window.charStart < 0 + window'.charStart
      omega
  | sectionAware =>
      rw [map_sectionAwareSegments Segment.Of.range_eq hsegments]
      apply pairwise_sectionRanges h
      · intro part _
        apply (pairwise_charStart_textWindows U configuration _).imp
        intro window window' hlt
        show part.locator.charStart + window.charStart < part.locator.charStart + window'.charStart
        omega
      · intro a b ha hb
        omega

/-- Passages are disjoint when windows do not overlap. -/
theorem DocumentChunker.pairwise_charEnd {self : DocumentChunker} {U : UnicodeData}
    {sections : List NormalizedSection} (h : Tiled 0 sections) {segments : List Segment}
    (hsegments : self.segments U sections = .ok segments)
    (hoverlap : self.configuration.overlap = 0) :
  (segments.map Segment.range).Pairwise fun a b => a.2 ≤ b.1
  := by
  obtain ⟨strategy, configuration⟩ := self
  cases strategy with
  | fixedWindow =>
      rw [map_fixedWindowSegments Segment.Of.range_eq hsegments]
      apply List.pairwise_map.mpr
      apply (pairwise_charEnd_textWindows hoverlap _).imp
      intro window window' hle
      show (0 : ℤ) + window.charEnd ≤ 0 + window'.charStart
      omega
  | sectionAware =>
      rw [map_sectionAwareSegments Segment.Of.range_eq hsegments]
      apply pairwise_sectionRanges h
      · intro part _
        apply (pairwise_charEnd_textWindows hoverlap _).imp
        intro window window' hle
        show part.locator.charStart + window.charEnd ≤ part.locator.charStart + window'.charStart
        omega
      · intro a b _ hb
        omega

/-- Every visible character of a section is part of a passage. -/
theorem DocumentChunker.exists_range {self : DocumentChunker} {U : UnicodeData}
    {sections : List NormalizedSection} (h : Tiled 0 sections) {segments : List Segment}
    (hsegments : self.segments U sections = .ok segments) {part : NormalizedSection}
    (hpart : part ∈ sections) {i : ℕ} {c : Char} (hget : part.text[i]? = some c)
    (hspace : isSpace c = false) :
  ∃ range ∈ segments.map Segment.range,
    range.1 ≤ part.locator.charStart + i ∧ part.locator.charStart + i < range.2
  := by
  obtain ⟨strategy, configuration⟩ := self
  cases strategy with
  | fixedWindow =>
      obtain ⟨before, after, hjoin, hstart, -⟩ := h.exists_join_eq hpart
      have hi := (List.getElem?_eq_some_iff.mp hget).1
      have hwhole : (joinSections sections)[before.length + i]? = some c := by
        rw [hjoin, List.append_assoc, List.getElem?_append_right (Nat.le_add_right _ _),
          Nat.add_sub_cancel_left, List.getElem?_append_left hi, hget]
      obtain ⟨window, hwindow, hle, hlt⟩ :=
        exists_mem_textWindows U configuration hwhole hspace
      rw [map_fixedWindowSegments Segment.Of.range_eq hsegments]
      refine ⟨_, List.mem_map_of_mem hwindow, ?_, ?_⟩
      · show (0 : ℤ) + window.charStart ≤ _
        omega
      · show _ < (0 : ℤ) + window.charEnd
        omega
  | sectionAware =>
      obtain ⟨window, hwindow, hle, hlt⟩ :=
        exists_mem_textWindows U configuration hget hspace
      rw [map_sectionAwareSegments Segment.Of.range_eq hsegments]
      refine ⟨_, List.mem_flatMap.mpr ⟨part, hpart, List.mem_map_of_mem hwindow⟩, ?_, ?_⟩
      · show part.locator.charStart + window.charStart ≤ _
        omega
      · show _ < part.locator.charStart + window.charEnd
        omega

/-! ### Sections -/

/-- An extracted section has text left after normalization. -/
theorem normalizeDocumentText_ne_nil (U : UnicodeData) (part : ExtractedSection) :
  normalizeDocumentText U part.text ≠ []
  := by
  rw [ne_eq, normalizeDocumentText_eq_nil_iff, U.blank_nfc part.text part.text_not_blank]
  exact Bool.false_ne_true

/-- The visible characters of normalized sections are those of the sections' normal forms. -/
theorem map_visible_normalizeSectionsFrom {U : UnicodeData} {cursor : ℕ}
    {sections : List ExtractedSection} {normalized : List NormalizedSection}
    (h : normalizeSectionsFrom U cursor sections = .ok normalized) :
  normalized.map (fun part => visible part.text)
    = sections.map fun part => visible (U.nfc part.text)
  := by
  induction sections generalizing cursor normalized with
  | nil =>
      cases h
      rfl
  | cons part sections ih =>
      rw [normalizeSectionsFrom, if_neg (normalizeDocumentText_ne_nil U part)] at h
      obtain ⟨locator, rest, -, hrest, rfl⟩ := bind_cons_eq_ok_iff.mp h
      rw [List.map_cons, List.map_cons, ih hrest, visible_normalizeDocumentText]

/-- Sections can be normalized when the entries of their paths are not blank. -/
theorem exists_normalizeSectionsFrom (U : UnicodeData) (cursor : ℕ)
    {sections : List ExtractedSection}
    (h : ∀ part ∈ sections, part.sectionPath.any blank = false) :
  ∃ normalized, normalizeSectionsFrom U cursor sections = .ok normalized
  := by
  induction sections generalizing cursor with
  | nil => exact ⟨[], rfl⟩
  | cons part sections ih =>
      rw [List.forall_mem_cons] at h
      have hfields : firstViolation (SourceLocatorFields.checks
          { sectionPath := part.sectionPath
            pageNumber := part.pageNumber
            charStart := cursor
            charEnd := cursor + (normalizeDocumentText U part.text).length }) = none := by
        apply firstViolation_eq_none_iff.mpr
        simp only [SourceLocatorFields.checks, List.mem_cons, List.not_mem_nil, or_false,
          forall_eq_or_imp, forall_eq, decide_eq_false_iff_not]
        exact ⟨h.1, part.pageNumber_valid, by omega, by omega⟩
      obtain ⟨rest, hrest⟩ := ih (cursor + (normalizeDocumentText U part.text).length + 2) h.2
      rw [normalizeSectionsFrom, if_neg (normalizeDocumentText_ne_nil U part)]
      use ⟨normalizeDocumentText U part.text, ⟨_, hfields⟩⟩ :: rest
      exact bind_eq_ok_iff.mpr ⟨_, liftDomain_eq_ok_iff.mpr (SourceLocator.construct_eq_ok hfields),
        bind_eq_ok_iff.mpr ⟨rest, hrest, rfl⟩⟩

theorem length_normalizeSectionsFrom {U : UnicodeData} {cursor : ℕ}
    {sections : List ExtractedSection} {normalized : List NormalizedSection}
    (h : normalizeSectionsFrom U cursor sections = .ok normalized) :
  normalized.length = sections.length
  := by
  have hlen := congrArg List.length (map_visible_normalizeSectionsFrom h)
  rwa [List.length_map, List.length_map] at hlen

/-- Normalization fails when there are no sections, or with an error of the domain. -/
theorem normalizeSections_eq_error {U : UnicodeData} {sections : List ExtractedSection}
    {e : AppError} (h : normalizeSections U sections = .error e) :
  e = noExtractableText ∨ ∃ domainError, e = .domain domainError
  := by
  have hfrom : ∀ cursor e, normalizeSectionsFrom U cursor sections = .error e →
      ∃ domainError, e = .domain domainError := by
    clear h
    induction sections with
    | nil =>
        intro cursor e h
        cases h
    | cons part sections ih =>
        intro cursor e h
        rw [normalizeSectionsFrom, if_neg (normalizeDocumentText_ne_nil U part)] at h
        rcases bind_eq_error_iff.mp h with h | ⟨locator, -, h⟩
        · apply liftDomain_eq_error h
        · rcases bind_eq_error_iff.mp h with h | ⟨rest, -, h⟩
          · apply ih _ _ h
          · cases h
  rcases bind_eq_error_iff.mp h with h | ⟨normalized, -, h⟩
  · right
    apply hfrom 0 e h
  · left
    split at h
    · cases h
      rfl
    · cases h

/-- The normalized sections of a document have visible characters. -/
theorem exists_visible_of_normalizeSections {U : UnicodeData} {sections : List ExtractedSection}
    {normalized : List NormalizedSection} (h : normalizeSections U sections = .ok normalized) :
  ∃ part ∈ normalized, ∃ (i : ℕ) (c : Char), part.text[i]? = some c ∧ isSpace c = false
  := by
  obtain ⟨hnormalized, hne⟩ := normalizeSections_eq_ok_iff.mp h
  obtain ⟨part, rest, rfl⟩ := List.exists_cons_of_ne_nil hne
  have hvisible := map_visible_normalizeSectionsFrom hnormalized
  cases sections with
  | nil => cases hvisible
  | cons source sections =>
      rw [List.map_cons, List.map_cons, List.cons.injEq] at hvisible
      have hblank := U.blank_nfc source.text source.text_not_blank
      rw [← Bool.not_eq_true, blank_iff_visible, ← hvisible.1] at hblank
      obtain ⟨c, hc⟩ := List.exists_mem_of_ne_nil _ hblank
      rw [mem_visible] at hc
      obtain ⟨i, hi⟩ := List.mem_iff_getElem?.mp hc.1
      exact ⟨part, List.mem_cons_self, i, c, hi, hc.2⟩

/-! ### Chunks -/

/-- The offset lies in the range of the chunk. -/
def Chunk.Contains (chunk : Chunk) (offset : ℤ) : Prop :=
  chunk.locator.charStart ≤ offset ∧ offset < chunk.locator.charEnd

/-- The chunks of normalized sections contain every visible character, are in order, and when
windows do not overlap contain it once. -/
structure Covers (overlap : ℕ) (sections : List NormalizedSection) (chunks : List Chunk) :
    Prop where
  contains : ∀ part ∈ sections, ∀ (i : ℕ) (c : Char), part.text[i]? = some c →
    isSpace c = false → ∃ chunk ∈ chunks, chunk.Contains (part.locator.charStart + i)
  ordered : chunks.Pairwise fun chunk chunk' => chunk.locator.charStart < chunk'.locator.charStart
  unique : overlap = 0 → ∀ (j k : ℕ) (chunk chunk' : Chunk) (offset : ℤ),
    chunks[j]? = some chunk → chunks[k]? = some chunk' → chunk.Contains offset →
      chunk'.Contains offset → j = k

/-- Ranges one after the other have no offset in common. -/
theorem eq_of_contains {chunks : List Chunk}
    (h : chunks.Pairwise fun chunk chunk' => chunk.locator.charEnd ≤ chunk'.locator.charStart)
    {j k : ℕ} {chunk chunk' : Chunk} {offset : ℤ} (hj : chunks[j]? = some chunk)
    (hk : chunks[k]? = some chunk') (hchunk : chunk.Contains offset)
    (hchunk' : chunk'.Contains offset) :
  j = k
  := by
  obtain ⟨hjlen, hj⟩ := List.getElem?_eq_some_iff.mp hj
  obtain ⟨hklen, hk⟩ := List.getElem?_eq_some_iff.mp hk
  obtain ⟨hstart, hend⟩ := hchunk
  obtain ⟨hstart', hend'⟩ := hchunk'
  rcases lt_trichotomy j k with hjk | hjk | hjk
  · have hle := List.pairwise_iff_getElem.mp h j k hjlen hklen hjk
    rw [hj, hk] at hle
    omega
  · apply hjk
  · have hle := List.pairwise_iff_getElem.mp h k j hklen hjlen hjk
    rw [hj, hk] at hle
    omega

theorem covers_of_createChunks {self : DocumentChunker} {U : UnicodeData} {S : Services}
    {documentId : Uuid} {sections : List NormalizedSection} (h : Tiled 0 sections)
    {segments : List Segment} (hsegments : self.segments U sections = .ok segments)
    {chunks : List Chunk} (hchunks : S.createChunks documentId 0 segments = .ok chunks) :
  Covers self.configuration.overlap sections chunks
  := by
  have hranges : segments.map Segment.range
      = chunks.map fun chunk => (chunk.locator.charStart, chunk.locator.charEnd) := by
    rw [← map_segment_createChunks hchunks, List.map_map]
    rfl
  constructor
  · intro part hpart i c hget hspace
    obtain ⟨range, hrange, hcontains⟩ :=
      DocumentChunker.exists_range h hsegments hpart hget hspace
    rw [hranges] at hrange
    obtain ⟨chunk, hchunk, rfl⟩ := List.mem_map.mp hrange
    exact ⟨chunk, hchunk, hcontains⟩
  · have hordered := DocumentChunker.pairwise_charStart h hsegments
    rw [hranges] at hordered
    apply List.pairwise_map.mp hordered
  · intro hoverlap j k chunk chunk' offset hj hk hchunk hchunk'
    have hdisjoint := DocumentChunker.pairwise_charEnd h hsegments hoverlap
    rw [hranges] at hdisjoint
    apply eq_of_contains (List.pairwise_map.mp hdisjoint) hj hk hchunk hchunk'

namespace DocumentContentPreparer

/-- The error of a document none of whose text can be indexed. -/
def noIndexableText : AppError :=
  .ingestion .noExtractableText "The document does not contain text that can be indexed."

/-- Normalized sections are prepared. -/
theorem exists_chunks (self : DocumentContentPreparer) (S : Services) (documentId : Uuid)
    {sections : List ExtractedSection} {normalized : List NormalizedSection}
    (h : normalizeSections self.unicode sections = .ok normalized) :
  ∃ chunks, self.chunker.chunk self.unicode S documentId normalized = .ok chunks
    ∧ chunks ≠ [] ∧ Covers self.chunker.configuration.overlap normalized chunks
  := by
  have htiled : Tiled 0 normalized :=
    tiled_normalizeSectionsFrom (normalizeSections_eq_ok_iff.mp h).1
  obtain ⟨segments, hsegments⟩ := self.chunker.exists_segments self.unicode htiled
  obtain ⟨chunks, hchunks⟩ := exists_createChunks S documentId 0 (fun segment hsegment =>
    have hlocated := DocumentChunker.located_of_mem_segments htiled hsegments hsegment
    ⟨hlocated.1.blank_text, hlocated.2.1⟩)
  have hcovers := covers_of_createChunks htiled hsegments hchunks
  refine ⟨chunks, DocumentChunker.chunk_eq_ok_iff.mpr ⟨segments, hsegments, hchunks⟩, ?_, hcovers⟩
  obtain ⟨part, hpart, i, c, hget, hspace⟩ := exists_visible_of_normalizeSections h
  obtain ⟨chunk, hchunk, -⟩ := hcovers.contains part hpart i c hget hspace
  apply List.ne_nil_of_mem hchunk

/-- Content preparation keeps all text. Normalization keeps the visible characters of the
normal forms of all sections and fails for the entries of section paths only; the chunks
contain each of the visible characters, in order; and there is always a chunk. -/
theorem keeps_text (self : DocumentContentPreparer) (S : Services) (documentId : Uuid) :
  (∀ text, visible (normalizeDocumentText self.unicode text) = visible (self.unicode.nfc text))
    ∧ (∀ sections ≠ [], (∀ part ∈ sections, part.sectionPath.any blank = false) →
      ∃ normalized, normalizeSections self.unicode sections = .ok normalized)
    ∧ (∀ sections normalized, normalizeSections self.unicode sections = .ok normalized →
      normalized.map (fun part => visible part.text)
          = sections.map (fun part => visible (self.unicode.nfc part.text))
        ∧ ∃ chunks, self.chunker.chunk self.unicode S documentId normalized = .ok chunks
          ∧ Covers self.chunker.configuration.overlap normalized chunks)
    ∧ ∀ mediaType source sections, self.extract mediaType source = .ok sections →
      self.prepare S documentId mediaType source ≠ .error noIndexableText
  := by
  refine ⟨visible_normalizeDocumentText self.unicode, ?_, ?_, ?_⟩
  · intro sections hne hpaths
    obtain ⟨normalized, hnormalized⟩ := exists_normalizeSectionsFrom self.unicode 0 hpaths
    refine ⟨normalized, normalizeSections_eq_ok_iff.mpr ⟨hnormalized, ?_⟩⟩
    apply List.ne_nil_of_length_pos
    rw [length_normalizeSectionsFrom hnormalized]
    apply List.length_pos_iff.mpr hne
  · intro sections normalized h
    obtain ⟨chunks, hchunks, -, hcovers⟩ := self.exists_chunks S documentId h
    exact ⟨map_visible_normalizeSectionsFrom (normalizeSections_eq_ok_iff.mp h).1, chunks,
      hchunks, hcovers⟩
  · intro mediaType source sections hextract herror
    rw [prepare, hextract] at herror
    replace herror : (normalizeSections self.unicode sections >>= _) = _ := herror
    cases hnormalize : normalizeSections self.unicode sections with
    | error e =>
        rw [hnormalize] at herror
        cases herror
        rcases normalizeSections_eq_error hnormalize with h | ⟨e, h⟩
        · revert h
          decide
        · cases h
    | ok normalized =>
        obtain ⟨chunks, hchunks, hne, -⟩ := self.exists_chunks S documentId hnormalize
        rw [hnormalize] at herror
        replace herror : (self.chunker.chunk self.unicode S documentId normalized >>= _) = _ :=
          herror
        rw [hchunks] at herror
        replace herror : (if chunks.isEmpty then _ else Except.ok chunks) = _ := herror
        rw [if_neg (by rwa [List.isEmpty_iff])] at herror
        cases herror

/-- A preparer of plain text, whose Markdown parser finds no headings. -/
def sample : DocumentContentPreparer where
  unicode := .ascii
  parseMarkdown _ := []
  readPdf _ := none
  maxPdfPages := 200
  chunker := ⟨.sectionAware, ⟨300, 50, by decide⟩⟩

/-- Two sections, the first below a heading and with white space that is rewritten. -/
def sampleSections : List ExtractedSection :=
  [.ofText "alpha \t beta".toList ["Search".toList] (by decide), .ofText "gamma".toList [] (by decide)]

theorem keeps_text_sample :
  ∃ normalized chunks, normalizeSections sample.unicode sampleSections = .ok normalized
    ∧ normalized.map (fun part => visible part.text) = ["alphabeta".toList, "gamma".toList]
    ∧ sample.chunker.chunk sample.unicode .sample Services.sampleDocumentId normalized = .ok chunks
    ∧ Covers 50 normalized chunks
  := by
  obtain ⟨-, hnormalizes, hkeeps, -⟩ := keeps_text sample .sample Services.sampleDocumentId
  obtain ⟨normalized, hnormalized⟩ := hnormalizes sampleSections (by decide) (by decide)
  obtain ⟨hvisible, chunks, hchunks, hcovers⟩ := hkeeps sampleSections normalized hnormalized
  exact ⟨normalized, chunks, hnormalized, hvisible, hchunks, hcovers⟩

/-! ### Deployments -/

/-- A deployment whose documents are prepared so. -/
def services (self : DocumentContentPreparer) (S : Services) : Services :=
  { S with
    segments := fun mediaType source => do
      let extractedSections ← self.extract mediaType source
      let normalizedSections ← normalizeSections self.unicode extractedSections
      self.chunker.segments self.unicode normalizedSections }

theorem createChunks_services (self : DocumentContentPreparer) (S : Services) (documentId : Uuid)
    (ordinal : ℕ) (segments : List Segment) :
  (self.services S).createChunks documentId ordinal segments
    = S.createChunks documentId ordinal segments
  := by
  induction segments generalizing ordinal with
  | nil => rfl
  | cons segment segments ih =>
      rw [Services.createChunks, Services.createChunks, ih]
      rfl

/-- The deployment prepares documents as the preparer does. -/
theorem prepare_services (self : DocumentContentPreparer) (S : Services) (documentId : Uuid)
    (mediaType : DocumentMediaType) (source : Bytes) :
  (self.services S).prepare documentId mediaType source
    = self.prepare S documentId mediaType source
  := by
  have hsegments : (self.services S).segments mediaType source = (do
      let extractedSections ← self.extract mediaType source
      let normalizedSections ← normalizeSections self.unicode extractedSections
      self.chunker.segments self.unicode normalizedSections) := rfl
  rw [Services.prepare, prepare, hsegments]
  cases self.extract mediaType source with
  | error e => rfl
  | ok sections =>
      show ((normalizeSections self.unicode sections >>= _) >>= _)
        = (normalizeSections self.unicode sections >>= _)
      cases hnormalize : normalizeSections self.unicode sections with
      | error e => rfl
      | ok normalized =>
          have htiled : Tiled 0 normalized :=
            tiled_normalizeSectionsFrom (normalizeSections_eq_ok_iff.mp hnormalize).1
          obtain ⟨segments, hlocated⟩ := self.chunker.exists_segments self.unicode htiled
          show (self.chunker.segments self.unicode normalized >>= _)
            = (self.chunker.chunk self.unicode S documentId normalized >>= _)
          rw [hlocated, DocumentChunker.chunk_eq_of_segments hlocated]
          show ((self.services S).createChunks documentId 0 segments >>= _) = _
          rw [createChunks_services]

end DocumentContentPreparer

end KnowledgeSearch

import KnowledgeSearch.Application.Ingestion
import KnowledgeSearch.Ingestion.Coverage
import KnowledgeSearch.Ingestion.Placement

/-!
# Chunks the database can store

`Chunk.Storable` are the constraints of the table of chunks, by which no text has a null
character. The chunks of a document meet all others. A null character of a document reaches its
chunks unless it is on the first line of a heading of a Markdown document, whose text comes from
the parser, `chunks_storable_iff`.

Two limits of the store are left out: the generated `tsvector` of a text has at most a megabyte, and
the integer columns take numbers below two to the 31.
-/

namespace KnowledgeSearch

open Database (rejectsText)

/-- The constraints of the table of chunks on a row. -/
structure Chunk.Storable (chunk : Chunk) : Prop where
  text_ne_nil : chunk.text ≠ []
  text : rejectsText chunk.text = false
  sectionPath : chunk.locator.sectionPath.any rejectsText = false
  tokenCount : 0 < chunk.tokenCount
  charStart : 0 ≤ chunk.locator.charStart
  charEnd : chunk.locator.charStart ≤ chunk.locator.charEnd
  pageNumber : ∀ pageNumber ∈ chunk.locator.pageNumber, 0 < pageNumber

theorem rejectsText_eq_false_iff {text : Text} :
  rejectsText text = false ↔ '\x00' ∉ text
  := by
  rw [rejectsText, ← Bool.not_eq_true, List.contains_iff_mem]

/-! ### Null characters of sections -/

theorem mem_joinSections {sections : List NormalizedSection} {c : Char} (hc : c ≠ '\n') :
  c ∈ joinSections sections ↔ ∃ part ∈ sections, c ∈ part.text
  := by
  induction sections with
  | nil => simp [joinSections]
  | cons part sections ih =>
      rw [joinSections_cons, List.mem_append, List.exists_mem_cons_iff, ← ih]
      split
      · rename_i hnil
        simp [hnil, joinSections]
      · simp [hc]

/-- A visible character is part of a chunk when it is part of a section. -/
theorem exists_mem_chunk_iff {self : DocumentChunker} {U : UnicodeData} {S : Services}
    {documentId : Uuid} {sections : List NormalizedSection} (h : Tiled 0 sections)
    {segments : List Segment} (hsegments : self.segments U sections = .ok segments)
    {chunks : List Chunk} (hchunks : S.createChunks documentId 0 segments = .ok chunks) {c : Char}
    (hc : isSpace c = false) :
  (∃ chunk ∈ chunks, c ∈ chunk.text) ↔ ∃ part ∈ sections, c ∈ part.text
  := by
  have hlocated : ∀ chunk ∈ chunks, chunk.segment.Located sections := by
    intro chunk hchunk
    have hmem : chunk.segment ∈ segments := by
      rw [← map_segment_createChunks hchunks]
      apply List.mem_map_of_mem hchunk
    apply (DocumentChunker.located_of_mem_segments h hsegments hmem).1
  have hfeed : c ≠ '\n' := by
    rintro rfl
    cases hc
  constructor
  · rintro ⟨chunk, hchunk, hmem⟩
    obtain ⟨charStart, charEnd, -, -, -, -, htext⟩ := (hlocated chunk hchunk).text
    rw [← mem_joinSections hfeed]
    replace htext : chunk.text = sliceText (joinSections sections) charStart charEnd := htext
    rw [htext, mem_sliceText] at hmem
    obtain ⟨i, -, -, hget⟩ := hmem
    apply List.mem_of_getElem? hget
  · rintro ⟨part, hpart, hmem⟩
    obtain ⟨i, hget⟩ := List.mem_iff_getElem?.mp hmem
    have hcovers := covers_of_createChunks h hsegments hchunks
    obtain ⟨chunk, hchunk, hstart, hend⟩ := hcovers.contains part hpart i c hget hc
    refine ⟨chunk, hchunk, ?_⟩
    obtain ⟨charStart, charEnd, hcharStart, hcharEnd, -, -, htext⟩ := (hlocated chunk hchunk).text
    obtain ⟨before, after, hjoin, hpart_start, -⟩ := h.exists_join_eq hpart
    have hi := (List.getElem?_eq_some_iff.mp hget).1
    replace hcharStart : chunk.locator.charStart = charStart := hcharStart
    replace hcharEnd : chunk.locator.charEnd = charEnd := hcharEnd
    replace htext : chunk.text = sliceText (joinSections sections) charStart charEnd := htext
    rw [htext, mem_sliceText]
    refine ⟨before.length + i, by omega, by omega, ?_⟩
    rw [hjoin, List.append_assoc, List.getElem?_append_right (Nat.le_add_right _ _),
      Nat.add_sub_cancel_left, List.getElem?_append_left hi, hget]

/-- A null character is left by normalization. -/
theorem null_mem_normalizeDocumentText {U : UnicodeData} {text : Text} :
  '\x00' ∈ normalizeDocumentText U text ↔ '\x00' ∈ text
  := by
  have hspace : isSpace '\x00' = false := by decide
  rw [← U.null_mem_nfc text]
  have hiff := visible_normalizeDocumentText U text
  have hleft := mem_visible (c := '\x00') (s := normalizeDocumentText U text)
  rw [hiff, mem_visible] at hleft
  simpa [hspace] using hleft.symm

theorem null_mem_normalizeSectionsFrom {U : UnicodeData} {cursor : ℕ}
    {sections : List ExtractedSection} {normalized : List NormalizedSection}
    (h : normalizeSectionsFrom U cursor sections = .ok normalized) :
  (∃ part ∈ normalized, '\x00' ∈ part.text) ↔ ∃ part ∈ sections, '\x00' ∈ part.text
  := by
  induction sections generalizing cursor normalized with
  | nil =>
      cases h
      simp
  | cons part sections ih =>
      rw [normalizeSectionsFrom, if_neg (normalizeDocumentText_ne_nil U part)] at h
      obtain ⟨locator, rest, -, hrest, rfl⟩ := bind_cons_eq_ok_iff.mp h
      rw [List.exists_mem_cons_iff, List.exists_mem_cons_iff, ih hrest,
        null_mem_normalizeDocumentText]

/-! ### Null characters of Markdown documents -/

/-- A line is part of a slice when no heading starts there. -/
theorem exists_slice_iff {lines : List Text} {headings : List Heading}
    (h : headings.Pairwise fun heading heading' => heading.first < heading'.first) {i : ℕ}
    (hi : i < lines.length) :
  (∃ slice ∈ allSlices lines headings, slice.first ≤ i ∧ i < slice.last)
    ↔ ∀ heading ∈ headings, heading.first ≠ i
  := by
  constructor
  · rintro ⟨slice, hslice, hrange⟩ heading hheading rfl
    apply excluded_of_mem_allSlices h hslice hheading hrange
  · intro hnone
    obtain ⟨slice, hslice, hnearest, hfirst, hends⟩ := exists_mem_allSlices lines h i
    refine ⟨slice, hslice, ?_, ?_⟩
    · rw [hfirst]
      cases hown : slice.heading with
      | none => apply Nat.zero_le
      | some own =>
          rw [hown] at hnearest
          have hne := hnone own hnearest.1
          have hle := hnearest.2.1
          show own.first + 1 ≤ i
          omega
    · rcases hends with hends | ⟨heading, -, hends, hlt⟩
      · rw [hends]
        apply hi
      · rw [hends]
        apply hlt

/-- Lists related member by member. -/
theorem exists_mem_iff_of_forall₂ {α β : Type} {r : α → β → Prop} {P : α → Prop} {Q : β → Prop}
    {l : List α} {l' : List β} (h : List.Forall₂ r l l')
    (hiff : ∀ a b, a ∈ l → r a b → (P a ↔ Q b)) :
  (∃ b ∈ l', Q b) ↔ ∃ a ∈ l, P a
  := by
  induction h with
  | nil => simp
  | cons hr _ ih =>
      rw [List.exists_mem_cons_iff, List.exists_mem_cons_iff, hiff _ _ List.mem_cons_self hr, ih]
      intro a b ha hab
      apply hiff a b (List.mem_cons_of_mem _ ha) hab

/-- A slice is below one of the headings. -/
theorem exists_heading_of_mem_allSlices {lines : List Text} {headings : List Heading}
    {slice : Slice} (h : slice ∈ allSlices lines headings) {heading : Heading}
    (hheading : slice.heading = some heading) :
  heading ∈ headings
  := by
  rcases List.mem_cons.mp h with rfl | h
  · cases hheading
  · obtain ⟨own, hmem, hown, -⟩ := exists_of_mem_headingSlices h
    rw [hheading, Option.some_inj] at hown
    rw [hown]
    apply hmem

/-- The sections of a Markdown document have the null characters of its lines, but for those
on the first lines of headings. -/
theorem MarkdownExtractor.null_mem_iff {parse : Text → List Token} {source : Bytes} {text : Text}
    {hs : List Heading} {sections : List ExtractedSection} (htext : readUtf8 source = .ok text)
    (hhs : headings (parse text) = .ok hs) (h : extract parse source = .ok sections)
    (hordered : hs.Pairwise fun heading heading' => heading.first < heading'.first)
    (hnull : ∀ heading ∈ hs, '\x00' ∉ heading.text) :
  (∃ part ∈ sections, '\x00' ∈ part.text)
    ↔ ∃ i line, (splitlines text)[i]? = some line ∧ '\x00' ∈ line
      ∧ ∀ heading ∈ hs, heading.first ≠ i
  := by
  obtain ⟨text', hs', htext', hhs', hyields⟩ := extract_eq_ok h
  rw [htext, Except.ok.injEq] at htext'
  subst htext'
  rw [hhs, Except.ok.injEq] at hhs'
  subst hhs'
  have hslices : (∃ part ∈ sections, '\x00' ∈ part.text)
      ↔ ∃ slice ∈ slices (splitlines text) hs,
        '\x00' ∈ sliceLines (splitlines text) slice.first slice.last := by
    rw [exists_mem_iff_of_forall₂ hyields]
    intro slice part hslice hpart
    rw [hpart.text, Slice.text]
    cases hown : slice.heading with
    | none => rfl
    | some own =>
        have hmem := exists_heading_of_mem_allSlices (List.mem_of_mem_filter hslice) hown
        simp [hnull own hmem]
  rw [hslices]
  constructor
  · rintro ⟨slice, hslice, hmem⟩
    obtain ⟨i, line, hfirst, hlast, hline, hmem⟩ := mem_sliceLines.mp hmem
    refine ⟨i, line, hline, hmem, ?_⟩
    apply (exists_slice_iff hordered (List.getElem?_eq_some_iff.mp hline).1).mp
    exact ⟨slice, List.mem_of_mem_filter hslice, hfirst, hlast⟩
  · rintro ⟨i, line, hline, hmem, hnone⟩
    obtain ⟨slice, hslice, hfirst, hlast⟩ :=
      (exists_slice_iff hordered (List.getElem?_eq_some_iff.mp hline).1).mpr hnone
    have hnull_mem : '\x00' ∈ sliceLines (splitlines text) slice.first slice.last :=
      mem_sliceLines.mpr ⟨i, line, hfirst, hlast, hline, hmem⟩
    refine ⟨slice, List.mem_filter.mpr ⟨hslice, ?_⟩, hnull_mem⟩
    rw [Slice.isEmitted, Bool.not_eq_true']
    apply blank_eq_false_iff.mpr ⟨_, hnull_mem, rfl⟩

/-! ### Section paths -/

/-- The section paths of Markdown sections consist of headings. -/
theorem mem_sectionPath_headingSections {lines : List Text} {stack : List (ℕ × Text)}
    {headings : List Heading} {part : ExtractedSection}
    (h : part ∈ headingSections lines stack headings) {entry : Text}
    (hentry : entry ∈ part.sectionPath) :
  entry ∈ stack.map Prod.snd ∨ ∃ heading ∈ headings, entry = heading.text
  := by
  induction headings generalizing stack with
  | nil => cases h
  | cons heading rest ih =>
      have hstack : ∀ entry ∈ (pushHeading stack heading).map Prod.snd,
          entry ∈ stack.map Prod.snd ∨ entry = heading.text := by
        intro entry hentry
        rw [pushHeading, List.map_cons, List.mem_cons] at hentry
        rcases hentry with rfl | hentry
        · right
          rfl
        · left
          apply ((List.dropWhile_sublist _).map Prod.snd).subset hentry
      have hlater : part ∈ headingSections lines (pushHeading stack heading) rest →
          entry ∈ stack.map Prod.snd ∨ ∃ other ∈ heading :: rest, entry = other.text := by
        intro hpart
        rcases ih hpart with hmem | ⟨other, hother, htext⟩
        · rcases hstack entry hmem with hmem | htext
          · apply Or.inl hmem
          · exact Or.inr ⟨heading, List.mem_cons_self, htext⟩
        · exact Or.inr ⟨other, List.mem_cons_of_mem _ hother, htext⟩
      rw [headingSections] at h
      split at h
      · apply hlater h
      · rcases List.mem_cons.mp h with rfl | h
        · rcases hstack entry (List.mem_reverse.mp hentry) with hmem | htext
          · apply Or.inl hmem
          · exact Or.inr ⟨heading, List.mem_cons_self, htext⟩
        · apply hlater h

/-- The section paths of a Markdown document consist of stripped contents of tokens. -/
theorem MarkdownExtractor.mem_sectionPath {parse : Text → List Token} {source : Bytes}
    {sections : List ExtractedSection} (h : extract parse source = .ok sections)
    {part : ExtractedSection} (hpart : part ∈ sections) {entry : Text}
    (hentry : entry ∈ part.sectionPath) :
  ∃ text, ∃ token ∈ parse text, entry = strip token.content
  := by
  obtain ⟨text, -, h⟩ := bind_eq_ok_iff.mp h
  split at h
  · cases h
  · obtain ⟨hs, hhs, h⟩ := bind_eq_ok_iff.mp h
    have hheading : (∃ heading ∈ hs, entry = heading.text) →
        ∃ text, ∃ token ∈ parse text, entry = strip token.content := by
      rintro ⟨heading, hmem, rfl⟩
      use text
      apply (exists_token_of_mem_headings hhs hmem).1
    split at h
    · cases h
      rw [List.mem_singleton.mp hpart] at hentry
      cases hentry
    · cases h
      rcases List.mem_append.mp hpart with hpart | hpart
      · rw [preambleSections] at hpart
        split at hpart
        · cases hpart
        · rw [List.mem_singleton.mp hpart] at hentry
          cases hentry
      · rcases mem_sectionPath_headingSections hpart hentry with hmem | hmem
        · cases hmem
        · apply hheading hmem

theorem mem_strip {c : Char} {s : Text} (h : c ∈ strip s) :
  c ∈ s
  := by
  apply (List.dropWhile_sublist isSpace).subset
  apply (List.rdropWhile_prefix isSpace _).subset h

theorem sectionPath_normalizeSectionsFrom {U : UnicodeData} {cursor : ℕ}
    {sections : List ExtractedSection} {normalized : List NormalizedSection}
    (h : normalizeSectionsFrom U cursor sections = .ok normalized) {part : NormalizedSection}
    (hpart : part ∈ normalized) :
  ∃ source ∈ sections, part.locator.sectionPath = source.sectionPath
  := by
  induction sections generalizing cursor normalized with
  | nil =>
      cases h
      cases hpart
  | cons source sections ih =>
      rw [normalizeSectionsFrom, if_neg (normalizeDocumentText_ne_nil U source)] at h
      obtain ⟨locator, rest, hlocator, hrest, rfl⟩ := bind_cons_eq_ok_iff.mp h
      rcases List.mem_cons.mp hpart with rfl | hpart
      · rw [liftDomain_eq_ok_iff, SourceLocator.construct_eq_ok_iff] at hlocator
        refine ⟨source, List.mem_cons_self, ?_⟩
        simp only [hlocator]
      · obtain ⟨source', hsource', hpath⟩ := ih hrest hpart
        exact ⟨source', List.mem_cons_of_mem _ hsource', hpath⟩

/-! ### The finalising transaction -/

theorem addChunks_ne_database {db : Database} {chunks : List Chunk}
    (h : ∀ chunk ∈ chunks, chunk.Storable) :
  db.addChunks chunks ≠ .error .database
  := by
  have hnone : ¬(chunks.any fun chunk =>
      rejectsText chunk.text || chunk.locator.sectionPath.any rejectsText) = true := by
    rw [List.any_eq_true]
    rintro ⟨chunk, hchunk, hrejects⟩
    rw [(h chunk hchunk).text, (h chunk hchunk).sectionPath] at hrejects
    cases hrejects
  rw [Database.addChunks, if_neg hnone]
  intro herror
  split at herror
  · cases herror
  · split at herror
    · split at herror
      · cases herror
      · cases herror
    · cases herror

theorem finaliseRows_ne_database {clock : Clock} {job : IngestionJob} {document : Document} :
  finaliseRows clock job document ≠ .error .database
  := by
  intro h
  rcases bind_eq_error_iff.mp h with h | ⟨ready, -, h⟩
  · obtain ⟨e, he⟩ := liftDomain_eq_error h
    cases he
  · rcases bind_eq_error_iff.mp h with h | ⟨succeeded, -, h⟩
    · obtain ⟨e, he⟩ := liftDomain_eq_error h
      cases he
    · cases h

/-- The finalising transaction does not fail for the content of storable chunks. -/
theorem finalise_ne_database {clock : Clock} {documentId jobId : Uuid} {db : Database}
    {chunks : List Chunk} (h : ∀ chunk ∈ chunks, chunk.Storable) :
  finalise clock documentId jobId chunks db ≠ .error .database
  := by
  intro herror
  rw [finalise] at herror
  split at herror
  · cases herror
  · cases herror
  · rcases bind_eq_error_iff.mp herror with herror | ⟨rows, -, herror⟩
    · apply finaliseRows_ne_database herror
    · rcases bind_eq_error_iff.mp herror with herror | ⟨db₁, -, herror⟩
      · apply addChunks_ne_database h herror
      · rcases bind_eq_error_iff.mp herror with herror | ⟨db₂, -, herror⟩
        · cases Database.saveDocument_eq_error herror
        · rcases bind_eq_error_iff.mp herror with herror | ⟨db₃, -, herror⟩
          · cases Database.saveJob_eq_error herror
          · cases herror

namespace DocumentContentPreparer

/-- The null characters of a document are on the first lines of headings. -/
def HidesNull (self : DocumentContentPreparer) (mediaType : DocumentMediaType) (source : Bytes) :
    Prop :=
  match mediaType with
  | .text => ∀ text, readUtf8 source = .ok text → '\x00' ∉ text
  | .markdown => ∀ text hs, readUtf8 source = .ok text →
      headings (self.parseMarkdown text) = .ok hs →
        ∀ i line, (splitlines text)[i]? = some line → '\x00' ∈ line →
          ∃ heading ∈ hs, heading.first = i
  | .pdf => True

/-- The headings of a document are in order, and the parser replaces null characters. -/
structure ReplacesNull (preparer : DocumentContentPreparer) : Prop where
  pairwise_first : ∀ text hs, headings (preparer.parseMarkdown text) = .ok hs →
    hs.Pairwise fun heading heading' => heading.first < heading'.first
  null_not_mem : ∀ text, ∀ token ∈ preparer.parseMarkdown text, '\x00' ∉ token.content

theorem ReplacesNull.null_not_mem_strip {self : DocumentContentPreparer} (h : self.ReplacesNull)
    {text : Text} {token : Token} (htoken : token ∈ self.parseMarkdown text) :
  '\x00' ∉ strip token.content
  := by
  intro hmem
  apply h.null_not_mem text token htoken (mem_strip hmem)

/-- The sections of a document have a null character unless all are hidden. -/
theorem null_mem_extract_iff {self : DocumentContentPreparer} (hparser : self.ReplacesNull)
    {mediaType : DocumentMediaType} (hmedia : mediaType ≠ .pdf) {source : Bytes}
    {sections : List ExtractedSection} (h : self.extract mediaType source = .ok sections) :
  (∃ part ∈ sections, '\x00' ∈ part.text) ↔ ¬self.HidesNull mediaType source
  := by
  cases mediaType with
  | pdf => exact absurd rfl hmedia
  | text =>
      obtain ⟨text, htext, h⟩ := bind_eq_ok_iff.mp h
      split at h
      · cases h
      · cases h
        simp [HidesNull, htext, ExtractedSection.ofText]
  | markdown =>
      obtain ⟨text, hs, htext, hhs, -⟩ := MarkdownExtractor.extract_eq_ok h
      rw [MarkdownExtractor.null_mem_iff htext hhs h (hparser.pairwise_first text hs hhs)]
      · have hhides : self.HidesNull .markdown source
            ↔ ∀ i line, (splitlines text)[i]? = some line → '\x00' ∈ line →
              ∃ heading ∈ hs, heading.first = i := by
          constructor
          · intro hall
            apply hall text hs htext hhs
          · intro hall text' hs' htext' hhs'
            rw [htext, Except.ok.injEq] at htext'
            subst htext'
            rw [hhs, Except.ok.injEq] at hhs'
            subst hhs'
            apply hall
        rw [hhides]
        push Not
        rfl
      · intro heading hheading
        obtain ⟨⟨token, htoken, hheading_text⟩, -⟩ := exists_token_of_mem_headings hhs hheading
        rw [hheading_text]
        apply hparser.null_not_mem_strip htoken

/-- The section paths of a document have no null character. -/
theorem null_not_mem_sectionPath {self : DocumentContentPreparer} (hparser : self.ReplacesNull)
    {mediaType : DocumentMediaType} (hmedia : mediaType ≠ .pdf) {source : Bytes}
    {sections : List ExtractedSection} (h : self.extract mediaType source = .ok sections)
    {part : ExtractedSection} (hpart : part ∈ sections) {entry : Text}
    (hentry : entry ∈ part.sectionPath) :
  '\x00' ∉ entry
  := by
  cases mediaType with
  | pdf => exact absurd rfl hmedia
  | text =>
      obtain ⟨text, -, h⟩ := bind_eq_ok_iff.mp h
      split at h
      · cases h
      · cases h
        rw [List.mem_singleton.mp hpart] at hentry
        cases hentry
  | markdown =>
      obtain ⟨text, token, htoken, rfl⟩ := MarkdownExtractor.mem_sectionPath h hpart hentry
      apply hparser.null_not_mem_strip htoken

/-- The chunks of a text or Markdown document can all be stored exactly when its null
characters are on the first lines of headings. -/
theorem chunks_storable_iff {self : DocumentContentPreparer} (hparser : self.ReplacesNull)
    {S : Services} {documentId : Uuid} {mediaType : DocumentMediaType} (hmedia : mediaType ≠ .pdf)
    {source : Bytes} {chunks : List Chunk}
    (h : self.prepare S documentId mediaType source = .ok chunks) :
  ((∀ chunk ∈ chunks, chunk.Storable)
      ∧ (chunks.map fun chunk => (chunk.documentId, chunk.ordinal)).Nodup
      ∧ ∀ clock jobId db, finalise clock documentId jobId chunks db ≠ .error .database)
    ↔ self.HidesNull mediaType source
  := by
  obtain ⟨sections, hsections, h⟩ := bind_eq_ok_iff.mp h
  obtain ⟨normalized, hnormalized, h⟩ := bind_eq_ok_iff.mp h
  obtain ⟨chunks', hchunks, h⟩ := bind_eq_ok_iff.mp h
  have hsame : chunks' = chunks := by
    split at h
    · cases h
    · apply Except.ok.inj h
  subst hsame
  obtain ⟨segments, hsegments, hchunks⟩ := DocumentChunker.chunk_eq_ok_iff.mp hchunks
  have hfrom := (normalizeSections_eq_ok_iff.mp hnormalized).1
  have htiled := tiled_normalizeSectionsFrom hfrom
  have hnull : (∃ chunk ∈ chunks', '\x00' ∈ chunk.text) ↔ ¬self.HidesNull mediaType source := by
    rw [exists_mem_chunk_iff htiled hsegments hchunks rfl, null_mem_normalizeSectionsFrom hfrom,
      null_mem_extract_iff hparser hmedia hsections]
  constructor
  · rintro ⟨hstorable, -, -⟩
    by_contra hnot
    obtain ⟨chunk, hchunk, hmem⟩ := hnull.mpr hnot
    apply rejectsText_eq_false_iff.mp (hstorable chunk hchunk).text hmem
  · intro hhides
    have hstorable : ∀ chunk ∈ chunks', chunk.Storable := by
      intro chunk hchunk
      have hmem : chunk.segment ∈ segments := by
        rw [← map_segment_createChunks hchunks]
        apply List.mem_map_of_mem hchunk
      obtain ⟨hlocated, hcount, -⟩ :=
        DocumentChunker.located_of_mem_segments htiled hsegments hmem
      obtain ⟨i, part, hpart, -, hpath, -, -⟩ := hlocated.source
      have hlocator := firstViolation_eq_none_iff.mp chunk.locator.valid
      simp only [SourceLocatorFields.checks, List.mem_cons, List.not_mem_nil, or_false,
        forall_eq_or_imp, forall_eq, decide_eq_false_iff_not, not_lt] at hlocator
      refine ⟨hlocated.text_ne_nil, ?_, ?_, hcount, hlocator.2.2.1, hlocator.2.2.2, ?_⟩
      · rw [rejectsText_eq_false_iff]
        intro hmem
        apply hnull.mp ⟨chunk, hchunk, hmem⟩ hhides
      · replace hpath : chunk.locator.sectionPath = part.locator.sectionPath := hpath
        rw [hpath, List.any_eq_false]
        intro entry hentry
        obtain ⟨source', hsource', hsame⟩ :=
          sectionPath_normalizeSectionsFrom hfrom (List.mem_of_getElem? hpart)
        rw [hsame] at hentry
        rw [Bool.not_eq_true, rejectsText_eq_false_iff]
        apply null_not_mem_sectionPath hparser hmedia hsections hsource' hentry
      · intro pageNumber hpage
        have hpositive := hlocator.2.1
        rw [hpage, Option.any_some, decide_eq_false_iff_not] at hpositive
        omega
    refine ⟨hstorable, ?_, fun clock jobId db => finalise_ne_database hstorable⟩
    have hnodup := nodup_ordinal_createChunks hchunks
    apply List.Nodup.of_map Prod.snd
    rw [List.map_map]
    apply hnodup

theorem replacesNull_sample :
  sample.ReplacesNull
  := by
  constructor
  · intro text hs h
    cases h
    apply List.Pairwise.nil
  · intro text token htoken
    cases htoken

/-- The chunk of the text `alpha`. -/
def sampleChunk : Chunk :=
  ⟨⟨Services.sampleChunkId, Services.sampleDocumentId, 0, "alpha".toList, 1,
    Services.sampleDigest, Services.sampleLocator⟩, by decide⟩

theorem chunks_storable_iff_sample :
  (∀ chunk ∈ [sampleChunk], chunk.Storable)
    ∧ ([sampleChunk].map fun chunk => (chunk.documentId, chunk.ordinal)).Nodup
    ∧ ∀ clock jobId db,
      finalise clock Services.sampleDocumentId jobId [sampleChunk] db ≠ .error .database
  := by
  have h : sample.prepare .sample Services.sampleDocumentId .text Services.sampleContent
      = .ok [sampleChunk] := by
    decide +kernel
  apply (chunks_storable_iff replacesNull_sample (by decide) h).mpr
  intro text htext
  have hread : readUtf8 Services.sampleContent = .ok "alpha".toList := by
    decide +kernel
  rw [hread, Except.ok.injEq] at htext
  rw [← htext]
  decide

/-- A text of one null character is prepared, but its chunk cannot be stored. -/
theorem not_storable_sampleNull :
  ∃ chunk, sample.prepare .sample Services.sampleDocumentId .text [0] = .ok [chunk]
    ∧ chunk.text = ['\x00'] ∧ ¬chunk.Storable
    ∧ Database.initial.addChunks [chunk] = .error .database
  := by
  use ⟨⟨0, Services.sampleDocumentId, 0, ['\x00'], 1, List.replicate 64 '0',
    ⟨⟨[], none, 0, 1⟩, by decide⟩⟩, by decide⟩
  refine ⟨by decide +kernel, rfl, ?_, if_pos (by decide)⟩
  intro h
  have htext := h.text
  revert htext
  decide

end DocumentContentPreparer

end KnowledgeSearch

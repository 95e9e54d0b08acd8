import KnowledgeSearch.Ingestion.Locators
import KnowledgeSearch.Ingestion.Preparation

/-!
# Pages

The passages of a portable document begin on the page their locator names: `Segment.Located.exists_page`.
-/

namespace KnowledgeSearch

/-- The sections are those of the pages with text. -/
theorem mem_pageSections_iff {pageNumber : ℕ} {pages : List (Option Text)}
    {sections : List ExtractedSection} (h : pageSections pageNumber pages = .ok sections)
    {part : ExtractedSection} :
  part ∈ sections ↔ ∃ (k : ℕ) (text : Text), pages[k]? = some (some text) ∧ blank text = false
    ∧ part.toExtractedSectionFields = ⟨text, [], some (pageNumber + k + 1 : ℕ)⟩
  := by
  induction pages generalizing pageNumber sections with
  | nil =>
      cases h
      simp
  | cons page pages ih =>
      cases page with
      | none => cases h
      | some text =>
          obtain ⟨rest, hrest, h⟩ := bind_eq_ok_iff.mp h
          have hrest' : part ∈ rest ↔ ∃ (k : ℕ) (text' : Text), (some text :: pages)[k + 1]? = some (some text')
              ∧ blank text' = false
              ∧ part.toExtractedSectionFields = ⟨text', [], some (pageNumber + (k + 1) + 1 : ℕ)⟩ := by
            rw [ih hrest]
            simp only [List.getElem?_cons_succ, Nat.add_right_comm, Nat.add_assoc]
          have hsplit : (∃ (k : ℕ) (text' : Text), (some text :: pages)[k]? = some (some text')
                ∧ blank text' = false
                ∧ part.toExtractedSectionFields = ⟨text', [], some (pageNumber + k + 1 : ℕ)⟩)
              ↔ (blank text = false
                  ∧ part.toExtractedSectionFields = ⟨text, [], some (pageNumber + 1 : ℕ)⟩)
                ∨ part ∈ rest := by
            rw [hrest']
            constructor
            · rintro ⟨k, text', hk, hspec⟩
              cases k with
              | zero =>
                  left
                  obtain rfl := Option.some.inj (Option.some.inj hk)
                  apply hspec
              | succ k => exact Or.inr ⟨k, text', hk, hspec⟩
            · rintro (hspec | ⟨k, text', hspec⟩)
              · exact ⟨0, text, rfl, hspec⟩
              · exact ⟨k + 1, text', hspec⟩
          rw [hsplit]
          split at h
          · rename_i hblank
            cases h
            simp [hblank]
          · rename_i hblank
            cases h
            rw [List.mem_cons]
            apply or_congr_left
            rw [Nat.cast_succ]
            constructor
            · rintro rfl
              exact ⟨Bool.eq_false_iff.mpr hblank, rfl⟩
            · rintro ⟨-, hfields⟩
              cases part
              cases hfields
              rfl

/-- A normalized section is the normalized text of a section. -/
theorem exists_of_mem_normalizeSectionsFrom {U : UnicodeData} {cursor : ℕ}
    {sections : List ExtractedSection} {normalized : List NormalizedSection}
    (h : normalizeSectionsFrom U cursor sections = .ok normalized) {part : NormalizedSection}
    (hpart : part ∈ normalized) :
  ∃ source ∈ sections, part.text = normalizeDocumentText U source.text
    ∧ part.locator.sectionPath = source.sectionPath ∧ part.locator.pageNumber = source.pageNumber
  := by
  induction sections generalizing cursor normalized with
  | nil =>
      cases h
      cases hpart
  | cons source sections ih =>
      rw [normalizeSectionsFrom] at h
      split at h
      · obtain ⟨source', hsource, hspec⟩ := ih h hpart
        use source', List.mem_cons_of_mem _ hsource
      · obtain ⟨locator, rest, hlocator, hrest, rfl⟩ := bind_cons_eq_ok_iff.mp h
        rw [liftDomain_eq_ok_iff, SourceLocator.construct_eq_ok_iff] at hlocator
        rcases List.mem_cons.mp hpart with rfl | hpart
        · use source, List.mem_cons_self, rfl
          simp only [hlocator, and_self]
        · obtain ⟨source', hsource, hspec⟩ := ih hrest hpart
          use source', List.mem_cons_of_mem _ hsource

/-- The text begins in another, and goes on to its end at least unless it is a part of it. -/
def BeginsIn (excerpt text : Text) : Prop :=
  ∃ k < text.length, excerpt <+: text.drop k ∨ text.drop k <+: excerpt

/-- A passage begins in the section that contains its first character. -/
theorem Segment.Located.beginsIn {sections : List NormalizedSection} {segment : Segment}
    (h : segment.Located sections) (htiled : Tiled 0 sections) :
  ∃ part ∈ sections, part.locator.sectionPath = segment.locator.sectionPath
    ∧ part.locator.pageNumber = segment.locator.pageNumber ∧ BeginsIn segment.text part.text
    ∧ (segment.WithinSection sections → segment.text <:+: part.text)
  := by
  obtain ⟨i, part, hi, hcontains, hpath, hpage, hunique⟩ := h.source
  obtain ⟨charStart, charEnd, hstart, hend, hlt, hle, htext⟩ := h.text
  have hpart := List.mem_of_getElem? hi
  obtain ⟨before, after, hjoin, hpartStart, hpartEnd⟩ := htiled.exists_join_eq hpart
  obtain ⟨hlow, hhigh⟩ := hcontains
  have hk : ∃ k, charStart = before.length + k ∧ k < part.text.length := by
    use charStart - before.length
    constructor
    · omega
    · omega
  obtain ⟨k, rfl, hk⟩ := hk
  have hslice : segment.text = (part.text.drop k ++ after).take (charEnd - (before.length + k)) := by
    rw [htext, sliceText, List.drop_take, hjoin, List.append_assoc, List.drop_length_add_append,
      List.drop_append_of_le_length (Nat.le_of_lt hk)]
  refine ⟨part, hpart, hpath.symm, hpage.symm, ⟨k, hk, ?_⟩, ?_⟩
  · rw [hslice]
    by_cases hlength : charEnd - (before.length + k) ≤ (part.text.drop k).length
    · left
      rw [List.take_append_of_le_length hlength]
      apply List.take_prefix
    · right
      rw [List.take_append, List.take_of_length_le (by omega)]
      apply List.prefix_append
  · rintro ⟨part', hpart', hcontains', hwithin⟩
    obtain ⟨j, hj⟩ := List.mem_iff_getElem?.mp hpart'
    obtain rfl := hunique j part' hj hcontains'
    obtain rfl := Option.some.inj (hi.symm.trans hj)
    rw [hslice, List.take_append_of_le_length]
    · exact (List.take_prefix _ _).isInfix.trans (List.drop_suffix k part.text).isInfix
    · rw [List.length_drop]
      omega

/-- The reader can read the file, and finds this text on a page. -/
structure DocumentContentPreparer.Page (self : DocumentContentPreparer) (source : Bytes) (pageNumber : ℕ)
    (text : Text) : Prop where
  pages : ∃ document, self.readPdf source = some document ∧ document.isEncrypted = false
    ∧ document.pages.length ≤ self.maxPdfPages ∧ document.pages[pageNumber]? = some (some text)

/-- The sections of a portable document are its pages with text, numbered from one on. -/
theorem DocumentContentPreparer.exists_page {self : DocumentContentPreparer} {source : Bytes}
    {sections : List ExtractedSection} (h : self.extract .pdf source = .ok sections)
    {part : ExtractedSection} (hpart : part ∈ sections) :
  ∃ pageNumber : ℕ, self.Page source pageNumber part.text ∧ part.pageNumber = some (pageNumber + 1 : ℕ)
    ∧ part.sectionPath = []
  := by
  simp only [extract, PdfExtractor.extract] at h
  split at h
  · cases h
  rename_i document hread
  split at h
  · cases h
  rename_i hencrypted
  split at h
  · cases h
  rename_i hlimit
  obtain ⟨sections', hsections, h⟩ := bind_eq_ok_iff.mp h
  split at h
  · cases h
  obtain rfl := Except.ok.inj h
  obtain ⟨k, text, hk, -, hfields⟩ := (mem_pageSections_iff hsections).mp hpart
  rw [Nat.zero_add] at hfields
  rw [hfields]
  refine ⟨k, ⟨document, hread, Bool.eq_false_iff.mpr hencrypted, Nat.le_of_not_lt hlimit, hk⟩, rfl, rfl⟩

/-- A passage of a portable document begins on the page its locator names, and is part of it if it keeps
to its section. -/
theorem Segment.Located.exists_page {self : DocumentContentPreparer} {source : Bytes}
    {sections : List ExtractedSection} {normalized : List NormalizedSection} {segment : Segment}
    (h : segment.Located normalized) (hsections : self.extract .pdf source = .ok sections)
    (hnormalized : normalizeSections self.unicode sections = .ok normalized) :
  ∃ (pageNumber : ℕ) (text : Text), self.Page source pageNumber text
    ∧ segment.locator.pageNumber = some (pageNumber + 1 : ℕ) ∧ segment.locator.sectionPath = []
    ∧ BeginsIn segment.text (normalizeDocumentText self.unicode text)
    ∧ (segment.WithinSection normalized → segment.text <:+: normalizeDocumentText self.unicode text)
  := by
  have hfrom := (normalizeSections_eq_ok_iff.mp hnormalized).1
  obtain ⟨part, hpart, hpath, hnumber, hbegins, hwithin⟩ := h.beginsIn (tiled_normalizeSectionsFrom hfrom)
  obtain ⟨section', hsection, htext, hpath', hnumber'⟩ := exists_of_mem_normalizeSectionsFrom hfrom hpart
  obtain ⟨pageNumber, hpage, hnumber'', hpath''⟩ := self.exists_page hsections hsection
  refine ⟨pageNumber, section'.text, hpage, ?_, ?_, ?_, ?_⟩
  · rw [← hnumber, hnumber', hnumber'']
  · rw [← hpath, hpath', hpath'']
  · rw [← htext]
    apply hbegins
  · rw [← htext]
    apply hwithin

end KnowledgeSearch

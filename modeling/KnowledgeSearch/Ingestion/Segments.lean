import KnowledgeSearch.Ingestion.Preparation
import KnowledgeSearch.Ingestion.Windows

/-!
# The passages of normalized sections

`DocumentChunker.segments` are the passages a chunker makes chunks of. The chunker creates a
chunk as soon as it has located its passage; when all passages can be located, its chunks are
those of the list of passages, numbered from zero, `chunk_eq_of_segments`. Those of normalized
sections can be located, since such sections follow one another in the whole text with two
line feeds between them, `Tiled`.
-/

namespace KnowledgeSearch

/-! ### Passages -/

/-- The passages of windows of the whole document. -/
def fixedWindowSegments (sections : List NormalizedSection) :
    List TextWindow → Except AppError (List Segment)
  | [] => .ok []
  | window :: windows => do
      let sourceSection ← sectionAtOffset sections window.charStart
      let segment ← segmentOf sourceSection 0 window
      let segments ← fixedWindowSegments sections windows
      .ok (segment :: segments)

/-- The passages of windows of a section. -/
def sectionSegments (part : NormalizedSection) :
    List TextWindow → Except AppError (List Segment)
  | [] => .ok []
  | window :: windows => do
      let segment ← segmentOf part part.locator.charStart window
      let segments ← sectionSegments part windows
      .ok (segment :: segments)

/-- The passages of the windows of each section. -/
def sectionAwareSegments (U : UnicodeData) (configuration : WindowConfiguration) :
    List NormalizedSection → Except AppError (List Segment)
  | [] => .ok []
  | part :: sections => do
      let segments ← sectionSegments part (textWindows U configuration part.text)
      let rest ← sectionAwareSegments U configuration sections
      .ok (segments ++ rest)

/-- The passages of which a chunker makes chunks. -/
def DocumentChunker.segments (self : DocumentChunker) (U : UnicodeData)
    (sections : List NormalizedSection) : Except AppError (List Segment) :=
  match self.strategy with
  | .fixedWindow =>
      fixedWindowSegments sections (textWindows U self.configuration (joinSections sections))
  | .sectionAware => sectionAwareSegments U self.configuration sections

/-! ### The chunks of passages -/

section Chunks

variable {S : Services} {documentId : Uuid}

/-- The chunks of two lists of passages, one after the other. -/
theorem createChunks_append (ordinal : ℕ) (segments segments' : List Segment) :
  S.createChunks documentId ordinal (segments ++ segments')
    = (do
      let chunks ← S.createChunks documentId ordinal segments
      let chunks' ← S.createChunks documentId (ordinal + segments.length) segments'
      .ok (chunks ++ chunks'))
  := by
  induction segments generalizing ordinal with
  | nil =>
      rw [List.nil_append, List.length_nil, Nat.add_zero]
      cases S.createChunks documentId ordinal segments' with
      | error e => rfl
      | ok chunks' => rfl
  | cons segment segments ih =>
      have hlen : ordinal + (segments.length + 1) = ordinal + 1 + segments.length := by omega
      rw [List.cons_append, Services.createChunks, Services.createChunks, ih, List.length_cons, hlen]
      cases liftDomain (S.createChunk documentId ordinal segment) with
      | error e => rfl
      | ok chunk =>
          cases S.createChunks documentId (ordinal + 1) segments with
          | error e => rfl
          | ok chunks =>
              cases S.createChunks documentId (ordinal + 1 + segments.length) segments' with
              | error e => rfl
              | ok chunks' => rfl

theorem length_createChunks {ordinal : ℕ} {segments : List Segment} {chunks : List Chunk}
    (h : S.createChunks documentId ordinal segments = .ok chunks) :
  chunks.length = segments.length
  := by
  induction segments generalizing ordinal chunks with
  | nil =>
      cases h
      rfl
  | cons segment segments ih =>
      obtain ⟨chunk, rest, -, hrest, rfl⟩ := bind_cons_eq_ok_iff.mp h
      rw [List.length_cons, List.length_cons, ih hrest]

theorem fixedWindowChunks_eq {sections : List NormalizedSection} {windows : List TextWindow}
    {segments : List Segment} (h : fixedWindowSegments sections windows = .ok segments)
    (ordinal : ℕ) :
  fixedWindowChunks S documentId sections ordinal windows
    = S.createChunks documentId ordinal segments
  := by
  induction windows generalizing ordinal segments with
  | nil =>
      cases h
      rfl
  | cons window windows ih =>
      obtain ⟨part, hpart, h⟩ := bind_eq_ok_iff.mp h
      obtain ⟨segment, rest, hsegment, hrest, rfl⟩ := bind_cons_eq_ok_iff.mp h
      rw [fixedWindowChunks, hpart, Services.createChunks, ← ih hrest]
      show (segmentOf part 0 window >>= _) = _
      rw [hsegment]
      rfl

theorem foldlM_appendChunk_eq {part : NormalizedSection} {windows : List TextWindow}
    {segments : List Segment} (h : sectionSegments part windows = .ok segments)
    (chunks : List Chunk) :
  windows.foldlM (appendChunk S documentId part) chunks
    = (do
      let rest ← S.createChunks documentId chunks.length segments
      .ok (chunks ++ rest))
  := by
  induction windows generalizing chunks segments with
  | nil =>
      cases h
      rw [Services.createChunks]
      show Except.ok chunks = Except.ok (chunks ++ [])
      rw [List.append_nil]
  | cons window windows ih =>
      obtain ⟨segment, rest, hsegment, hrest, rfl⟩ := bind_cons_eq_ok_iff.mp h
      rw [List.foldlM_cons, appendChunk, hsegment, Services.createChunks]
      show ((liftDomain (S.createChunk documentId chunks.length segment) >>= _) >>= _) = _
      cases liftDomain (S.createChunk documentId chunks.length segment) with
      | error e => rfl
      | ok chunk =>
          show windows.foldlM (appendChunk S documentId part) (chunks ++ [chunk]) = _
          rw [ih hrest, List.length_append, List.length_singleton]
          show _ = ((S.createChunks documentId (chunks.length + 1) rest >>= _) >>= _)
          cases S.createChunks documentId (chunks.length + 1) rest with
          | error e => rfl
          | ok rest =>
              show Except.ok (chunks ++ [chunk] ++ rest) = Except.ok (chunks ++ chunk :: rest)
              rw [List.append_assoc, List.singleton_append]

theorem foldlM_sections_eq {U : UnicodeData} {configuration : WindowConfiguration}
    {sections : List NormalizedSection} {segments : List Segment}
    (h : sectionAwareSegments U configuration sections = .ok segments) (chunks : List Chunk) :
  sections.foldlM (fun chunks part =>
      (textWindows U configuration part.text).foldlM (appendChunk S documentId part) chunks) chunks
    = (do
      let rest ← S.createChunks documentId chunks.length segments
      .ok (chunks ++ rest))
  := by
  induction sections generalizing chunks segments with
  | nil =>
      cases h
      rw [Services.createChunks]
      show Except.ok chunks = Except.ok (chunks ++ [])
      rw [List.append_nil]
  | cons part sections ih =>
      obtain ⟨new, hnew, h⟩ := bind_eq_ok_iff.mp h
      obtain ⟨rest, hrest, h⟩ := bind_eq_ok_iff.mp h
      cases h
      rw [List.foldlM_cons, foldlM_appendChunk_eq hnew, createChunks_append]
      cases hchunks : S.createChunks documentId chunks.length new with
      | error e => rfl
      | ok made =>
          show sections.foldlM _ (chunks ++ made) = _
          rw [ih hrest, List.length_append, length_createChunks hchunks]
          show _ = ((S.createChunks documentId (chunks.length + new.length) rest >>= _) >>= _)
          cases S.createChunks documentId (chunks.length + new.length) rest with
          | error e => rfl
          | ok rest =>
              show Except.ok (chunks ++ made ++ rest) = Except.ok (chunks ++ (made ++ rest))
              rw [List.append_assoc]

/-- When the passages can be located, the chunks are made of them. -/
theorem DocumentChunker.chunk_eq_of_segments {self : DocumentChunker} {U : UnicodeData}
    {sections : List NormalizedSection} {segments : List Segment}
    (h : self.segments U sections = .ok segments) :
  self.chunk U S documentId sections = S.createChunks documentId 0 segments
  := by
  obtain ⟨strategy, configuration⟩ := self
  cases strategy with
  | fixedWindow => apply fixedWindowChunks_eq h
  | sectionAware =>
      apply (foldlM_sections_eq h []).trans
      show (S.createChunks documentId 0 segments >>= _) = _
      cases S.createChunks documentId 0 segments with
      | error e => rfl
      | ok chunks => rfl

theorem exists_fixedWindowSegments {sections : List NormalizedSection} {windows : List TextWindow}
    {ordinal : ℕ} {chunks : List Chunk}
    (h : fixedWindowChunks S documentId sections ordinal windows = .ok chunks) :
  ∃ segments, fixedWindowSegments sections windows = .ok segments
  := by
  induction windows generalizing ordinal chunks with
  | nil => exact ⟨[], rfl⟩
  | cons window windows ih =>
      obtain ⟨part, hpart, h⟩ := bind_eq_ok_iff.mp h
      obtain ⟨segment, hsegment, h⟩ := bind_eq_ok_iff.mp h
      obtain ⟨chunk, -, h⟩ := bind_eq_ok_iff.mp h
      obtain ⟨rest, hrest, -⟩ := bind_eq_ok_iff.mp h
      obtain ⟨segments, hsegments⟩ := ih hrest
      use segment :: segments
      exact bind_eq_ok_iff.mpr ⟨part, hpart, bind_eq_ok_iff.mpr ⟨segment, hsegment,
        bind_eq_ok_iff.mpr ⟨segments, hsegments, rfl⟩⟩⟩

theorem exists_sectionSegments {part : NormalizedSection} {windows : List TextWindow}
    {chunks chunks' : List Chunk}
    (h : windows.foldlM (appendChunk S documentId part) chunks = .ok chunks') :
  ∃ segments, sectionSegments part windows = .ok segments
  := by
  induction windows generalizing chunks with
  | nil => exact ⟨[], rfl⟩
  | cons window windows ih =>
      rw [List.foldlM_cons] at h
      obtain ⟨next, hnext, h⟩ := bind_eq_ok_iff.mp h
      obtain ⟨segment, hsegment, -⟩ := bind_eq_ok_iff.mp hnext
      obtain ⟨segments, hsegments⟩ := ih h
      use segment :: segments
      exact bind_eq_ok_iff.mpr ⟨segment, hsegment,
        bind_eq_ok_iff.mpr ⟨segments, hsegments, rfl⟩⟩

theorem exists_sectionAwareSegments {U : UnicodeData} {configuration : WindowConfiguration}
    {sections : List NormalizedSection} {chunks chunks' : List Chunk}
    (h : sections.foldlM (fun chunks part =>
      (textWindows U configuration part.text).foldlM (appendChunk S documentId part) chunks) chunks
        = .ok chunks') :
  ∃ segments, sectionAwareSegments U configuration sections = .ok segments
  := by
  induction sections generalizing chunks with
  | nil => exact ⟨[], rfl⟩
  | cons part sections ih =>
      rw [List.foldlM_cons] at h
      obtain ⟨next, hnext, h⟩ := bind_eq_ok_iff.mp h
      obtain ⟨segments, hsegments⟩ := exists_sectionSegments hnext
      obtain ⟨rest, hrest⟩ := ih h
      use segments ++ rest
      exact bind_eq_ok_iff.mpr ⟨segments, hsegments, bind_eq_ok_iff.mpr ⟨rest, hrest, rfl⟩⟩

/-- A chunker that makes chunks of sections located their passages, and its chunks are made of
them. -/
theorem DocumentChunker.chunk_eq_ok_iff {self : DocumentChunker} {U : UnicodeData}
    {sections : List NormalizedSection} {chunks : List Chunk} :
  self.chunk U S documentId sections = .ok chunks
    ↔ ∃ segments, self.segments U sections = .ok segments
      ∧ S.createChunks documentId 0 segments = .ok chunks
  := by
  constructor
  · intro h
    have hsegments : ∃ segments, self.segments U sections = .ok segments := by
      obtain ⟨strategy, configuration⟩ := self
      cases strategy with
      | fixedWindow => apply exists_fixedWindowSegments h
      | sectionAware => apply exists_sectionAwareSegments h
    obtain ⟨segments, hsegments⟩ := hsegments
    use segments, hsegments
    rw [← chunk_eq_of_segments hsegments, h]
  · rintro ⟨segments, hsegments, h⟩
    rw [chunk_eq_of_segments hsegments, h]

end Chunks

end KnowledgeSearch

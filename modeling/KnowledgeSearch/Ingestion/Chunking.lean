import KnowledgeSearch.Foundations.Scanning
import KnowledgeSearch.Ingestion.Normalization
import KnowledgeSearch.Ingestion.Pipeline

/-!
# Chunking

A text is divided into tokens, and its windows consist of a number of successive tokens each.
`FixedWindowChunker` makes chunks of the windows of the whole document, `SectionAwareChunker`
of those of each section.
-/

namespace KnowledgeSearch

/-- A section after normalization, with its place in the normalized document. -/
structure NormalizedSection where
  text : Text
  locator : SourceLocator
  deriving DecidableEq

/-! ### Tokens -/

/-- The number of characters with which a word goes on after one of its characters, by the
pattern `\w*(?:[-'][\w]+)*`. -/
def wordLength (U : UnicodeData) : Text → ℕ
  | [] => 0
  | c :: s =>
      if U.isWord c then wordLength U s + 1
      else if (c == '-' || c == '\'') && s.head?.any U.isWord then wordLength U s + 1
      else 0

/-- The length of the match of `TOKEN_PATTERN` at the start of a text: a word, or a single
character that is neither part of a word nor white space. -/
def tokenLength (U : UnicodeData) : Text → ℕ
  | [] => 0
  | c :: s =>
      if U.isWord c then wordLength U s + 1
      else if isSpace c then 0
      else 1

/-- `TOKEN_PATTERN.finditer(text)`. -/
def tokens (U : UnicodeData) (text : Text) : List Span :=
  allMatches (tokenLength U) text

/-! ### Windows of a text -/

structure TextWindow where
  text : Text
  tokenCount : ℕ
  charStart : ℕ
  charEnd : ℕ

/-- The number of tokens of a window, and the number it shares with the one before. -/
structure WindowConfiguration where
  size : ℕ
  overlap : ℕ
  overlap_lt_size : overlap < size

/-- `_validate_window_configuration`. -/
def validateWindowConfiguration (size overlap : ℤ) : Except AppError WindowConfiguration :=
  if hsize : size < 1 then .error (.value "chunk size must be greater than zero")
  else if hoverlap : overlap < 0 then .error (.value "chunk overlap must not be negative")
  else if h : size ≤ overlap then .error (.value "chunk overlap must be smaller than chunk size")
  else .ok ⟨size.toNat, overlap.toNat, by omega⟩

/-- The window of successive tokens of a text. -/
def textWindow (text : Text) (window : List Span) : TextWindow :=
  let charStart := (window.head?.map Span.start).getD 0
  let charEnd := (window.getLast?.map Span.stop).getD 0
  { text := strip (sliceText text charStart charEnd)
    tokenCount := window.length
    charStart
    charEnd }

/-- `_windows`. -/
def textWindows (U : UnicodeData) (configuration : WindowConfiguration) (text : Text) :
    List TextWindow :=
  (windows configuration.size (configuration.size - configuration.overlap) (tokens U text)).map
    (textWindow text)

/-! ### Chunkers -/

/-- The whole text of a document. -/
def joinSections (sections : List NormalizedSection) : Text :=
  List.intercalate ['\n', '\n'] (sections.map NormalizedSection.text)

/-- The first section that starts at the offset or before. -/
def firstAtOffset (charOffset : ℕ) : List NormalizedSection → Except AppError NormalizedSection
  | [] => .error (.value "no source section exists for chunk offset")
  | part :: sections =>
      if part.locator.charStart ≤ charOffset then .ok part
      else firstAtOffset charOffset sections

/-- `_section_at_offset`. -/
def sectionAtOffset (sections : List NormalizedSection) (charOffset : ℕ) :
    Except AppError NormalizedSection :=
  firstAtOffset charOffset sections.reverse

/-- The passage of a window whose text starts at `offset`, with the section path and the page
number of a section. -/
def segmentOf (part : NormalizedSection) (offset : ℤ) (window : TextWindow) :
    Except AppError Segment := do
  let locator ← liftDomain (SourceLocator.construct
    { sectionPath := part.locator.sectionPath
      pageNumber := part.locator.pageNumber
      charStart := offset + window.charStart
      charEnd := offset + window.charEnd })
  .ok ⟨window.text, window.tokenCount, locator⟩

/-- The chunks of windows of the whole document, numbered from `ordinal` on. -/
def fixedWindowChunks (S : Services) (documentId : Uuid) (sections : List NormalizedSection) :
    ℕ → List TextWindow → Except AppError (List Chunk)
  | _, [] => .ok []
  | ordinal, window :: windows => do
      let sourceSection ← sectionAtOffset sections window.charStart
      let segment ← segmentOf sourceSection 0 window
      let chunk ← liftDomain (S.createChunk documentId ordinal segment)
      let chunks ← fixedWindowChunks S documentId sections (ordinal + 1) windows
      .ok (chunk :: chunks)

/-- `FixedWindowChunker.chunk`. -/
def FixedWindowChunker.chunk (U : UnicodeData) (configuration : WindowConfiguration)
    (S : Services) (documentId : Uuid) (sections : List NormalizedSection) :
    Except AppError (List Chunk) :=
  fixedWindowChunks S documentId sections 0 (textWindows U configuration (joinSections sections))

/-- The chunks made so far and one more. -/
def appendChunk (S : Services) (documentId : Uuid) (part : NormalizedSection)
    (chunks : List Chunk) (window : TextWindow) : Except AppError (List Chunk) := do
  let segment ← segmentOf part part.locator.charStart window
  let chunk ← liftDomain (S.createChunk documentId chunks.length segment)
  .ok (chunks ++ [chunk])

/-- `SectionAwareChunker.chunk`. -/
def SectionAwareChunker.chunk (U : UnicodeData) (configuration : WindowConfiguration)
    (S : Services) (documentId : Uuid) (sections : List NormalizedSection) :
    Except AppError (List Chunk) :=
  sections.foldlM (fun chunks part =>
    (textWindows U configuration part.text).foldlM (appendChunk S documentId part) chunks)
    []

inductive ChunkingStrategy where
  | fixedWindow
  | sectionAware
  deriving DecidableEq

/-- A chunking strategy and its configuration. -/
structure DocumentChunker where
  strategy : ChunkingStrategy
  configuration : WindowConfiguration

/-- The chunks of a document. -/
def DocumentChunker.chunk (self : DocumentChunker) (U : UnicodeData) (S : Services)
    (documentId : Uuid) (sections : List NormalizedSection) : Except AppError (List Chunk) :=
  match self.strategy with
  | .fixedWindow => FixedWindowChunker.chunk U self.configuration S documentId sections
  | .sectionAware => SectionAwareChunker.chunk U self.configuration S documentId sections

end KnowledgeSearch

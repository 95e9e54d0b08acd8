import KnowledgeSearch.Ingestion.Chunking
import KnowledgeSearch.Ingestion.Extraction

/-!
# The preparation of documents

`DocumentContentPreparer.prepare` extracts the sections of a document, normalizes them and
makes chunks of them. `DocumentContentPreparer.services` is a deployment that prepares its
documents so.
-/

namespace KnowledgeSearch

/-- The normalized sections, the first of which starts at `cursor`. -/
def normalizeSectionsFrom (U : UnicodeData) :
    ℕ → List ExtractedSection → Except AppError (List NormalizedSection)
  | _, [] => .ok []
  | cursor, part :: sections =>
      let text := normalizeDocumentText U part.text
      if text = [] then normalizeSectionsFrom U cursor sections
      else do
        let locator ← liftDomain (SourceLocator.construct
          { sectionPath := part.sectionPath
            pageNumber := part.pageNumber
            charStart := cursor
            charEnd := cursor + text.length })
        let rest ← normalizeSectionsFrom U (cursor + text.length + 2) sections
        .ok (⟨text, locator⟩ :: rest)

/-- `_normalize_sections`. -/
def normalizeSections (U : UnicodeData) (sections : List ExtractedSection) :
    Except AppError (List NormalizedSection) := do
  let normalizedSections ← normalizeSectionsFrom U 0 sections
  if normalizedSections.isEmpty then .error noExtractableText else .ok normalizedSections

/-- The extractors with their parsers, and the chunker. -/
structure DocumentContentPreparer where
  unicode : UnicodeData
  /-- The CommonMark parser. -/
  parseMarkdown : Text → List Token
  /-- The PDF reader, which may raise. -/
  readPdf : Bytes → Option PdfDocument
  maxPdfPages : ℕ
  chunker : DocumentChunker

namespace DocumentContentPreparer

/-- The extractor of a media type. -/
def extract (self : DocumentContentPreparer) (mediaType : DocumentMediaType) (source : Bytes) :
    Except AppError (List ExtractedSection) :=
  match mediaType with
  | .text => TextExtractor.extract source
  | .markdown => MarkdownExtractor.extract self.parseMarkdown source
  | .pdf => PdfExtractor.extract self.readPdf self.maxPdfPages source

/-- `DocumentContentPreparer.prepare`. -/
def prepare (self : DocumentContentPreparer) (S : Services) (documentId : Uuid)
    (mediaType : DocumentMediaType) (source : Bytes) : Except AppError (List Chunk) := do
  let extractedSections ← self.extract mediaType source
  let normalizedSections ← normalizeSections self.unicode extractedSections
  let chunks ← self.chunker.chunk self.unicode S documentId normalizedSections
  if chunks.isEmpty then
    .error (.ingestion .noExtractableText
      "The document does not contain text that can be indexed.")
  else .ok chunks

end DocumentContentPreparer

end KnowledgeSearch

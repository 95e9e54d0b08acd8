import KnowledgeSearch.Foundations.Cuts
import KnowledgeSearch.Ingestion.Pipeline

/-!
# Extraction

An extractor makes the sections of a document from the bytes of its file. `TextExtractor`
makes a single section. `MarkdownExtractor` makes one of what precedes the first heading and
one of each heading with a body; it takes the parser's tokens, whose headings are located by
line numbers. `PdfExtractor` makes one of each page with text.
-/

namespace KnowledgeSearch

open Services (encodeUtf8)

/-- The fields of an extracted section. -/
structure ExtractedSectionFields where
  text : Text
  sectionPath : List Text := []
  pageNumber : Option ℤ := none
  deriving DecidableEq

/-- The checks of the constructor of `ExtractedSection`. -/
def ExtractedSectionFields.checks (self : ExtractedSectionFields) : List (Bool × String) :=
  [(blank self.text, "extracted section text must not be blank"),
    (self.pageNumber.any (· < 1), "extracted page number must be greater than zero")]

/-- A section as an extractor found it. -/
structure ExtractedSection extends ExtractedSectionFields where
  valid : firstViolation toExtractedSectionFields.checks = none
  deriving DecidableEq

theorem ExtractedSection.text_not_blank (self : ExtractedSection) :
  blank self.text = false
  := by
  apply firstViolation_eq_none_iff.mp self.valid
    (blank self.text, "extracted section text must not be blank")
  apply List.mem_cons_self

theorem ExtractedSection.pageNumber_valid (self : ExtractedSection) :
  self.pageNumber.any (· < 1) = false
  := by
  have h := firstViolation_eq_none_iff.mp self.valid
  simp only [ExtractedSectionFields.checks, List.mem_cons, List.not_mem_nil, or_false,
    forall_eq_or_imp, forall_eq] at h
  apply h.2

/-- A section of a text that is not blank, on no page. -/
def ExtractedSection.ofText (text : Text) (sectionPath : List Text) (h : blank text = false) :
    ExtractedSection where
  text := text
  sectionPath := sectionPath
  valid := by simp [ExtractedSectionFields.checks, firstViolation, h]

/-! ### Text -/

/-- The text with the given UTF-8 encoding. -/
def decodeUtf8 (source : Bytes) : Option Text :=
  (ByteArray.mk source.toArray).utf8Decode?.map Array.toList

/-- A text is decoded from its encoding, and from nothing else. -/
theorem decodeUtf8_eq_some_iff {source : Bytes} {text : Text} :
  decodeUtf8 source = some text ↔ encodeUtf8 text = source
  := by
  constructor
  · intro h
    rw [decodeUtf8, Option.map_eq_some_iff] at h
    obtain ⟨characters, hdecode, rfl⟩ := h
    have hget := @ByteArray.utf8Encode_get_utf8Decode? (ByteArray.mk source.toArray) (by
      rw [hdecode]
      rfl)
    simp only [hdecode, Option.get_some] at hget
    have hdata := congrArg ByteArray.data hget
    simpa [List.utf8Encode, encodeUtf8] using hdata
  · rintro rfl
    have hencode : ByteArray.mk (encodeUtf8 text).toArray = text.utf8Encode := by
      apply ByteArray.ext
      simp [List.utf8Encode, encodeUtf8]
    rw [decodeUtf8, hencode, List.utf8Decode?_utf8Encode]
    simp

/-- The byte order mark. -/
def byteOrderMark : Bytes := [0xef, 0xbb, 0xbf]

/-- `_read_utf8`: the text of a file, which may start with a byte order mark. -/
def readUtf8 (source : Bytes) : Except AppError Text :=
  match decodeUtf8 (if byteOrderMark.isPrefixOf source then source.drop 3 else source) with
  | some text => .ok text
  | none =>
      .error (.ingestion .invalidTextEncoding "Document text must use UTF-8 encoding.")

/-- Every text is read from its encoding after a byte order mark. -/
theorem readUtf8_byteOrderMark (text : Text) :
  readUtf8 (byteOrderMark ++ encodeUtf8 text) = .ok text
  := by
  have hdecode := decodeUtf8_eq_some_iff.mpr (rfl : encodeUtf8 text = encodeUtf8 text)
  have hdrop : (byteOrderMark ++ encodeUtf8 text).drop 3 = encodeUtf8 text := rfl
  rw [readUtf8, if_pos (List.isPrefixOf_iff_prefix.mpr (List.prefix_append _ _)), hdrop, hdecode]

/-- The error of a document without text. -/
def noExtractableText : AppError :=
  .ingestion .noExtractableText "The document does not contain extractable text."

/-- `TextExtractor.extract`. -/
def TextExtractor.extract (source : Bytes) : Except AppError (List ExtractedSection) := do
  let text ← readUtf8 source
  if h : blank text then .error noExtractableText
  else .ok [.ofText text [] (Bool.eq_false_iff.mpr h)]

/-! ### Markdown -/

/-- The characters at which `str.splitlines` ends a line. -/
def isLineBoundary (c : Char) : Bool :=
  c ∈ ['\n', '\r', '\x0b', '\x0c', '\x1c', '\x1d', '\x1e', '\u0085', '\u2028', '\u2029']

/-- `str.splitlines(keepends=True)`. A carriage return and the line feed after it end one
line. -/
def splitlines : Text → List Text :=
  cuts fun c rest => isLineBoundary c && !(c == '\r' && rest.head? == some '\n')

/-- A token of the Markdown parser. The map of a heading is the range of lines of its block,
its end excluded; the content of the heading is that of the token after it. -/
inductive Token where
  | headingOpen (level : ℕ) (map : Option (ℕ × ℕ))
  | other (content : Text)

def Token.content : Token → Text
  | headingOpen _ _ => []
  | other content => content

/-- A heading: the range of lines of its block, of which the extractor uses the first line
only, its level and its text. -/
structure Heading where
  first : ℕ
  last : ℕ
  level : ℕ
  text : Text
  deriving DecidableEq

/-- The headings among the tokens, those without text left out. -/
def headings : List Token → Except AppError (List Heading)
  | [] => .ok []
  | .headingOpen level (some map) :: tokens =>
      match tokens with
      | [] => .error (.lookup "list index out of range")
      | inlineToken :: _ => do
          let rest ← headings tokens
          let heading := strip inlineToken.content
          if heading = [] then .ok rest else .ok (⟨map.1, map.2, level, heading⟩ :: rest)
  | _ :: tokens => headings tokens

/-- The stack of enclosing headings, the innermost first, after another heading. -/
def pushHeading (stack : List (ℕ × Text)) (heading : Heading) : List (ℕ × Text) :=
  (heading.level, heading.text) :: stack.dropWhile fun item => heading.level ≤ item.1

/-- The lines from `first` on and before `last`. -/
def sliceLines (lines : List Text) (first last : ℕ) : Text :=
  ((lines.take last).drop first).flatten

/-- The first line after the body of a heading, which is followed by `rest`. -/
def nextLine (lines : List Text) (rest : List Heading) : ℕ :=
  match rest with
  | next :: _ => next.first
  | [] => lines.length

/-- The sections of headings. -/
def headingSections (lines : List Text) :
    List (ℕ × Text) → List Heading → List ExtractedSection
  | _, [] => []
  | stack, heading :: rest =>
      let stack := pushHeading stack heading
      let body := sliceLines lines (heading.first + 1) (nextLine lines rest)
      if h : blank body then headingSections lines stack rest
      else
        .ofText (heading.text ++ '\n' :: body) (stack.map Prod.snd).reverse
            (by simp [h])
          :: headingSections lines stack rest

/-- The section of the lines before the first heading. -/
def preambleSections (lines : List Text) (first : ℕ) : List ExtractedSection :=
  let preamble := sliceLines lines 0 first
  if h : blank preamble then [] else [.ofText preamble [] (Bool.eq_false_iff.mpr h)]

/-- `MarkdownExtractor.extract`, by the parser `parse`. -/
def MarkdownExtractor.extract (parse : Text → List Token) (source : Bytes) :
    Except AppError (List ExtractedSection) := do
  let text ← readUtf8 source
  if h : blank text then .error noExtractableText
  else do
    let lines := splitlines text
    match ← headings (parse text) with
    | [] => .ok [.ofText text [] (Bool.eq_false_iff.mpr h)]
    | first :: rest =>
        .ok (preambleSections lines first.first ++ headingSections lines [] (first :: rest))

/-! ### Portable documents -/

/-- A document of the PDF reader. The text of a page is missing where the reader raises. -/
structure PdfDocument where
  isEncrypted : Bool
  pages : List (Option Text)

/-- The sections of the pages from `pageNumber` on. -/
def pageSections (pageNumber : ℕ) : List (Option Text) → Except AppError (List ExtractedSection)
  | [] => .ok []
  | none :: _ =>
      .error (.ingestion .invalidPdf
        ("PDF page " ++ toString (pageNumber + 1) ++ " cannot be parsed."))
  | some text :: pages => do
      let sections ← pageSections (pageNumber + 1) pages
      if h : blank text then .ok sections
      else
        .ok (⟨⟨text, [], some (pageNumber + 1)⟩, by
          simp [ExtractedSectionFields.checks, firstViolation, h]⟩ :: sections)

/-- `PdfExtractor.extract`, by the reader `read`. -/
def PdfExtractor.extract (read : Bytes → Option PdfDocument) (maxPages : ℕ) (source : Bytes) :
    Except AppError (List ExtractedSection) :=
  match read source with
  | none => .error (.ingestion .invalidPdf "The PDF cannot be parsed.")
  | some document =>
      if document.isEncrypted then
        .error (.ingestion .encryptedPdf "Encrypted PDFs are not supported.")
      else if maxPages < document.pages.length then
        .error (.ingestion .pdfPageLimitExceeded
          ("PDF exceeds the configured limit of " ++ toString maxPages ++ " pages."))
      else do
        let sections ← pageSections 0 document.pages
        if sections.isEmpty then
          .error (.ingestion .noExtractableText "The PDF does not contain extractable text.")
        else .ok sections

end KnowledgeSearch

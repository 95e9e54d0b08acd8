import KnowledgeSearch.Domain.Documents

/-!
# Chunks and citations

A chunk is a passage of a document, identified by its document, its ordinal and the hash of
its text. A citation names the passage a search result comes from.
-/

namespace KnowledgeSearch

/-- The fields of a chunk. -/
structure ChunkFields where
  id : Uuid
  documentId : Uuid
  ordinal : ℤ
  text : Text
  tokenCount : ℤ
  contentHash : Text
  locator : SourceLocator
  deriving DecidableEq

/-- The checks of the constructor of `Chunk`. -/
def ChunkFields.checks (self : ChunkFields) : List (Bool × String) :=
  [(self.ordinal < 0, "chunk ordinal must not be negative"),
    (blank self.text, "chunk text must not be blank"),
    (self.tokenCount < 1, "chunk token count must be greater than zero"),
    (!isSha256 self.contentHash, "sha256 must contain 64 lowercase hexadecimal characters")]

/-- A chunk whose fields passed the checks of the constructor. -/
structure Chunk extends ChunkFields where
  valid : firstViolation toChunkFields.checks = none
  deriving DecidableEq

/-- The constructor of `Chunk`. -/
def Chunk.construct (fields : ChunkFields) : Except DomainError Chunk :=
  match h : firstViolation fields.checks with
  | none => .ok ⟨fields, h⟩
  | some message => .error (.validation message)

theorem Chunk.construct_eq_ok_iff {fields : ChunkFields} {chunk : Chunk} :
  Chunk.construct fields = .ok chunk ↔ chunk.toChunkFields = fields
  := by
  unfold Chunk.construct
  split
  · rename_i h
    constructor
    · intro hok
      cases hok
      rfl
    · rintro rfl
      rfl
  · rename_i message h
    constructor
    · intro hok
      cases hok
    · rintro rfl
      rw [chunk.valid] at h
      cases h

/-- The namespace of chunk identifiers. -/
def chunkNamespace : Uuid := 0x30a8a70d4e6a48cd981e02faf07d1b10

/-- The decimal digits of an ordinal. -/
def decimalText (n : ℕ) : Text :=
  Nat.toDigits 10 n

/-- The text a chunk identifier is derived from. -/
def stableKey (documentId : Uuid) (ordinal : ℕ) (contentHash : Text) : Text :=
  documentId.text ++ ':' :: (decimalText ordinal ++ ':' :: contentHash)

/-- `Chunk.create`: the identifier is derived from the document, the ordinal and the content
hash by `uuid5`. -/
def Chunk.create (uuid5 : Uuid → Text → Uuid) (documentId : Uuid) (ordinal : ℕ) (text : Text)
    (tokenCount : ℤ) (contentHash : Text) (locator : SourceLocator) : Except DomainError Chunk :=
  Chunk.construct
    { id := uuid5 chunkNamespace (stableKey documentId ordinal contentHash)
      documentId, ordinal, text, tokenCount, contentHash, locator }

/-- The text of a chunk is not blank. -/
theorem Chunk.text_not_blank (chunk : Chunk) :
  blank chunk.text = false
  := by
  have h := firstViolation_eq_none_iff.mp chunk.valid
  apply h (blank chunk.text, "chunk text must not be blank")
  simp [ChunkFields.checks]

/-! ### Citations -/

/-- The fields of a citation. -/
structure CitationFields where
  documentId : Uuid
  chunkId : Uuid
  originalFilename : Text
  excerpt : Text
  sectionPath : List Text
  pageNumber : Option ℤ
  deriving DecidableEq

/-- The checks of the constructor of `Citation`. -/
def CitationFields.checks (self : CitationFields) : List (Bool × String) :=
  [(blank self.originalFilename, "citation filename must not be blank"),
    (blank self.excerpt, "citation excerpt must not be blank"),
    (self.pageNumber.any (· < 1), "citation page number must be greater than zero")]

/-- A citation whose fields passed the checks of the constructor. -/
structure Citation extends CitationFields where
  valid : firstViolation toCitationFields.checks = none
  deriving DecidableEq

/-- The constructor of `Citation`. -/
def Citation.construct (fields : CitationFields) : Except DomainError Citation :=
  match h : firstViolation fields.checks with
  | none => .ok ⟨fields, h⟩
  | some message => .error (.validation message)

theorem Citation.construct_eq_ok_iff {fields : CitationFields} {citation : Citation} :
  Citation.construct fields = .ok citation ↔ citation.toCitationFields = fields
  := by
  unfold Citation.construct
  split
  · rename_i h
    constructor
    · intro hok
      cases hok
      rfl
    · rintro rfl
      rfl
  · rename_i message h
    constructor
    · intro hok
      cases hok
    · rintro rfl
      rw [citation.valid] at h
      cases h

/-- What the constructor of `Citation` asks of the fields. -/
structure CitationFields.Proper (fields : CitationFields) : Prop where
  originalFilename : blank fields.originalFilename = false
  excerpt : blank fields.excerpt = false
  pageNumber : ∀ page ∈ fields.pageNumber, 1 ≤ page

theorem CitationFields.firstViolation_checks_iff {fields : CitationFields} :
  firstViolation fields.checks = none ↔ fields.Proper
  := by
  have hpage : fields.pageNumber.any (· < 1) = false ↔ ∀ page ∈ fields.pageNumber, 1 ≤ page := by
    cases fields.pageNumber with
    | none => simp
    | some page => simp
  rw [firstViolation_eq_none_iff]
  simp only [checks, List.mem_cons, List.not_mem_nil, or_false, forall_eq_or_imp, forall_eq, hpage]
  constructor
  · rintro ⟨hfilename, hexcerpt, hpageNumber⟩
    exact ⟨hfilename, hexcerpt, hpageNumber⟩
  · rintro ⟨hfilename, hexcerpt, hpageNumber⟩
    exact ⟨hfilename, hexcerpt, hpageNumber⟩

theorem Citation.proper (citation : Citation) :
  citation.Proper
  := CitationFields.firstViolation_checks_iff.mp citation.valid

/-- The citation of a chunk of a document. The checks of the document, the chunk and its
locator imply those of the citation. -/
def Citation.ofChunk (document : Document) (chunk : Chunk) : Citation where
  documentId := chunk.documentId
  chunkId := chunk.id
  originalFilename := document.originalFilename
  excerpt := chunk.text
  sectionPath := chunk.locator.sectionPath
  pageNumber := chunk.locator.pageNumber
  valid := by
    have hdocument := firstViolation_eq_none_iff.mp document.valid
    have hlocator := firstViolation_eq_none_iff.mp chunk.locator.valid
    simp only [DocumentFields.checks, SourceLocatorFields.checks, List.mem_cons,
      List.not_mem_nil, or_false, forall_eq_or_imp, forall_eq] at hdocument hlocator
    apply firstViolation_eq_none_iff.mpr
    simp only [CitationFields.checks, List.mem_cons, List.not_mem_nil, or_false,
      forall_eq_or_imp, forall_eq]
    use hdocument.1, chunk.text_not_blank, hlocator.2.1

end KnowledgeSearch

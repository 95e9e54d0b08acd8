import KnowledgeSearch.Providers.LocalFiles
import KnowledgeSearch.Providers.QdrantIndex

/-!
# Content preparation

`Services` is what a deployment fixes: its configuration, the hash functions, the extraction
and windowing of document contents, and the embedding model. `Services.prepare` makes the
chunks of a document from the bytes of its file.
-/

namespace KnowledgeSearch

/-- A passage of a document before it becomes a chunk. -/
structure Segment where
  text : Text
  tokenCount : ℤ
  locator : SourceLocator

/-- The configuration and the functions a deployment fixes. -/
structure Services where
  /-- The directory of the file store. -/
  root : List Text
  maxUploadBytes : ℕ
  sha256 : Bytes → Text
  isSha256_sha256 : ∀ content, isSha256 (sha256 content) = true
  uuid5 : Uuid → Text → Uuid
  /-- Extraction, normalization and windowing of the bytes of a document. -/
  segments : DocumentMediaType → Bytes → Except AppError (List Segment)
  embedDocuments : List Text → List Vector
  /-- The embedding provider checks that it returns one vector a text. -/
  length_embedDocuments : ∀ texts, (embedDocuments texts).length = texts.length

namespace Services

variable (S : Services)

/-- The bytes of a text. -/
def encodeUtf8 (text : Text) : Bytes :=
  text.flatMap String.utf8EncodeChar

/-- `_create_chunk`. -/
def createChunk (documentId : Uuid) (ordinal : ℕ) (segment : Segment) :
    Except DomainError Chunk :=
  Chunk.create S.uuid5 documentId ordinal segment.text segment.tokenCount
    (S.sha256 (encodeUtf8 segment.text)) segment.locator

/-- The chunks of segments, numbered from `ordinal` on. -/
def createChunks (documentId : Uuid) : ℕ → List Segment → Except AppError (List Chunk)
  | _, [] => .ok []
  | ordinal, segment :: segments => do
      let chunk ← liftDomain (S.createChunk documentId ordinal segment)
      let chunks ← createChunks documentId (ordinal + 1) segments
      .ok (chunk :: chunks)

/-- `DocumentContentPreparer.prepare`. -/
def prepare (documentId : Uuid) (mediaType : DocumentMediaType) (source : Bytes) :
    Except AppError (List Chunk) := do
  let segments ← S.segments mediaType source
  let chunks ← S.createChunks documentId 0 segments
  if chunks.isEmpty then
    .error (.ingestion .noExtractableText
      "The document does not contain text that can be indexed.")
  else .ok chunks

variable {S}

theorem documentId_createChunk {documentId : Uuid} {ordinal : ℕ} {segment : Segment}
    {chunk : Chunk} (h : S.createChunk documentId ordinal segment = .ok chunk) :
  chunk.documentId = documentId
  := by
  rw [createChunk, Chunk.create, Chunk.construct_eq_ok_iff] at h
  rw [h]

theorem documentId_createChunks {documentId : Uuid} :
    ∀ {segments : List Segment} {ordinal : ℕ} {chunks : List Chunk},
      S.createChunks documentId ordinal segments = .ok chunks →
        ∀ chunk ∈ chunks, chunk.documentId = documentId
  | [], _, _, h => by
      cases h
      simp
  | segment :: segments, ordinal, _, h => by
      obtain ⟨chunk, chunks, hchunk, hchunks, rfl⟩ := bind_cons_eq_ok_iff.mp h
      intro c hc
      rcases List.mem_cons.mp hc with rfl | hc
      · apply documentId_createChunk (liftDomain_eq_ok_iff.mp hchunk)
      · apply documentId_createChunks hchunks c hc

/-- Prepared chunks belong to the document they are prepared for, and there is one. -/
theorem prepare_eq_ok {documentId : Uuid} {mediaType : DocumentMediaType} {source : Bytes}
    {chunks : List Chunk} (h : S.prepare documentId mediaType source = .ok chunks) :
  (∀ chunk ∈ chunks, chunk.documentId = documentId) ∧ chunks ≠ []
  := by
  obtain ⟨segments, -, h⟩ := bind_eq_ok_iff.mp h
  obtain ⟨chunks', hchunks, h⟩ := bind_eq_ok_iff.mp h
  split at h
  · cases h
  · rename_i hne
    cases h
    use documentId_createChunks hchunks
    intro hnil
    apply hne
    rw [hnil]
    rfl

/-- The points the index holds of the prepared chunks of a document. -/
def expectedPoints (S : Services) (document : Document) (chunks : List Chunk) : List Point :=
  pointsOf document chunks (S.embedDocuments (chunks.map fun chunk => chunk.text))

theorem map_id_expectedPoints {document : Document} {chunks : List Chunk} :
  (S.expectedPoints document chunks).map Point.id = chunks.map fun chunk => chunk.id
  := by
  apply map_id_pointsOf
  rw [S.length_embedDocuments, List.length_map]

/-- The points of chunks depend on no more of the document than its media type. -/
theorem expectedPoints_congr {document document' : Document} {chunks : List Chunk}
    (h : document.mediaType = document'.mediaType) :
  S.expectedPoints document chunks = S.expectedPoints document' chunks
  := by
  have hpoint : pointOf document = pointOf document' := by
    funext chunk vector
    rw [pointOf, pointOf, h]
  rw [expectedPoints, expectedPoints, pointsOf, pointsOf, hpoint]

/-! ### A sample deployment -/

/-- The content of the sample document. -/
def sampleContent : Bytes := encodeUtf8 "alpha".toList

/-- The digest of the sample document. -/
def sampleDigest : Text :=
  "8ed3f6ad685b959ead7022518e1af76cd816f8e8ec7ccdda1ed4018e8f2223f8".toList

/-- The identifier of the sample document. -/
def sampleDocumentId : Uuid := 0x1111111111114111a111111111111111

/-- The identifier of the only chunk of the sample document. -/
def sampleChunkId : Uuid := 0x47f21bbe7bd257ba96fb2ab50a9976ba

/-- Where that chunk lies in the sample document. -/
def sampleLocator : SourceLocator := ⟨⟨[], none, 0, 5⟩, by decide⟩

/-- A deployment that takes the content of a document for a single passage. The hash functions
are tabulated for the sample document. -/
def sample : Services where
  root := ["srv".toList, "documents".toList]
  maxUploadBytes := 25 * 1024 * 1024
  sha256 content := if content = sampleContent then sampleDigest else List.replicate 64 '0'
  isSha256_sha256 := by
    intro content
    split <;> decide
  uuid5 namespaceId name :=
    if namespaceId = chunkNamespace ∧ name = stableKey sampleDocumentId 0 sampleDigest then
      sampleChunkId
    else 0
  segments _ content :=
    .ok [⟨content.map fun byte => Char.ofNat byte.toNat, 1, ⟨⟨[], none, 0, content.length⟩, by
      simp [SourceLocatorFields.checks, firstViolation]⟩⟩]
  embedDocuments texts := texts.map fun text => [(text.length : ℚ)]
  length_embedDocuments texts := List.length_map ..

end Services

end KnowledgeSearch

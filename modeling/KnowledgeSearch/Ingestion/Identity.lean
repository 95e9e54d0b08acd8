import KnowledgeSearch.Domain.Json
import KnowledgeSearch.Ingestion.Locators
import Mathlib.Data.Set.Function

/-!
# The identity of chunks

The identifier of a chunk is derived from its stable key, from which the document, the ordinal
and the content hash of the chunk can be read off. As long as `uuid5` has no collision among the
keys in use, `Chunk.IsKeyed`, the identifier of a chunk determines these, and the vector index
holds one point of each chunk however often it is upserted.
-/

namespace KnowledgeSearch

/-- A stable key determines what it is made of. -/
theorem stableKey_injective {documentId documentId' : Uuid} {ordinal ordinal' : ℕ}
    {contentHash contentHash' : Text}
    (h : stableKey documentId ordinal contentHash = stableKey documentId' ordinal' contentHash') :
  documentId = documentId' ∧ ordinal = ordinal' ∧ contentHash = contentHash'
  := by
  obtain ⟨hid, hrest⟩ := List.append_inj h (by rw [Uuid.length_text, Uuid.length_text])
  have hcolon : ∀ n : ℕ, ':' ∉ decimalText n := by
    intro n hmem
    have hdigit := isDigit_of_mem_decimalText hmem
    revert hdigit
    decide
  obtain ⟨hordinal, hhash⟩ :=
    List.eq_of_append_cons_eq (hcolon ordinal) (hcolon ordinal') (List.cons.inj hrest).2
  exact ⟨Uuid.text_injective hid, decimalText_injective hordinal, hhash⟩

/-- The stable key of a chunk. -/
def Chunk.stableKey (chunk : Chunk) : Text :=
  KnowledgeSearch.stableKey chunk.documentId chunk.ordinal.toNat chunk.contentHash

/-- A chunk built by `Chunk.create`, its key in use. -/
structure Chunk.IsKeyed (uuid5 : Uuid → Text → Uuid) (keys : Set Text) (chunk : Chunk) : Prop where
  create : ∃ documentId ordinal text tokenCount contentHash locator,
    Chunk.create uuid5 documentId ordinal text tokenCount contentHash locator = .ok chunk
  mem : chunk.stableKey ∈ keys

section Keyed

variable {uuid5 : Uuid → Text → Uuid} {keys : Set Text} {chunk chunk' : Chunk}

theorem Chunk.IsKeyed.id_eq (h : chunk.IsKeyed uuid5 keys) :
  chunk.id = uuid5 chunkNamespace chunk.stableKey ∧ 0 ≤ chunk.ordinal
  := by
  obtain ⟨documentId, ordinal, text, tokenCount, contentHash, locator, hcreate⟩ := h.create
  rw [Chunk.create, Chunk.construct_eq_ok_iff] at hcreate
  rw [Chunk.stableKey, hcreate]
  exact ⟨rfl, Int.natCast_nonneg ordinal⟩

/-- Chunks with one identifier agree in their document, ordinal and content hash. -/
theorem Chunk.IsKeyed.id_eq_iff (hinj : Set.InjOn (uuid5 chunkNamespace) keys)
    (h : chunk.IsKeyed uuid5 keys) (h' : chunk'.IsKeyed uuid5 keys) :
  chunk.id = chunk'.id
    ↔ chunk.documentId = chunk'.documentId ∧ chunk.ordinal = chunk'.ordinal
      ∧ chunk.contentHash = chunk'.contentHash
  := by
  obtain ⟨hid, hordinal⟩ := h.id_eq
  obtain ⟨hid', hordinal'⟩ := h'.id_eq
  constructor
  · intro heq
    rw [hid, hid'] at heq
    obtain ⟨hdocument, hnumber, hhash⟩ := stableKey_injective (hinj h.mem h'.mem heq)
    exact ⟨hdocument, by omega, hhash⟩
  · rintro ⟨hdocument, hnumber, hhash⟩
    rw [hid, hid', Chunk.stableKey, Chunk.stableKey, hdocument, hnumber, hhash]

end Keyed

/-! ### Numbers -/

/-- Both chunkers number the chunks of a document from zero on. -/
theorem DocumentChunker.map_ordinal {self : DocumentChunker} {U : UnicodeData} {S : Services}
    {documentId : Uuid} {sections : List NormalizedSection} {chunks : List Chunk}
    (h : self.chunk U S documentId sections = .ok chunks) :
  chunks.map (fun chunk => chunk.ordinal) = (List.range chunks.length).map (Nat.cast : ℕ → ℤ)
  := by
  obtain ⟨segments, -, hchunks⟩ := chunk_eq_ok_iff.mp h
  rw [map_ordinal_createChunks hchunks, List.range_eq_range']

theorem DocumentChunker.documentId_of_mem {self : DocumentChunker} {U : UnicodeData}
    {S : Services} {documentId : Uuid} {sections : List NormalizedSection} {chunks : List Chunk}
    (h : self.chunk U S documentId sections = .ok chunks) {chunk : Chunk} (hchunk : chunk ∈ chunks) :
  chunk.documentId = documentId
  := by
  obtain ⟨segments, -, hchunks⟩ := chunk_eq_ok_iff.mp h
  apply Services.documentId_createChunks hchunks chunk hchunk

/-- The chunks of a document are built by `Chunk.create`. -/
theorem DocumentChunker.isKeyed_of_mem {self : DocumentChunker} {U : UnicodeData} {S : Services}
    {keys : Set Text} {documentId : Uuid} {sections : List NormalizedSection} {chunks : List Chunk}
    (h : self.chunk U S documentId sections = .ok chunks) {chunk : Chunk} (hchunk : chunk ∈ chunks)
    (hkey : chunk.stableKey ∈ keys) :
  chunk.IsKeyed S.uuid5 keys
  := by
  obtain ⟨segments, -, hchunks⟩ := chunk_eq_ok_iff.mp h
  obtain ⟨ordinal, segment, hcreate⟩ := exists_createChunk_of_mem hchunks hchunk
  exact ⟨⟨documentId, ordinal, _, _, _, _, hcreate⟩, hkey⟩

/-- The chunks of a document have different identifiers. -/
theorem DocumentChunker.nodup_id {self : DocumentChunker} {U : UnicodeData} {S : Services}
    {keys : Set Text} (hinj : Set.InjOn (S.uuid5 chunkNamespace) keys) {documentId : Uuid}
    {sections : List NormalizedSection} {chunks : List Chunk}
    (h : self.chunk U S documentId sections = .ok chunks)
    (hkeys : ∀ chunk ∈ chunks, chunk.stableKey ∈ keys) :
  (chunks.map fun chunk => chunk.id).Nodup
  := by
  obtain ⟨segments, -, hchunks⟩ := chunk_eq_ok_iff.mp h
  have hnodup := nodup_ordinal_createChunks hchunks
  rw [List.Nodup, List.pairwise_map] at hnodup ⊢
  apply hnodup.imp_of_mem
  intro chunk chunk' hchunk hchunk' hne heq
  have hkeyed := isKeyed_of_mem h hchunk (hkeys chunk hchunk)
  have hkeyed' := isKeyed_of_mem h hchunk' (hkeys chunk' hchunk')
  apply hne
  apply ((hkeyed.id_eq_iff hinj hkeyed').mp heq).2.1

/-! ### Points -/

/-- A call of `upsert` and the points it reaches. -/
structure UpsertCall where
  document : Document
  chunks : List Chunk
  vectors : List Vector
  reached : Uuid → Bool

/-- The call reaches the point of the chunk. -/
def UpsertCall.Reaches (call : UpsertCall) (chunk : Chunk) : Prop :=
  chunk ∈ call.chunks ∧ call.reached chunk.id = true

/-- The index after calls of `upsert`. -/
def upsertCalls : VectorIndex → List UpsertCall → Except AppError VectorIndex
  | index, [] => .ok index
  | index, call :: calls => do
      let index ← index.upsert call.document call.chunks call.vectors call.reached
      upsertCalls index calls

/-- A point of a chunk whose key is in use. -/
def Point.IsKeyed (uuid5 : Uuid → Text → Uuid) (keys : Set Text) (point : Point) : Prop :=
  ∃ chunk, Chunk.IsKeyed uuid5 keys chunk ∧ point.id = chunk.id
    ∧ point.documentId = chunk.documentId ∧ point.ordinal = chunk.ordinal
    ∧ point.contentHash = chunk.contentHash

/-- The point is one of the chunk. -/
def Point.IsOf (chunk : Chunk) (point : Point) : Prop :=
  point.documentId = chunk.documentId ∧ point.ordinal = chunk.ordinal
    ∧ point.contentHash = chunk.contentHash

section Points

variable {uuid5 : Uuid → Text → Uuid} {keys : Set Text}

/-- A point has the identifier of a chunk when it is one of the chunk. -/
theorem Point.IsKeyed.id_eq_iff (hinj : Set.InjOn (uuid5 chunkNamespace) keys) {point : Point}
    (h : point.IsKeyed uuid5 keys) {chunk : Chunk} (hchunk : chunk.IsKeyed uuid5 keys) :
  point.id = chunk.id ↔ point.IsOf chunk
  := by
  obtain ⟨own, hown, hid, hdocument, hordinal, hhash⟩ := h
  rw [hid, hown.id_eq_iff hinj hchunk, Point.IsOf, hdocument, hordinal, hhash]

/-- What an upsert leaves: points of chunks, one of each chunk it reached, and one under each
identifier there was a point under. -/
theorem upsert_spec {index index' : VectorIndex} {call : UpsertCall}
    (h : index.upsert call.document call.chunks call.vectors call.reached = .ok index')
    (hkeyed : ∀ chunk ∈ call.chunks, chunk.IsKeyed uuid5 keys)
    (hpoints : ∀ point ∈ index, point.IsKeyed uuid5 keys) :
  (∀ point ∈ index', point.IsKeyed uuid5 keys)
    ∧ (∀ chunk, call.Reaches chunk → ∃ point ∈ index', point.id = chunk.id)
    ∧ ∀ point ∈ index, ∃ point' ∈ index', point'.id = point.id
  := by
  rw [VectorIndex.upsert] at h
  split at h
  · cases h
  · rename_i hlength
    cases h
    refine ⟨?_, ?_, ?_⟩
    · intro point hpoint
      rcases Table.mem_of_mem_putAll hpoint with hnew | hold
      · obtain ⟨chunk, hchunk, vector, -, rfl⟩ := mem_pointsOf (List.mem_of_mem_filter hnew)
        exact ⟨chunk, hkeyed chunk hchunk, rfl, rfl, rfl, rfl⟩
      · apply hpoints point hold
    · intro chunk hreaches
      apply Table.exists_mem_putAll
      left
      have hids : (pointsOf call.document call.chunks call.vectors).map Point.id
          = call.chunks.map fun chunk => chunk.id := map_id_pointsOf (not_not.mp hlength)
      have hmem : chunk.id ∈ (pointsOf call.document call.chunks call.vectors).map Point.id := by
        rw [hids]
        apply List.mem_map_of_mem hreaches.1
      obtain ⟨point, hpoint, hid⟩ := List.mem_map.mp hmem
      refine ⟨point, List.mem_filter.mpr ⟨hpoint, ?_⟩, hid⟩
      rw [hid]
      apply hreaches.2
    · intro point hpoint
      apply Table.exists_mem_putAll
      right
      exact ⟨point, hpoint, rfl⟩

theorem upsertCalls_spec {index index' : VectorIndex} {calls : List UpsertCall}
    (h : upsertCalls index calls = .ok index')
    (hkeyed : ∀ call ∈ calls, ∀ chunk ∈ call.chunks, chunk.IsKeyed uuid5 keys)
    (hpoints : ∀ point ∈ index, point.IsKeyed uuid5 keys) :
  (∀ point ∈ index', point.IsKeyed uuid5 keys)
    ∧ (∀ call ∈ calls, ∀ chunk, call.Reaches chunk → ∃ point ∈ index', point.id = chunk.id)
    ∧ ∀ point ∈ index, ∃ point' ∈ index', point'.id = point.id
  := by
  induction calls generalizing index with
  | nil =>
      cases h
      refine ⟨hpoints, ?_, fun point hpoint => ⟨point, hpoint, rfl⟩⟩
      intro call hcall
      cases hcall
  | cons call calls ih =>
      rw [List.forall_mem_cons] at hkeyed
      obtain ⟨next, hnext, h⟩ := bind_eq_ok_iff.mp h
      obtain ⟨hnext_points, hnext_reached, hnext_kept⟩ := upsert_spec hnext hkeyed.1 hpoints
      obtain ⟨hpoints', hreached, hkept⟩ := ih h hkeyed.2 hnext_points
      refine ⟨hpoints', ?_, ?_⟩
      · intro call' hcall' chunk hreaches
        rcases List.mem_cons.mp hcall' with rfl | hcall'
        · obtain ⟨point, hpoint, hid⟩ := hnext_reached chunk hreaches
          obtain ⟨point', hpoint', hid'⟩ := hkept point hpoint
          exact ⟨point', hpoint', hid'.trans hid⟩
        · apply hreached call' hcall' chunk hreaches
      · intro point hpoint
        obtain ⟨point', hpoint', hid'⟩ := hnext_kept point hpoint
        obtain ⟨point'', hpoint'', hid''⟩ := hkept point' hpoint'
        exact ⟨point'', hpoint'', hid''.trans hid'⟩

/-- However often and in which order chunks are upserted, there is one point of each chunk that
was reached. -/
theorem existsUnique_point (hinj : Set.InjOn (uuid5 chunkNamespace) keys)
    {index index' : VectorIndex} {calls : List UpsertCall}
    (h : upsertCalls index calls = .ok index')
    (hkeyed : ∀ call ∈ calls, ∀ chunk ∈ call.chunks, chunk.IsKeyed uuid5 keys)
    (hpoints : ∀ point ∈ index, point.IsKeyed uuid5 keys) {call : UpsertCall} (hcall : call ∈ calls)
    {chunk : Chunk} (hreaches : call.Reaches chunk) :
  ∃! point, point ∈ index' ∧ point.IsOf chunk
  := by
  obtain ⟨hpoints', hreached, -⟩ := upsertCalls_spec h hkeyed hpoints
  have hchunk := hkeyed call hcall chunk hreaches.1
  obtain ⟨point, hpoint, hid⟩ := hreached call hcall chunk hreaches
  refine ⟨point, ⟨hpoint, ((hpoints' point hpoint).id_eq_iff hinj hchunk).mp hid⟩, ?_⟩
  rintro other ⟨hother, hof⟩
  apply Table.eq_of_key_eq hother hpoint
  rw [hid, (hpoints' other hother).id_eq_iff hinj hchunk]
  apply hof

end Points

/-- As long as `uuid5` has no collision among the keys in use: chunks have one identifier when
they agree in document, ordinal and content hash; the chunks of a document are numbered from
zero on and have different identifiers, as have those of different documents; and upserts leave
one point of each chunk. -/
theorem chunk_identity {S : Services} {keys : Set Text}
    (hinj : Set.InjOn (S.uuid5 chunkNamespace) keys) :
  (∀ chunk chunk' : Chunk, chunk.IsKeyed S.uuid5 keys → chunk'.IsKeyed S.uuid5 keys →
      (chunk.id = chunk'.id
        ↔ chunk.documentId = chunk'.documentId ∧ chunk.ordinal = chunk'.ordinal
          ∧ chunk.contentHash = chunk'.contentHash))
    ∧ (∀ (chunker : DocumentChunker) U documentId sections chunks,
      chunker.chunk U S documentId sections = .ok chunks →
        chunks.map (fun chunk => chunk.ordinal)
            = (List.range chunks.length).map (Nat.cast : ℕ → ℤ)
          ∧ ((∀ chunk ∈ chunks, chunk.stableKey ∈ keys) →
            (chunks.map fun chunk => chunk.id).Nodup))
    ∧ (∀ (chunker chunker' : DocumentChunker) U U' documentId documentId' sections sections'
        chunks chunks', chunker.chunk U S documentId sections = .ok chunks →
        chunker'.chunk U' S documentId' sections' = .ok chunks' → documentId ≠ documentId' →
        ∀ chunk ∈ chunks, ∀ chunk' ∈ chunks', chunk.stableKey ∈ keys → chunk'.stableKey ∈ keys →
          chunk.id ≠ chunk'.id)
    ∧ ∀ index index' calls, upsertCalls index calls = .ok index' →
      (∀ call ∈ calls, ∀ chunk ∈ call.chunks, chunk.IsKeyed S.uuid5 keys) →
      (∀ point ∈ index, point.IsKeyed S.uuid5 keys) →
        ∀ call ∈ calls, ∀ chunk, call.Reaches chunk →
          ∃! point, point ∈ index' ∧ point.IsOf chunk
  := by
  refine ⟨fun chunk chunk' h h' => h.id_eq_iff hinj h', ?_, ?_, ?_⟩
  · intro chunker U documentId sections chunks h
    use DocumentChunker.map_ordinal h
    apply DocumentChunker.nodup_id hinj h
  · intro chunker chunker' U U' documentId documentId' sections sections' chunks chunks' h h' hne
      chunk hchunk chunk' hchunk' hkey hkey' heq
    have hkeyed := DocumentChunker.isKeyed_of_mem h hchunk hkey
    have hkeyed' := DocumentChunker.isKeyed_of_mem h' hchunk' hkey'
    apply hne
    rw [← DocumentChunker.documentId_of_mem h hchunk,
      ← DocumentChunker.documentId_of_mem h' hchunk']
    apply ((hkeyed.id_eq_iff hinj hkeyed').mp heq).1
  · intro index index' calls h hkeyed hpoints call hcall chunk hreaches
    apply existsUnique_point hinj h hkeyed hpoints hcall hreaches

/-- A chunk of the sample document. -/
def sampleChunkAt (ordinal : ℕ) : Except DomainError Chunk :=
  Chunk.create Services.sample.uuid5 Services.sampleDocumentId ordinal "alpha".toList 1
    Services.sampleDigest Services.sampleLocator

theorem chunk_identity_sample :
  ∃ chunk chunk' : Chunk, sampleChunkAt 0 = .ok chunk ∧ sampleChunkAt 1 = .ok chunk'
    ∧ chunk.id ≠ chunk'.id
  := by
  have hinj : Set.InjOn (Services.sample.uuid5 chunkNamespace)
      {stableKey Services.sampleDocumentId 0 Services.sampleDigest,
        stableKey Services.sampleDocumentId 1 Services.sampleDigest} := by
    rw [Set.injOn_pair]
    intro h
    revert h
    decide +kernel
  obtain ⟨chunk, hchunk⟩ : ∃ chunk, sampleChunkAt 0 = .ok chunk :=
    ⟨⟨⟨Services.sampleChunkId, Services.sampleDocumentId, 0, "alpha".toList, 1,
      Services.sampleDigest, Services.sampleLocator⟩, by decide⟩, by decide +kernel⟩
  obtain ⟨chunk', hchunk'⟩ : ∃ chunk, sampleChunkAt 1 = .ok chunk :=
    ⟨⟨⟨0, Services.sampleDocumentId, 1, "alpha".toList, 1, Services.sampleDigest,
      Services.sampleLocator⟩, by decide⟩, by decide +kernel⟩
  have hfields := hchunk
  have hfields' := hchunk'
  rw [sampleChunkAt, Chunk.create, Chunk.construct_eq_ok_iff] at hfields hfields'
  refine ⟨chunk, chunk', hchunk, hchunk', fun heq => ?_⟩
  have hordinal := (((chunk_identity hinj).1 chunk chunk' ⟨⟨_, _, _, _, _, _, hchunk⟩, ?_⟩
    ⟨⟨_, _, _, _, _, _, hchunk'⟩, ?_⟩).mp heq).2.1
  · rw [hfields, hfields'] at hordinal
    revert hordinal
    decide
  · left
    rw [Chunk.stableKey, hfields]
    rfl
  · right
    rw [Chunk.stableKey, hfields']
    rfl

end KnowledgeSearch

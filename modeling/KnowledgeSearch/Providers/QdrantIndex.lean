import KnowledgeSearch.Domain.Chunks
import KnowledgeSearch.Errors
import KnowledgeSearch.Foundations.Table
import KnowledgeSearch.Retrieval.Ranking
import Mathlib.Data.Rat.Defs

/-!
# The vector index

A point holds the vector of a chunk and a payload that names its document. Points are keyed
by the identifier of their chunk, so that upserting a chunk again replaces its point.

A call that raises may have been carried out in part; the part is the set of identifiers it
reached.
-/

namespace KnowledgeSearch

/-- An embedding. -/
abbrev Vector := List ℚ

/-- A point of the collection with its payload. -/
structure Point where
  id : Uuid
  vector : Vector
  documentId : Uuid
  mediaType : DocumentMediaType
  ordinal : ℤ
  sectionPath : List Text
  pageNumber : Option ℤ
  contentHash : Text
  deriving DecidableEq

/-- The points of the collection. -/
abbrev VectorIndex := Table Point.id

/-- The point of a chunk. -/
def pointOf (document : Document) (chunk : Chunk) (vector : Vector) : Point where
  id := chunk.id
  vector := vector
  documentId := chunk.documentId
  mediaType := document.mediaType
  ordinal := chunk.ordinal
  sectionPath := chunk.locator.sectionPath
  pageNumber := chunk.locator.pageNumber
  contentHash := chunk.contentHash

/-- The points of the chunks of a document. -/
def pointsOf (document : Document) (chunks : List Chunk) (vectors : List Vector) : List Point :=
  List.zipWith (pointOf document) chunks vectors

namespace VectorIndex

/-- `QdrantVectorIndex.upsert`, reaching the points that satisfy `reached`. -/
def upsert (index : VectorIndex) (document : Document) (chunks : List Chunk)
    (vectors : List Vector) (reached : Uuid → Bool) : Except AppError VectorIndex :=
  if chunks.length ≠ vectors.length then
    .error (.vectorIndex "Chunk and vector counts do not match.")
  else .ok (index.putAll ((pointsOf document chunks vectors).filter fun point => reached point.id))

/-- `QdrantVectorIndex.delete_document`, reaching the points that satisfy `reached`. -/
def deleteDocument (index : VectorIndex) (documentId : Uuid) (reached : Uuid → Bool) :
    VectorIndex :=
  index.discard fun point => point.documentId = documentId && reached point.id

theorem mem_deleteDocument {index : VectorIndex} {documentId : Uuid} {reached : Uuid → Bool}
    {point : Point} :
  point ∈ index.deleteDocument documentId reached
    ↔ point ∈ index ∧ ¬ (point.documentId = documentId ∧ reached point.id = true)
  := by
  simp [deleteDocument, Table.mem_discard]

/-- `QdrantVectorIndex.search`: the best points that pass the filter, in the order of the index,
with their similarity to the vector. -/
def search (index : VectorIndex) (precedes : Vector → Point → Point → Prop)
    [∀ vector, DecidableRel (precedes vector)] (similarity : Vector → Vector → Score)
    (vector : Vector) (limit : ℤ) (filters : SearchFilters) : List RetrievalCandidate :=
  let points := index.rows.filter fun point => filters.admits point.documentId point.mediaType
  rankedFrom 0 (((points.insertionSort (precedes vector)).take limit.toNat).map fun point =>
    (point.id, similarity vector point.vector))

end VectorIndex

/-- Every point of the chunks of a document comes from one of the chunks. -/
theorem mem_pointsOf {document : Document} {point : Point} :
    ∀ {chunks : List Chunk} {vectors : List Vector}, point ∈ pointsOf document chunks vectors →
      ∃ chunk ∈ chunks, ∃ vector ∈ vectors, point = pointOf document chunk vector
  | [], _, h => by simp [pointsOf] at h
  | _ :: _, [], h => by simp [pointsOf] at h
  | chunk :: chunks, vector :: vectors, h => by
      rw [pointsOf, List.zipWith_cons_cons, List.mem_cons] at h
      rcases h with rfl | h
      · use chunk, List.mem_cons_self, vector, List.mem_cons_self
      · obtain ⟨c, hc, v, hv, rfl⟩ := mem_pointsOf h
        use c, List.mem_cons_of_mem _ hc, v, List.mem_cons_of_mem _ hv

/-- When there are as many vectors as chunks, every chunk has a point. -/
theorem map_id_pointsOf {document : Document} :
    ∀ {chunks : List Chunk} {vectors : List Vector}, chunks.length = vectors.length →
      (pointsOf document chunks vectors).map Point.id = chunks.map fun chunk => chunk.id
  | [], [], _ => rfl
  | chunk :: chunks, vector :: vectors, h => by
      rw [pointsOf, List.zipWith_cons_cons, List.map_cons, List.map_cons]
      congr 1
      apply map_id_pointsOf
      simpa using h

end KnowledgeSearch

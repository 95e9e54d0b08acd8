import KnowledgeSearch.Foundations.Sorting
import KnowledgeSearch.Persistence.Repositories
import KnowledgeSearch.Retrieval.Ranking

/-!
# Searching the relational store

`PostgresSearchRepository`: both statements join the chunks with their documents and keep the
chunks of documents that are ready.

Whether the text of a chunk matches a query, and its rank, are up to the full-text search of the
database.
-/

namespace KnowledgeSearch

/-- A chunk with the document it belongs to. -/
structure SearchableChunk where
  chunk : Chunk
  document : Document
  deriving DecidableEq

def SearchableChunk.id (self : SearchableChunk) : Uuid :=
  self.chunk.id

namespace Database

/-- A chunk joined with its document, when the document is ready. -/
def joinReady (db : Database) (chunk : Chunk) : Option SearchableChunk :=
  match db.getDocument chunk.documentId with
  | none => none
  | some document => if document.status = .ready then some ⟨chunk, document⟩ else none

/-- The chunks of the ready documents. -/
def searchable (db : Database) : List SearchableChunk :=
  db.chunks.rows.filterMap db.joinReady

/-- The order of the matching chunks: by rank from the best on, and by identifier. -/
def KeywordPrecedes (a b : Uuid × Score) : Prop :=
  b.2 < a.2 ∨ (b.2 = a.2 ∧ a.1 ≤ b.1)

instance : DecidableRel KeywordPrecedes :=
  fun a b => inferInstanceAs (Decidable (b.2 < a.2 ∨ _))

/-- `keyword_candidates`. -/
def keywordCandidates (db : Database) (matchesQuery : Text → Text → Bool)
    (tsRank : Text → Text → Score) (query : Text) (limit : ℤ) (filters : SearchFilters) :
    List RetrievalCandidate :=
  let rows := db.searchable.filter fun row =>
    matchesQuery query row.chunk.text && filters.admits row.document.id row.document.mediaType
  rankedFrom 0 (((rows.map fun row => (row.id, tsRank query row.chunk.text)).insertionSort
    KeywordPrecedes).take limit.toNat)

/-- `load_chunks`. -/
def loadChunks (db : Database) (chunkIds : List Uuid) : List SearchableChunk :=
  db.searchable.filter fun row => row.id ∈ chunkIds

theorem mem_searchable {db : Database} {row : SearchableChunk} :
  row ∈ db.searchable
    ↔ row.chunk ∈ db.chunks ∧ row.document ∈ db.documents
      ∧ row.document.id = row.chunk.documentId ∧ row.document.status = .ready
  := by
  simp only [searchable, List.mem_filterMap, joinReady, getDocument]
  constructor
  · rintro ⟨chunk, hchunk, hjoin⟩
    split at hjoin
    · cases hjoin
    · rename_i document hdocument
      obtain ⟨hmem, hid⟩ := Table.get_eq_some_iff.mp hdocument
      split at hjoin
      · rename_i hready
        cases hjoin
        use hchunk, hmem, hid
      · cases hjoin
  · rintro ⟨hchunk, hmem, hid, hready⟩
    use row.chunk, hchunk
    rw [Table.get_eq_some_iff.mpr ⟨hmem, hid⟩]
    simp only [hready, if_true]

/-- The chunks of the ready documents have different identifiers. -/
theorem pairwise_searchable (db : Database) :
  db.searchable.Pairwise fun a b => a.id ≠ b.id
  := by
  have hchunks := List.pairwise_map.mp db.chunks.nodup
  apply List.pairwise_filterMap.mpr
  apply hchunks.imp
  intro chunk chunk' hne row hrow row' hrow'
  have hid : ∀ {chunk : Chunk} {row : SearchableChunk}, db.joinReady chunk = some row →
      row.chunk = chunk := by
    intro chunk row hjoin
    unfold joinReady at hjoin
    split at hjoin
    · cases hjoin
    · split at hjoin
      · cases hjoin
        rfl
      · cases hjoin
  rw [SearchableChunk.id, SearchableChunk.id, hid hrow, hid hrow']
  apply hne

theorem eq_of_id_eq {db : Database} {a b : SearchableChunk} (ha : a ∈ db.searchable)
    (hb : b ∈ db.searchable) (h : a.id = b.id) :
  a = b
  := by
  obtain ⟨hchunk, hdocument, hid, -⟩ := mem_searchable.mp ha
  obtain ⟨hchunk', hdocument', hid', -⟩ := mem_searchable.mp hb
  have hchunks : a.chunk = b.chunk := Table.eq_of_key_eq hchunk hchunk' h
  have hdocuments : a.document = b.document := by
    apply Table.eq_of_key_eq hdocument hdocument'
    rw [hid, hid', hchunks]
  cases a
  cases b
  cases hchunks
  cases hdocuments
  rfl

/-- The chunk that is loaded for an identifier. -/
theorem find?_loadChunks_eq_some_iff {db : Database} {chunkIds : List Uuid} {id : Uuid}
    {row : SearchableChunk} :
  (db.loadChunks chunkIds).find? (fun row => row.id = id) = some row
    ↔ row ∈ db.searchable ∧ row.id = id ∧ id ∈ chunkIds
  := by
  constructor
  · intro h
    have hid : decide (row.id = id) = true := by
      apply List.find?_some h
    obtain ⟨hrow, hmem⟩ := List.mem_filter.mp (List.mem_of_find?_eq_some h)
    obtain rfl := of_decide_eq_true hid
    use hrow, rfl, of_decide_eq_true hmem
  · rintro ⟨hrow, rfl, hmem⟩
    have hloaded : row ∈ db.loadChunks chunkIds := by
      apply List.mem_filter.mpr
      use hrow
      simpa using hmem
    cases h : (db.loadChunks chunkIds).find? fun r => r.id = row.id with
    | none =>
        have hnone := List.find?_eq_none.mp h row hloaded
        simp at hnone
    | some r =>
        have hid : decide (r.id = row.id) = true := by
          apply List.find?_some h
        have hr := (List.mem_filter.mp (List.mem_of_find?_eq_some h)).1
        rw [eq_of_id_eq hr hrow (of_decide_eq_true hid)]

/-- A chunk of a ready document is found among those that are loaded for identifiers, when its own is
one of them. -/
theorem find?_loadChunks {db : Database} {chunkIds : List Uuid} {id : Uuid} (h : id ∈ chunkIds) :
  (db.loadChunks chunkIds).find? (fun row => row.id = id) = db.searchable.find? fun row => row.id = id
  := by
  rw [loadChunks, List.find?_filter]
  congr 1
  funext row
  by_cases hrow : row.id = id
  · simp [hrow, h]
  · simp [hrow]

/-! ### What a search depends on -/

/-- The ready documents have the same chunks in two databases. -/
def SameSearchable (db db' : Database) : Prop :=
  ∀ row, row ∈ db'.searchable ↔ row ∈ db.searchable

instance : Std.Total KeywordPrecedes where
  total := by
    rintro ⟨a, x⟩ ⟨b, y⟩
    simp only [KeywordPrecedes]
    rcases lt_trichotomy x y with h | h | h
    · exact Or.inr (Or.inl h)
    · rcases BitVec.le_total a b with hab | hab
      · exact Or.inl (Or.inr ⟨h.symm, hab⟩)
      · exact Or.inr (Or.inr ⟨h, hab⟩)
    · exact Or.inl (Or.inl h)

instance : IsTrans (Uuid × Score) KeywordPrecedes where
  trans := by
    rintro ⟨a, x⟩ ⟨b, y⟩ ⟨c, z⟩ hab hbc
    simp only [KeywordPrecedes] at hab hbc ⊢
    rcases hab with hab | ⟨rfl, hab⟩
    · rcases hbc with hbc | ⟨rfl, -⟩
      · exact Or.inl (lt_trans hbc hab)
      · exact Or.inl hab
    · rcases hbc with hbc | ⟨rfl, hbc⟩
      · exact Or.inl hbc
      · exact Or.inr ⟨rfl, BitVec.le_trans hab hbc⟩

instance : Std.Antisymm KeywordPrecedes where
  antisymm := by
    rintro ⟨a, x⟩ ⟨b, y⟩ hab hba
    simp only [KeywordPrecedes] at hab hba
    rcases hab with hab | ⟨rfl, hab⟩
    · rcases hba with hba | ⟨rfl, -⟩
      · exact absurd hba (not_lt_of_gt hab)
      · exact absurd hab (lt_irrefl _)
    · rcases hba with hba | ⟨-, hba⟩
      · exact absurd hba (lt_irrefl _)
      · rw [BitVec.le_antisymm hab hba]

namespace SameSearchable

variable {db db' : Database}

theorem refl (db : Database) :
  db.SameSearchable db
  := fun _ => Iff.rfl

theorem perm (h : db.SameSearchable db') :
  db'.searchable.Perm db.searchable
  := by
  have hnodup : ∀ db : Database, db.searchable.Nodup := by
    intro db
    apply db.pairwise_searchable.imp
    intro a b hne hab
    apply hne
    rw [hab]
  apply (List.perm_ext_iff_of_nodup (hnodup db') (hnodup db)).mpr h

/-- The candidates of a full-text search depend on the chunks of the ready documents only. -/
theorem keywordCandidates_eq (h : db.SameSearchable db') (matchesQuery : Text → Text → Bool)
    (tsRank : Text → Text → Score) (query : Text) (limit : ℤ) (filters : SearchFilters) :
  db'.keywordCandidates matchesQuery tsRank query limit filters
    = db.keywordCandidates matchesQuery tsRank query limit filters
  := by
  simp only [keywordCandidates]
  congr 2
  apply List.insertionSort_eq_of_perm
  · intro a _ b _ hab hba
    apply Std.Antisymm.antisymm a b hab hba
  · apply (h.perm.filter _).map

/-- The chunk that is loaded for an identifier depends on the chunks of the ready documents
only. -/
theorem find?_loadChunks_eq (h : db.SameSearchable db') (chunkIds : List Uuid) (id : Uuid) :
  (db'.loadChunks chunkIds).find? (fun row => row.id = id)
    = (db.loadChunks chunkIds).find? fun row => row.id = id
  := by
  apply Option.ext
  intro row
  rw [find?_loadChunks_eq_some_iff, find?_loadChunks_eq_some_iff, h row]

/-- The chunk with an identifier among those of ready documents. -/
theorem find?_searchable_eq (h : db.SameSearchable db') (id : Uuid) :
  (db'.searchable.find? fun row => row.id = id) = db.searchable.find? fun row => row.id = id
  := by
  have hid : id ∈ [id] := List.mem_singleton_self id
  rw [← find?_loadChunks hid, ← find?_loadChunks hid, h.find?_loadChunks_eq]

end SameSearchable

end Database

end KnowledgeSearch

import KnowledgeSearch.Application.Stores
import KnowledgeSearch.Persistence.Search

/-!
# Search

`SearchService.search`: the candidates of the mode, ranked, and hydrated from the relational
store. `SearchServices` is what a deployment fixes for it.
-/

namespace KnowledgeSearch

/-- The configuration of the search and the functions a deployment fixes: the full-text search of
the database, and the similarity of the vector index with its order of the points. -/
structure SearchServices where
  candidateMultiplier : ℕ
  one_le_candidateMultiplier : 1 ≤ candidateMultiplier
  rrfK : ℕ
  one_le_rrfK : 1 ≤ rrfK
  /-- The seconds a result is cached for, zero for no cache. -/
  ttlSeconds : ℕ
  /-- The floating point number nearest to a rational number. -/
  round : ℚ → Score
  matchesQuery : Text → Text → Bool
  tsRank : Text → Text → Score
  similarity : Vector → Vector → Score
  /-- The order in which the vector index returns points for a vector. It decides between any two
  points of the index, which have different identifiers. -/
  precedes : Vector → Point → Point → Prop
  [decidablePrecedes : ∀ vector, DecidableRel (precedes vector)]
  precedes_total : ∀ vector a b, precedes vector a b ∨ precedes vector b a
  precedes_trans : ∀ vector a b c, precedes vector a b → precedes vector b c → precedes vector a c
  precedes_antisymm : ∀ vector a b, precedes vector a b → precedes vector b a → a.id = b.id

attribute [instance] SearchServices.decidablePrecedes

/-- The arguments of a search. -/
structure SearchQuery where
  query : Text
  mode : SearchMode
  limit : ℤ
  filters : SearchFilters
  deriving DecidableEq

structure SearchResult where
  score : Score
  keywordRank : Option ℤ
  vectorRank : Option ℤ
  mediaType : DocumentMediaType
  citation : Citation
  deriving DecidableEq

structure SearchExecution where
  query : Text
  mode : SearchMode
  results : List SearchResult
  deriving DecidableEq

/-- `" ".join(query.split())`. -/
def normalizeQuery (query : Text) : Text :=
  [' '].intercalate ((splitWords query).filter fun word => !word.isEmpty)
where
  /-- The words of a text, with empty ones where white space is repeated. -/
  splitWords : Text → List Text
    | [] => [[]]
    | c :: s =>
        if isSpace c then [] :: splitWords s
        else
          match splitWords s with
          | [] => [[c]]
          | word :: words => (c :: word) :: words

/-- The checks of `SearchService.search`, which goes on with the normalized query. -/
def checkQuery (q : SearchQuery) : Except AppError Text :=
  let normalizedQuery := normalizeQuery q.query
  if normalizedQuery.isEmpty then
    .error (.searchQuery "Search query must not be blank.")
  else if q.limit < 1 then
    .error (.searchQuery "Search limit must be greater than zero.")
  else .ok normalizedQuery

/-- The result for a candidate and its chunk. -/
def searchResult (candidate : FusedCandidate) (row : SearchableChunk) : SearchResult where
  score := candidate.score
  keywordRank := candidate.keywordRank.map Int.ofNat
  vectorRank := candidate.vectorRank.map Int.ofNat
  mediaType := row.document.mediaType
  citation := .ofChunk row.document row.chunk

/-- The results for the candidates that have a chunk, until there are `limit` of them. -/
def collectResults (chunks : List SearchableChunk) (limit : ℕ) :
    List SearchResult → List FusedCandidate → List SearchResult
  | results, [] => results
  | results, candidate :: candidates =>
      match chunks.find? fun row => row.id = candidate.chunkId with
      | none => collectResults chunks limit results candidates
      | some row =>
          let results := results ++ [searchResult candidate row]
          if results.length = limit then results
          else collectResults chunks limit results candidates

namespace SearchServices

variable (C : SearchServices) (S : Services)

def candidateLimit (q : SearchQuery) : ℤ :=
  q.limit * C.candidateMultiplier

/-- The candidates of the full-text search, if the mode uses it. -/
def keyword (db : Database) (q : SearchQuery) : List RetrievalCandidate :=
  if q.mode.usesKeyword then
    db.keywordCandidates C.matchesQuery C.tsRank (normalizeQuery q.query) (C.candidateLimit q)
      q.filters
  else []

/-- `_vector_candidates`, if the mode uses them. -/
def vector (index : VectorIndex) (q : SearchQuery) : List RetrievalCandidate :=
  if q.mode.usesVector then
    index.search C.precedes C.similarity ((S.embedDocuments [normalizeQuery q.query]).headD [])
      (C.candidateLimit q) q.filters
  else []

/-- `_rank`. -/
def rank (mode : SearchMode) (keyword vector : List RetrievalCandidate) : List FusedCandidate :=
  match mode with
  | .hybrid => reciprocalRankFusion C.round keyword vector C.rrfK
  | .keyword =>
      keyword.map fun candidate => ⟨candidate.chunkId, candidate.score, some candidate.rank, none⟩
  | .vector =>
      vector.map fun candidate => ⟨candidate.chunkId, candidate.score, none, some candidate.rank⟩

/-- The rest of `SearchService.search` once the candidates are ranked. -/
def hydrate (db : Database) (q : SearchQuery) (ranked : List FusedCandidate) : SearchExecution where
  query := normalizeQuery q.query
  mode := q.mode
  results :=
    collectResults (db.loadChunks (ranked.map fun candidate => candidate.chunkId)) q.limit.toNat []
      ranked

/-- `SearchService.search`, all of whose reads see the same stores. -/
def search (s : Stores) (q : SearchQuery) : Except AppError SearchExecution := do
  let _ ← checkQuery q
  .ok (hydrate s.db q (C.rank q.mode (C.keyword s.db q) (C.vector S s.index q)))

end SearchServices

/-! ### What is found -/

/-- The results are those of the candidates that have a chunk, up to the limit. -/
theorem collectResults_eq {chunks : List SearchableChunk} {limit : ℕ} :
    ∀ {results : List SearchResult} {candidates : List FusedCandidate}, results.length < limit →
      collectResults chunks limit results candidates
        = results ++ (candidates.filterMap fun candidate =>
            (chunks.find? fun row => row.id = candidate.chunkId).map
              (searchResult candidate)).take (limit - results.length)
  | results, [], _ => by simp [collectResults]
  | results, candidate :: candidates, hlimit => by
      unfold collectResults
      split
      · rename_i hnone
        rw [collectResults_eq hlimit, List.filterMap_cons_none (by rw [hnone]; rfl)]
      · rename_i row hrow
        have htake : limit - results.length = limit - (results.length + 1) + 1 := by
          omega
        rw [List.filterMap_cons_some (by rw [hrow]; rfl), htake, List.take_succ_cons]
        simp only [List.length_append, List.length_singleton]
        split
        · rename_i hdone
          rw [hdone, Nat.sub_self, List.take_zero]
        · rw [collectResults_eq (by rw [List.length_append, List.length_singleton]; omega)]
          simp

/-- Every result is that of a candidate and a chunk that was loaded for it. -/
theorem exists_of_mem_collectResults {chunks : List SearchableChunk} {limit : ℕ}
    {result : SearchResult} :
    ∀ {results : List SearchResult} {candidates : List FusedCandidate},
      result ∈ collectResults chunks limit results candidates →
        result ∈ results ∨ ∃ candidate ∈ candidates, ∃ row ∈ chunks,
          result = searchResult candidate row
  | _, [], h => Or.inl h
  | results, candidate :: candidates, h => by
      unfold collectResults at h
      split at h
      · rcases exists_of_mem_collectResults h with hresult | ⟨c, hc, hrow⟩
        · apply Or.inl hresult
        · exact Or.inr ⟨c, List.mem_cons_of_mem candidate hc, hrow⟩
      · rename_i row hrow
        have hnew : result ∈ results ++ [searchResult candidate row] →
            result ∈ results ∨ ∃ c ∈ candidate :: candidates, ∃ row ∈ chunks,
              result = searchResult c row := by
          intro hmem
          rcases List.mem_append.mp hmem with hold | hlast
          · apply Or.inl hold
          · right
            use candidate, List.mem_cons_self, row, List.mem_of_find?_eq_some hrow
            apply List.mem_singleton.mp hlast
        simp only at h
        split at h
        · apply hnew h
        · rcases exists_of_mem_collectResults h with hresult | ⟨c, hc, hrow⟩
          · apply hnew hresult
          · exact Or.inr ⟨c, List.mem_cons_of_mem candidate hc, hrow⟩

/-- A search that passes the checks has a limit above zero. -/
theorem checkQuery_limit {q : SearchQuery} (h : ∃ normalized, checkQuery q = .ok normalized) :
  0 < q.limit.toNat
  := by
  obtain ⟨normalized, hcheck⟩ := h
  simp only [checkQuery] at hcheck
  split at hcheck
  · cases hcheck
  split at hcheck
  · cases hcheck
  · omega

/-- Every result is that of a candidate and the chunk that was loaded for it. -/
theorem exists_of_mem_collectResults_nil {chunks : List SearchableChunk} {limit : ℕ}
    {candidates : List FusedCandidate} {result : SearchResult} (hlimit : 0 < limit)
    (h : result ∈ collectResults chunks limit [] candidates) :
  ∃ candidate ∈ candidates, ∃ row ∈ chunks, row.id = candidate.chunkId
    ∧ result = searchResult candidate row
  := by
  rw [collectResults_eq hlimit, List.nil_append] at h
  obtain ⟨candidate, hcandidate, hresult⟩ := List.mem_filterMap.mp (List.mem_of_mem_take h)
  obtain ⟨row, hrow, hmake⟩ := Option.map_eq_some_iff.mp hresult
  have hid : row.id = candidate.chunkId := by
    simpa using List.find?_some hrow
  exact ⟨candidate, hcandidate, row, List.mem_of_find?_eq_some hrow, hid, hmake.symm⟩

/-- The result for a candidate, if it is a chunk of a ready document. -/
def SearchServices.resultOf (db : Database) (candidate : FusedCandidate) : Option SearchResult :=
  (db.searchable.find? fun row => row.id = candidate.chunkId).map (searchResult candidate)

/-- The results of ranked candidates: those of the candidates that are chunks of ready documents, up
to the limit. -/
theorem SearchServices.results_hydrate {db : Database} {q : SearchQuery}
    {ranked : List FusedCandidate} (hlimit : 0 < q.limit.toNat) :
  (hydrate db q ranked).results = (ranked.filterMap (resultOf db)).take q.limit.toNat
  := by
  simp only [hydrate]
  rw [collectResults_eq hlimit, List.nil_append, List.length_nil, Nat.sub_zero]
  congr 1
  apply List.filterMap_congr
  intro candidate hcandidate
  rw [resultOf, Database.find?_loadChunks (List.mem_map_of_mem hcandidate)]

/-- A candidate of the ranking is one of the candidates of the mode. -/
theorem SearchServices.exists_of_mem_rank {C : SearchServices} {mode : SearchMode}
    {keyword vector : List RetrievalCandidate} {fused : FusedCandidate}
    (h : fused ∈ C.rank mode keyword vector) :
  (∃ candidate ∈ keyword, candidate.chunkId = fused.chunkId)
    ∨ ∃ candidate ∈ vector, candidate.chunkId = fused.chunkId
  := by
  cases mode with
  | keyword =>
      obtain ⟨candidate, hcandidate, rfl⟩ := List.mem_map.mp h
      exact Or.inl ⟨candidate, hcandidate, rfl⟩
  | vector =>
      obtain ⟨candidate, hcandidate, rfl⟩ := List.mem_map.mp h
      exact Or.inr ⟨candidate, hcandidate, rfl⟩
  | hybrid => exact exists_of_mem_reciprocalRankFusion h

/-- Every result cites a chunk of a ready document. -/
theorem exists_of_mem_results {db : Database} {q : SearchQuery} {ranked : List FusedCandidate}
    {result : SearchResult} (h : result ∈ (SearchServices.hydrate db q ranked).results) :
  ∃ row ∈ db.searchable, result.citation.documentId = row.document.id
  := by
  rcases exists_of_mem_collectResults h with hnil | ⟨candidate, -, row, hrow, rfl⟩
  · cases hnil
  · have hsearchable := (List.mem_filter.mp hrow).1
    obtain ⟨-, -, hid, -⟩ := Database.mem_searchable.mp hsearchable
    use row, hsearchable, hid.symm

/-! ### What is searched -/

section SameSearchable

variable {db db' : Database} (h : db.SameSearchable db')

include h

theorem keyword_eq_of_searchable (C : SearchServices) (q : SearchQuery) :
  C.keyword db' q = C.keyword db q
  := by
  unfold SearchServices.keyword
  split
  · apply h.keywordCandidates_eq
  · rfl

theorem hydrate_eq_of_searchable (q : SearchQuery) (ranked : List FusedCandidate) :
  SearchServices.hydrate db' q ranked = SearchServices.hydrate db q ranked
  := by
  have hcollect : ∀ {chunkIds : List Uuid} {results : List SearchResult}
      {candidates : List FusedCandidate},
      collectResults (db'.loadChunks chunkIds) q.limit.toNat results candidates
        = collectResults (db.loadChunks chunkIds) q.limit.toNat results candidates := by
    intro chunkIds results candidates
    induction candidates generalizing results with
    | nil => rfl
    | cons candidate candidates ih =>
        simp only [collectResults, h.find?_loadChunks_eq, ih]
  simp only [SearchServices.hydrate, hcollect]

end SameSearchable

/-! ### The order of the points -/

instance (C : SearchServices) (vector : Vector) : Std.Total (C.precedes vector) where
  total := C.precedes_total vector

instance (C : SearchServices) (vector : Vector) : IsTrans Point (C.precedes vector) where
  trans := C.precedes_trans vector

/-! ### A sample deployment -/

/-- A deployment in which a text matches the query it is equal to, and points are as similar as the
product of their vectors is large. -/
def SearchServices.sample : SearchServices where
  candidateMultiplier := 4
  one_le_candidateMultiplier := by decide
  rrfK := 60
  one_le_rrfK := by decide
  ttlSeconds := 300
  round x := x
  matchesQuery query text := query = text
  tsRank _ _ := 1
  similarity v w := (List.zipWith (· * ·) v w).sum
  precedes v a b := Database.KeywordPrecedes (a.id, (List.zipWith (· * ·) v a.vector).sum)
    (b.id, (List.zipWith (· * ·) v b.vector).sum)
  precedes_total _ _ _ := Std.Total.total _ _
  precedes_trans _ _ _ _ h h' := IsTrans.trans _ _ _ h h'
  precedes_antisymm _ _ _ h h' := congrArg Prod.fst (Std.Antisymm.antisymm _ _ h h')

end KnowledgeSearch

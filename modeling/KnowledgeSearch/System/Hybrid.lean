import KnowledgeSearch.Retrieval.Fusion
import KnowledgeSearch.System.Isolation

/-!
# Hybrid search

With exact scores, a hybrid search one of whose retrievers finds nothing returns what the search of
the other mode does, but for the scores. The retrievers number what they find from one on, so the
fusion of their candidates with none keeps the order.
-/

namespace KnowledgeSearch

/-! ### Searches but for the scores -/

def FusedCandidate.unscored (fused : FusedCandidate) : FusedCandidate :=
  { fused with score := 0 }

def SearchResult.unscored (result : SearchResult) : SearchResult :=
  { result with score := 0 }

/-- The results of a search without their scores. -/
def SearchExecution.unscored (execution : SearchExecution) : List SearchResult :=
  execution.results.map SearchResult.unscored

namespace SearchServices

/-- `SearchService.search` for retrievers that return the given candidates. -/
def searchFrom (C : SearchServices) (db : Database) (q : SearchQuery)
    (keyword vector : List RetrievalCandidate) : Except AppError SearchExecution := do
  let _ ← checkQuery q
  .ok (hydrate db q (C.rank q.mode (if q.mode.usesKeyword then keyword else [])
    (if q.mode.usesVector then vector else [])))

/-- The results without their scores are those of the candidates without theirs. -/
theorem map_unscored_filterMap (db : Database) (ranked : List FusedCandidate) :
  (ranked.filterMap (resultOf db)).map SearchResult.unscored
    = (ranked.map FusedCandidate.unscored).filterMap (resultOf db)
  := by
  have hunscored : ∀ candidate : FusedCandidate,
      (resultOf db candidate).map SearchResult.unscored = resultOf db candidate.unscored := by
    intro candidate
    rw [resultOf, resultOf, Option.map_map]
    rfl
  rw [List.map_filterMap, List.filterMap_map]
  apply List.filterMap_congr
  intro candidate _
  apply hunscored

/-- Candidates that differ in their scores have results that differ in their scores. -/
theorem unscored_hydrate {db : Database} {q q' : SearchQuery} (hlimit : 0 < q.limit.toNat)
    (hsame : q'.limit = q.limit) {ranked ranked' : List FusedCandidate}
    (h : ranked'.map FusedCandidate.unscored = ranked.map FusedCandidate.unscored) :
  (hydrate db q' ranked').unscored = (hydrate db q ranked).unscored
  := by
  have hlimit' : 0 < q'.limit.toNat := by
    rw [hsame]
    apply hlimit
  rw [SearchExecution.unscored, SearchExecution.unscored, results_hydrate hlimit,
    results_hydrate hlimit', List.map_take, List.map_take, map_unscored_filterMap,
    map_unscored_filterMap, h, hsame]

/-! ### The candidates of the retrievers -/

/-- The full-text search finds a chunk once. -/
theorem exists_keyword_eq (C : SearchServices) (db : Database) (q : SearchQuery) :
  ∃ rows : List (Uuid × Score), C.keyword db q = rankedFrom 0 rows ∧ (rows.map Prod.fst).Nodup
  := by
  rw [keyword]
  split
  · refine ⟨_, rfl, ?_⟩
    have hperm := (List.perm_insertionSort Database.KeywordPrecedes
      ((db.searchable.filter fun row => C.matchesQuery (normalizeQuery q.query) row.chunk.text
        && q.filters.admits row.document.id row.document.mediaType).map fun row =>
          (row.id, C.tsRank (normalizeQuery q.query) row.chunk.text))).map Prod.fst
    apply List.Nodup.sublist ((List.take_sublist _ _).map Prod.fst)
    apply hperm.nodup_iff.mpr
    rw [List.map_map]
    apply List.pairwise_map.mpr
    apply db.pairwise_searchable.sublist List.filter_sublist
  · use []
    exact ⟨rfl, List.nodup_nil⟩

/-- The vector index finds a chunk once. -/
theorem exists_vector_eq (C : SearchServices) (S : Services) (index : VectorIndex)
    (q : SearchQuery) :
  ∃ rows : List (Uuid × Score), C.vector S index q = rankedFrom 0 rows ∧ (rows.map Prod.fst).Nodup
  := by
  rw [vector]
  split
  · refine ⟨_, rfl, ?_⟩
    rw [List.map_map, List.map_take]
    apply List.Nodup.sublist (List.take_sublist _ _)
    have hperm := (List.perm_insertionSort
      (C.precedes ((S.embedDocuments [normalizeQuery q.query]).headD []))
      (index.rows.filter fun point => q.filters.admits point.documentId point.mediaType)).map
        Point.id
    apply hperm.nodup_iff.mpr
    apply List.Nodup.sublist (List.filter_sublist.map _) index.nodup
  · use []
    exact ⟨rfl, List.nodup_nil⟩

/-- A search is that of its retrievers. -/
theorem search_eq_searchFrom (C : SearchServices) (S : Services) (s : Stores) {q : SearchQuery}
    (hmode : q.mode = .hybrid) (mode : SearchMode) :
  C.search S s { q with mode := mode }
    = C.searchFrom s.db { q with mode := mode } (C.keyword s.db q) (C.vector S s.index q)
  := by
  have hkeyword : C.keyword s.db { q with mode := mode }
      = if mode.usesKeyword then C.keyword s.db q else [] := by
    rw [keyword, keyword, hmode]
    rfl
  have hvector : C.vector S s.index { q with mode := mode }
      = if mode.usesVector then C.vector S s.index q else [] := by
    rw [vector, vector, hmode]
    rfl
  rw [search, searchFrom, hkeyword, hvector]

section Single

variable {C : SearchServices} (hround : ∀ x, C.round x = x)

include hround

/-- The ranking of the candidates of one retriever is the same in hybrid mode, but for the scores. -/
theorem unscored_rank_hybrid {rows : List (Uuid × Score)} (hrows : (rows.map Prod.fst).Nodup) :
  (C.rank .hybrid (rankedFrom 0 rows) []).map FusedCandidate.unscored
      = (C.rank .keyword (rankedFrom 0 rows) []).map FusedCandidate.unscored
    ∧ (C.rank .hybrid [] (rankedFrom 0 rows)).map FusedCandidate.unscored
      = (C.rank .vector [] (rankedFrom 0 rows)).map FusedCandidate.unscored
  := by
  have hexact : C.round = fun x => x := funext hround
  have hnodup : (chunkIds (rankedFrom 0 rows)).Nodup := by
    rw [chunkIds, map_rankedFrom]
    apply hrows
  have hnil : (chunkIds []).Nodup := List.nodup_nil
  have hfusion := reciprocalRankFusion_nil C.one_le_rrfK hnodup (pairwise_rankedFrom 0 rows)
  constructor
  · rw [rank, rank, hexact, hfusion, List.map_map, List.map_map]
    rfl
  · rw [rank, rank, hexact, ← map_swap_reciprocalRankFusion hnodup hnil, hfusion, List.map_map,
      List.map_map, List.map_map]
    rfl

/-- A hybrid search of a retriever that finds nothing is a search of the other, but for the
scores. -/
theorem unscored_searchFrom_hybrid {db : Database} {q : SearchQuery} {rows : List (Uuid × Score)}
    (hrows : (rows.map Prod.fst).Nodup) :
  (∀ vector, (C.searchFrom db { q with mode := .hybrid } (rankedFrom 0 rows) []).map
        SearchExecution.unscored
      = (C.searchFrom db { q with mode := .keyword } (rankedFrom 0 rows) vector).map
        SearchExecution.unscored)
    ∧ ∀ keyword, (C.searchFrom db { q with mode := .hybrid } [] (rankedFrom 0 rows)).map
        SearchExecution.unscored
      = (C.searchFrom db { q with mode := .vector } keyword (rankedFrom 0 rows)).map
        SearchExecution.unscored
  := by
  obtain ⟨hkeyword, hvector⟩ := unscored_rank_hybrid hround hrows
  have hcheck : ∀ mode, checkQuery { q with mode := mode } = checkQuery q := fun _ => rfl
  simp only [searchFrom, hcheck]
  cases hq : checkQuery q with
  | error e => exact ⟨fun _ => rfl, fun _ => rfl⟩
  | ok normalized =>
      have hlimit : 0 < q.limit.toNat := checkQuery_limit ⟨normalized, hq⟩
      constructor
      · intro vector
        apply congrArg Except.ok
        apply unscored_hydrate hlimit rfl hkeyword
      · intro keyword
        apply congrArg Except.ok
        apply unscored_hydrate hlimit rfl hvector

end Single

end SearchServices

/-- With exact scores a chunk comes before another in a fusion when neither of its ranks is worse
and one of them better, and stays before another when its ranks get better. When one of two
retrievers that number their candidates finds nothing, a hybrid search returns what the search of
the other does, with the same ranks; and so it does for the retrievers of the service. -/
theorem fusion_respects_ranks (C : SearchServices) (hround : ∀ x, C.round x = x)
    {keyword vector : List RetrievalCandidate} (hkeyword : (chunkIds keyword).Nodup)
    (hvector : (chunkIds vector).Nodup) :
  (∀ a b, (b ∈ chunkIds keyword ∨ b ∈ chunkIds vector) →
      RankLe (rankOf keyword a) (rankOf keyword b) → RankLe (rankOf vector a) (rankOf vector b) →
      (RankLt (rankOf keyword a) (rankOf keyword b) ∨ RankLt (rankOf vector a) (rankOf vector b)) →
        [a, b].Sublist ((reciprocalRankFusion C.round keyword vector C.rrfK).map fun fused =>
          fused.chunkId))
    ∧ (∀ keyword' vector' a b, (chunkIds keyword').Nodup → (chunkIds vector').Nodup →
      RankLe (rankOf keyword' a) (rankOf keyword a) → RankLe (rankOf vector' a) (rankOf vector a) →
      (∀ id ≠ a, rankOf keyword' id = rankOf keyword id ∧ rankOf vector' id = rankOf vector id) →
      [a, b].Sublist ((reciprocalRankFusion C.round keyword vector C.rrfK).map fun fused =>
          fused.chunkId) →
        [a, b].Sublist ((reciprocalRankFusion C.round keyword' vector' C.rrfK).map fun fused =>
          fused.chunkId))
    ∧ (∀ (db : Database) (q : SearchQuery) (rows : List (Uuid × Score)), (rows.map Prod.fst).Nodup →
      (∀ vector, (C.searchFrom db { q with mode := .hybrid } (rankedFrom 0 rows) []).map
          SearchExecution.unscored
        = (C.searchFrom db { q with mode := .keyword } (rankedFrom 0 rows) vector).map
          SearchExecution.unscored)
      ∧ ∀ keyword, (C.searchFrom db { q with mode := .hybrid } [] (rankedFrom 0 rows)).map
          SearchExecution.unscored
        = (C.searchFrom db { q with mode := .vector } keyword (rankedFrom 0 rows)).map
          SearchExecution.unscored)
    ∧ ∀ (S : Services) (s : Stores) (q : SearchQuery), q.mode = .hybrid →
      (C.vector S s.index q = [] → (C.search S s q).map SearchExecution.unscored
          = (C.search S s { q with mode := .keyword }).map SearchExecution.unscored)
      ∧ (C.keyword s.db q = [] → (C.search S s q).map SearchExecution.unscored
          = (C.search S s { q with mode := .vector }).map SearchExecution.unscored)
  := by
  have hexact : C.round = fun x => x := funext hround
  refine ⟨?_, ?_, ?_, ?_⟩
  · intro a b hb hkeywords hvectors hlt
    rw [hexact]
    apply pair_sublist_of_rankLt C.one_le_rrfK hkeyword hvector hb hkeywords hvectors hlt
  · intro keyword' vector' a b hnodup hnodup' hkeywords hvectors hkept
    rw [hexact]
    apply pair_sublist_of_rankLe C.one_le_rrfK hkeyword hvector hnodup hnodup' hkeywords hvectors
      hkept
  · intro db q rows hrows
    apply SearchServices.unscored_searchFrom_hybrid hround hrows
  · intro S s q hmode
    have hq : { q with mode := SearchMode.hybrid } = q := by
      rw [← hmode]
    have hsearch := C.search_eq_searchFrom S s hmode
    constructor
    · intro hnone
      obtain ⟨rows, hrows, hnodup⟩ := C.exists_keyword_eq s.db q
      have hfound := (@SearchServices.unscored_searchFrom_hybrid C hround s.db q rows hnodup).1 []
      rw [← hrows, ← hnone, ← hsearch, ← hsearch, hq] at hfound
      apply hfound
    · intro hnone
      obtain ⟨rows, hrows, hnodup⟩ := C.exists_vector_eq S s.index q
      have hfound := (@SearchServices.unscored_searchFrom_hybrid C hround s.db q rows hnodup).2 []
      rw [← hrows, ← hnone, ← hsearch, ← hsearch, hq] at hfound
      apply hfound

/-- The sample document in a deployment whose vector index is empty. -/
def sampleUnindexed : Stores :=
  { SearchServices.sampleStores with index := .empty }

/-- The first of two candidates of one search comes before the second, and a hybrid search for the
text of the sample document finds in an empty index what the full-text search does. -/
theorem fusion_respects_ranks_sample :
  [1, 2].Sublist ((reciprocalRankFusion SearchServices.sample.round sampleKeywords []
      SearchServices.sample.rrfK).map fun fused => fused.chunkId)
    ∧ (SearchServices.sample.search .sample sampleUnindexed
        ⟨"alpha".toList, .hybrid, 1, ⟨[], []⟩⟩).map SearchExecution.unscored
      = (SearchServices.sample.search .sample sampleUnindexed
        ⟨"alpha".toList, .keyword, 1, ⟨[], []⟩⟩).map SearchExecution.unscored
  := by
  obtain ⟨hdominates, -, -, hhybrid⟩ :=
    @fusion_respects_ranks .sample (fun _ => rfl) sampleKeywords [] (by decide) (by decide)
  constructor
  · apply hdominates 1 2
    · decide
    · exact one_le_two
    · trivial
    · left
      exact ⟨one_le_two, by decide⟩
  · apply (hhybrid .sample sampleUnindexed ⟨"alpha".toList, .hybrid, 1, ⟨[], []⟩⟩ rfl).1
    rfl

end KnowledgeSearch

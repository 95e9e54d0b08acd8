import KnowledgeSearch.Application.Search
import KnowledgeSearch.System.Withdrawal

/-!
# Isolation of searches

What a search can see of documents that are not ready. A full-text search sees nothing of them. The
vector index knows nothing of the states of documents, so that points of other documents take
places and ranks among the candidates until hydration drops them.

`search_isolated` compares the searches of two states that agree on the ready documents. Points of
others that come after the best ones of ready documents leave no trace; and a vector search, however
they come, differs in its ranks at most as long as they are no more than the candidates that are
fetched beyond the limit.
-/

namespace KnowledgeSearch

/-! ### States that agree on the ready documents -/

/-- The identifier is that of a chunk of a ready document. -/
def Database.cites (db : Database) (id : Uuid) : Bool :=
  db.searchable.any fun row => row.id = id

/-- Two states have the same ready documents, with the same chunks and the same points of these
chunks. -/
structure Stores.AgreesOnReady (s s' : Stores) : Prop where
  documents : ∀ document : Document, document.status = .ready →
    (document ∈ s'.db.documents ↔ document ∈ s.db.documents)
  chunks : ∀ document ∈ s.db.documents, document.status = .ready →
    ∀ chunk : Chunk, chunk.documentId = document.id →
      (chunk ∈ s'.db.chunks ↔ chunk ∈ s.db.chunks)
  points : ∀ point : Point, s.db.cites point.id = true → (point ∈ s'.index ↔ point ∈ s.index)

/-- States that agree on the ready documents are searched for the same chunks. -/
theorem Stores.AgreesOnReady.sameSearchable {s s' : Stores} (h : s.AgreesOnReady s') :
  s.db.SameSearchable s'.db
  := by
  intro row
  rw [Database.mem_searchable, Database.mem_searchable]
  constructor
  · rintro ⟨hchunk, hdocument, hid, hready⟩
    have hdocument' := (h.documents _ hready).mp hdocument
    use (h.chunks _ hdocument' hready _ hid.symm).mp hchunk, hdocument', hid
  · rintro ⟨hchunk, hdocument, hid, hready⟩
    use (h.chunks _ hdocument hready _ hid.symm).mpr hchunk, (h.documents _ hready).mpr hdocument, hid

theorem Database.SameSearchable.cites_eq {db db' : Database} (h : db.SameSearchable db') :
  db'.cites = db.cites
  := by
  funext id
  rw [cites, cites, ← List.isSome_find?, ← List.isSome_find?, h.find?_searchable_eq]

theorem Database.SameSearchable.resultOf_eq {db db' : Database} (h : db.SameSearchable db') :
  SearchServices.resultOf db' = SearchServices.resultOf db
  := by
  funext candidate
  rw [SearchServices.resultOf, SearchServices.resultOf, h.find?_searchable_eq]

/-- A candidate has a result exactly when it is a chunk of a ready document. -/
theorem SearchServices.isSome_resultOf (db : Database) (candidate : FusedCandidate) :
  (resultOf db candidate).isSome = db.cites candidate.chunkId
  := by
  rw [resultOf, Option.isSome_map, Database.cites, List.isSome_find?]

/-! ### The points of a search -/

/-- The points that pass the filters. -/
def VectorIndex.matching (index : VectorIndex) (filters : SearchFilters) : List Point :=
  index.rows.filter fun point => filters.admits point.documentId point.mediaType

namespace SearchServices

variable (C : SearchServices) (S : Services)

/-- The vector a query is searched with. -/
def queryVector (q : SearchQuery) : Vector :=
  (S.embedDocuments [normalizeQuery q.query]).headD []

/-- The points that pass the filters, in the order of the index. -/
def orderedPoints (s : Stores) (q : SearchQuery) : List Point :=
  (s.index.matching q.filters).insertionSort (C.precedes (queryVector S q))

/-- Those of them that are points of chunks of ready documents. -/
def readyPoints (s : Stores) (q : SearchQuery) : List Point :=
  ((s.index.matching q.filters).filter fun point => s.db.cites point.id).insertionSort
    (C.precedes (queryVector S q))

/-- None of the other points that pass the filters comes before one of the best `n` points of ready
documents. -/
def Uncrowded (n : ℕ) (s : Stores) (q : SearchQuery) : Prop :=
  ∀ point ∈ s.index.matching q.filters, s.db.cites point.id = false →
    ∀ best ∈ (C.readyPoints S s q).take n, ¬ C.precedes (queryVector S q) point best

/-- The points that pass the filters and are not points of chunks of ready documents. -/
def otherPoints (s : Stores) (q : SearchQuery) : List Point :=
  (s.index.matching q.filters).filter fun point => !s.db.cites point.id

/-- A point with its similarity to the query. -/
def scored (q : SearchQuery) (point : Point) : Uuid × Score :=
  (point.id, C.similarity (queryVector S q) point.vector)

variable {C S} {s s' : Stores} {q : SearchQuery}

/-- The candidates of the vector index are the best of the points. -/
theorem vector_eq (hmode : q.mode.usesVector = true) :
  C.vector S s.index q
    = rankedFrom 0 (((C.orderedPoints S s q).take (C.candidateLimit q).toNat).map (C.scored S q))
  := by
  rw [vector, if_pos hmode]
  rfl

/-- The limit is at most the number of candidates. -/
theorem limit_le_candidateLimit (hlimit : 0 < q.limit.toNat) :
  q.limit.toNat ≤ (C.candidateLimit q).toNat
  := by
  have hmultiplier : (1 : ℤ) ≤ C.candidateMultiplier := by
    exact_mod_cast C.one_le_candidateMultiplier
  apply Int.toNat_le_toNat
  rw [candidateLimit]
  apply le_mul_of_one_le_right _ hmultiplier
  omega

/-- The order of the index tells the points of an index apart. -/
theorem antisymm_matching (a b : Point) (ha : a ∈ s.index.matching q.filters)
    (hb : b ∈ s.index.matching q.filters) (hab : C.precedes (queryVector S q) a b)
    (hba : C.precedes (queryVector S q) b a) :
  a = b
  := by
  apply Table.eq_of_key_eq (t := s.index) (List.mem_of_mem_filter ha) (List.mem_of_mem_filter hb)
  apply C.precedes_antisymm _ a b hab hba

/-- States that agree on the ready documents have the same points of them. -/
theorem readyPoints_eq (h : s.AgreesOnReady s') :
  C.readyPoints S s' q = C.readyPoints S s q
  := by
  have hcites := h.sameSearchable.cites_eq
  have hmem : ∀ (s : Stores) (point : Point),
      point ∈ ((s.index.matching q.filters).filter fun point => s.db.cites point.id)
        ↔ point ∈ s.index ∧ q.filters.admits point.documentId point.mediaType = true
          ∧ s.db.cites point.id = true := by
    intro s point
    rw [List.mem_filter, VectorIndex.matching, List.mem_filter, Table.mem_def, and_assoc]
  have hnodup : ∀ s : Stores,
      ((s.index.matching q.filters).filter fun point => s.db.cites point.id).Nodup := by
    intro s
    apply List.Nodup.filter
    apply List.Nodup.filter
    apply List.Nodup.of_map _ s.index.nodup
  apply List.insertionSort_eq_of_perm
  · intro a ha b hb hab hba
    apply antisymm_matching a b (List.mem_of_mem_filter ha) (List.mem_of_mem_filter hb) hab hba
  · apply (List.perm_ext_iff_of_nodup (hnodup s') (hnodup s)).mpr
    intro point
    rw [hmem, hmem, hcites]
    constructor
    · rintro ⟨hpoint, hadmits, hcited⟩
      use (h.points point hcited).mp hpoint, hadmits
    · rintro ⟨hpoint, hadmits, hcited⟩
      use (h.points point hcited).mpr hpoint, hadmits

theorem cites_of_mem_readyPoints {point : Point} (h : point ∈ C.readyPoints S s q) :
  s.db.cites point.id = true
  := by
  have hmem := (List.mem_insertionSort _).mp h
  apply (List.mem_filter.mp hmem).2

/-- The points of ready documents among the points of a search. -/
theorem filter_orderedPoints :
  (C.orderedPoints S s q).filter (fun point => s.db.cites point.id) = C.readyPoints S s q
  := List.filter_insertionSort _ _

/-- When the search is not crowded, its candidates are the best points of ready documents, and
others fill up. -/
theorem take_orderedPoints {m n : ℕ} (hmn : m ≤ n) (h : C.Uncrowded S m s q) :
  ∃ rest, (C.orderedPoints S s q).take n = (C.readyPoints S s q).take m ++ rest
    ∧ (((C.readyPoints S s q).take m).length < m → ∀ point ∈ rest, s.db.cites point.id = false)
  := by
  apply List.take_insertionSort hmn
  · intro a ha b hb hab hba
    apply antisymm_matching a b ha hb hab hba
  · intro best hbest point hpoint hcites
    rcases C.precedes_total (queryVector S q) best point with hle | hle
    · apply hle
    · exact absurd hle (h point hpoint hcites best hbest)

/-! ### Results of ready documents -/

/-- Candidates that are not chunks of ready documents have no results. -/
theorem filterMap_resultOf_eq_nil {db : Database} {ranked : List FusedCandidate}
    (h : ∀ candidate ∈ ranked, db.cites candidate.chunkId = false) :
  ranked.filterMap (resultOf db) = []
  := by
  apply List.filterMap_eq_nil_iff.mpr
  intro candidate hcandidate
  rw [← Option.not_isSome_iff_eq_none, isSome_resultOf, h candidate hcandidate]
  simp

/-- The results are those of the candidates that are chunks of ready documents. -/
theorem filterMap_resultOf_filter (db : Database) (ranked : List FusedCandidate) :
  (ranked.filter fun candidate => db.cites candidate.chunkId).filterMap (resultOf db)
    = ranked.filterMap (resultOf db)
  := by
  induction ranked with
  | nil => rfl
  | cons candidate ranked ih =>
      by_cases hcites : db.cites candidate.chunkId = true
      · rw [List.filter_cons, if_pos hcites, List.filterMap_cons, List.filterMap_cons, ih]
      · have hnone : resultOf db candidate = none := by
          rw [← Option.not_isSome_iff_eq_none, isSome_resultOf]
          apply hcites
        rw [List.filter_cons, if_neg hcites, List.filterMap_cons_none hnone, ih]

/-- Candidates that are chunks of ready documents have a result each. -/
theorem take_filterMap_resultOf {db : Database} {ranked : List FusedCandidate}
    (h : ∀ candidate ∈ ranked, db.cites candidate.chunkId = true) (n : ℕ) :
  (ranked.filterMap (resultOf db)).take n = (ranked.take n).filterMap (resultOf db)
  := by
  induction ranked generalizing n with
  | nil => simp
  | cons candidate ranked ih =>
      obtain ⟨hcandidate, hranked⟩ := List.forall_mem_cons.mp h
      obtain ⟨result, hresult⟩ := Option.isSome_iff_exists.mp
        ((isSome_resultOf db candidate).trans hcandidate)
      cases n with
      | zero => rfl
      | succ n =>
          rw [List.filterMap_cons_some hresult, List.take_succ_cons, List.take_succ_cons,
            List.filterMap_cons_some hresult, ih hranked]

/-- The candidates of points, ranked for a vector search. -/
def rankedPoints (C : SearchServices) (S : Services) (q : SearchQuery) (n : ℕ)
    (points : List Point) : List FusedCandidate :=
  (rankedFrom n (points.map (C.scored S q))).map fun candidate =>
    ⟨candidate.chunkId, candidate.score, none, some candidate.rank⟩

theorem rank_vector (hmode : q.mode = .vector) {keyword : List RetrievalCandidate} :
  C.rank q.mode keyword (C.vector S s.index q)
    = C.rankedPoints S q 0 ((C.orderedPoints S s q).take (C.candidateLimit q).toNat)
  := by
  rw [vector_eq (by rw [hmode]; rfl), hmode]
  rfl

theorem rankedPoints_append (n : ℕ) (points points' : List Point) :
  C.rankedPoints S q n (points ++ points')
    = C.rankedPoints S q n points ++ C.rankedPoints S q (n + points.length) points'
  := by
  rw [rankedPoints, List.map_append, rankedFrom_append, List.map_append, List.length_map]
  rfl

theorem exists_of_mem_rankedPoints {n : ℕ} {points : List Point} {candidate : FusedCandidate}
    (h : candidate ∈ C.rankedPoints S q n points) :
  ∃ point ∈ points, point.id = candidate.chunkId
  := by
  obtain ⟨retrieved, hretrieved, rfl⟩ := List.mem_map.mp h
  obtain ⟨row, hrow, hid⟩ := exists_of_mem_rankedFrom hretrieved
  obtain ⟨point, hpoint, rfl⟩ := List.mem_map.mp hrow
  use point, hpoint, hid

theorem length_rankedPoints (n : ℕ) (points : List Point) :
  (C.rankedPoints S q n points).length = points.length
  := by
  have hlength := congrArg List.length (map_scored_rankedFrom n (points.map (C.scored S q)))
  rw [List.length_map, List.length_map] at hlength
  rw [rankedPoints, List.length_map, hlength]

/-- The results of a vector search that is not crowded are those of the best points of ready
documents. -/
theorem results_vector (hmode : q.mode = .vector) (hlimit : 0 < q.limit.toNat)
    (h : C.Uncrowded S q.limit.toNat s q) {keyword : List RetrievalCandidate} :
  (hydrate s.db q (C.rank q.mode keyword (C.vector S s.index q))).results
    = (C.rankedPoints S q 0 ((C.readyPoints S s q).take q.limit.toNat)).filterMap (resultOf s.db)
  := by
  obtain ⟨rest, hrest, hothers⟩ := take_orderedPoints (limit_le_candidateLimit (C := C) hlimit) h
  rw [results_hydrate hlimit, rank_vector hmode, hrest, rankedPoints_append, List.filterMap_append]
  have hcites : ∀ candidate ∈ C.rankedPoints S q 0 ((C.readyPoints S s q).take q.limit.toNat),
      s.db.cites candidate.chunkId = true := by
    intro candidate hcandidate
    obtain ⟨point, hpoint, hid⟩ := exists_of_mem_rankedPoints hcandidate
    rw [← hid]
    apply cites_of_mem_readyPoints (List.mem_of_mem_take hpoint)
  by_cases hlt : ((C.readyPoints S s q).take q.limit.toNat).length < q.limit.toNat
  · have hnone : (C.rankedPoints S q (0 + ((C.readyPoints S s q).take q.limit.toNat).length)
        rest).filterMap (resultOf s.db) = [] := by
      apply filterMap_resultOf_eq_nil
      intro candidate hcandidate
      obtain ⟨point, hpoint, hid⟩ := exists_of_mem_rankedPoints hcandidate
      rw [← hid]
      apply hothers hlt point hpoint
    rw [hnone, List.append_nil, take_filterMap_resultOf hcites, List.take_of_length_le]
    rw [length_rankedPoints]
    apply hlt.le
  · have hlength : ((C.rankedPoints S q 0 ((C.readyPoints S s q).take q.limit.toNat)).filterMap
        (resultOf s.db)).length = ((C.readyPoints S s q).take q.limit.toNat).length := by
      rw [List.filterMap_length_eq_length.mpr, length_rankedPoints]
      intro candidate hcandidate
      rw [isSome_resultOf, hcites candidate hcandidate]
    rw [List.take_append_of_le_length (by rw [hlength]; exact not_lt.mp hlt), List.take_of_length_le]
    rw [hlength]
    apply List.length_take_le

/-- A keyword candidate is a chunk of a ready document. -/
theorem cites_of_mem_keyword {candidate : RetrievalCandidate} (h : candidate ∈ C.keyword s.db q) :
  s.db.cites candidate.chunkId = true
  := by
  unfold keyword at h
  split at h
  · obtain ⟨row, hrow, hid⟩ := exists_of_mem_rankedFrom h
    have hmem := (List.mem_insertionSort _).mp (List.mem_of_mem_take hrow)
    obtain ⟨found, hfound, rfl⟩ := List.mem_map.mp hmem
    apply List.any_eq_true.mpr
    use found, (List.mem_filter.mp hfound).1
    simpa using hid
  · cases h

/-- The results of a hybrid search that is not crowded are those of the fusion with the best points
of ready documents. -/
theorem results_hybrid (hmode : q.mode = .hybrid) (hlimit : 0 < q.limit.toNat)
    (h : C.Uncrowded S (C.candidateLimit q).toNat s q) :
  (hydrate s.db q (C.rank q.mode (C.keyword s.db q) (C.vector S s.index q))).results
    = ((reciprocalRankFusion C.round (C.keyword s.db q) (rankedFrom 0
        (((C.readyPoints S s q).take (C.candidateLimit q).toNat).map (C.scored S q)))
          C.rrfK).filterMap (resultOf s.db)).take q.limit.toNat
  := by
  obtain ⟨rest, hrest, hothers⟩ := take_orderedPoints le_rfl h
  have hnone : ∀ point ∈ rest, s.db.cites point.id = false := by
    intro point hpoint
    apply hothers _ point hpoint
    have hlength := congrArg List.length hrest
    have hpos := List.length_pos_of_mem hpoint
    have hle := List.length_take_le (C.candidateLimit q).toNat (C.orderedPoints S s q)
    rw [List.length_append] at hlength
    omega
  rw [results_hydrate hlimit, vector_eq (by rw [hmode]; rfl), hmode, hrest, List.map_append,
    rankedFrom_append, rank, ← filterMap_resultOf_filter, filter_reciprocalRankFusion]
  · intro candidate hcandidate
    apply cites_of_mem_keyword hcandidate
  · intro candidate hcandidate
    obtain ⟨row, hrow, hid⟩ := exists_of_mem_rankedFrom hcandidate
    obtain ⟨point, hpoint, rfl⟩ := List.mem_map.mp hrow
    rw [← hid]
    apply cites_of_mem_readyPoints (List.mem_of_mem_take hpoint)
  · intro candidate hcandidate
    obtain ⟨row, hrow, hid⟩ := exists_of_mem_rankedFrom hcandidate
    obtain ⟨point, hpoint, rfl⟩ := List.mem_map.mp hrow
    rw [← hid]
    apply hnone point hpoint

end SearchServices

/-! ### Results without their ranks -/

/-- A result without its ranks. -/
def SearchResult.unranked (result : SearchResult) : SearchResult :=
  { result with keywordRank := none, vectorRank := none }

/-- What a search finds, without the ranks. -/
def SearchExecution.unranked (execution : SearchExecution) : SearchExecution :=
  { execution with results := execution.results.map SearchResult.unranked }

namespace SearchServices

variable {C : SearchServices} {S : Services} {s : Stores} {q : SearchQuery}

/-- The results of the candidates of points, without the ranks. -/
theorem map_unranked_filterMap (db : Database) (points : List Point) :
  ((C.rankedPoints S q 0 points).filterMap (resultOf db)).map SearchResult.unranked
    = points.filterMap fun point => resultOf db ⟨point.id, (C.scored S q point).2, none, none⟩
  := by
  have hunranked : ∀ candidate : FusedCandidate,
      (resultOf db candidate).map SearchResult.unranked
        = resultOf db ⟨candidate.chunkId, candidate.score, none, none⟩ := by
    intro candidate
    rw [resultOf, resultOf, Option.map_map]
    rfl
  calc ((C.rankedPoints S q 0 points).filterMap (resultOf db)).map SearchResult.unranked
    _ = (C.rankedPoints S q 0 points).filterMap fun candidate =>
          resultOf db ⟨candidate.chunkId, candidate.score, none, none⟩ := by
        rw [List.map_filterMap]
        simp only [hunranked]
    _ = ((rankedFrom 0 (points.map (C.scored S q))).map fun candidate =>
          (candidate.chunkId, candidate.score)).filterMap fun row =>
            resultOf db ⟨row.1, row.2, none, none⟩ := by
        rw [rankedPoints, List.filterMap_map, List.filterMap_map]
        rfl
    _ = points.filterMap fun point => resultOf db ⟨point.id, (C.scored S q point).2, none, none⟩ := by
        rw [map_scored_rankedFrom, List.filterMap_map]
        rfl

/-- The results of a vector search, but for their ranks, are those of the best points of ready
documents when the other points are no more than the candidates beyond the limit. -/
theorem unranked_results_vector (hmode : q.mode = .vector) (hlimit : 0 < q.limit.toNat)
    (h : (otherPoints s q).length ≤ (C.candidateLimit q).toNat - q.limit.toNat)
    {keyword : List RetrievalCandidate} :
  (hydrate s.db q (C.rank q.mode keyword (C.vector S s.index q))).results.map SearchResult.unranked
    = ((C.readyPoints S s q).take q.limit.toNat).filterMap fun point =>
        resultOf s.db ⟨point.id, (C.scored S q point).2, none, none⟩
  := by
  have hothers : ((C.orderedPoints S s q).filter fun point => !s.db.cites point.id).length
      ≤ (C.candidateLimit q).toNat - q.limit.toNat := by
    rw [orderedPoints, List.filter_insertionSort, List.length_insertionSort]
    apply h
  have hready : (((C.orderedPoints S s q).take (C.candidateLimit q).toNat).filter fun point =>
      s.db.cites point.id).take q.limit.toNat = (C.readyPoints S s q).take q.limit.toNat := by
    rw [List.take_filter_take (limit_le_candidateLimit hlimit) hothers, filter_orderedPoints]
  rw [results_hydrate hlimit, rank_vector hmode, List.map_take, map_unranked_filterMap, ← hready]
  generalize (C.orderedPoints S s q).take (C.candidateLimit q).toNat = points
  set candidate : Point → FusedCandidate := fun point =>
    ⟨point.id, (C.scored S q point).2, none, none⟩
  have hmap : ∀ points : List Point, (points.filterMap fun point => resultOf s.db (candidate point))
      = (points.map candidate).filterMap (resultOf s.db) := by
    intro points
    rw [List.filterMap_map]
    rfl
  have hfilter : (points.map candidate).filter (fun candidate => s.db.cites candidate.chunkId)
      = (points.filter fun point => s.db.cites point.id).map candidate := by
    rw [List.filter_map]
    rfl
  rw [hmap, hmap, ← filterMap_resultOf_filter, hfilter, take_filterMap_resultOf, ← List.map_take]
  intro fused hfused
  obtain ⟨point, hpoint, rfl⟩ := List.mem_map.mp hfused
  apply (List.mem_filter.mp hpoint).2

/-- Two searches that go through find the same when their results are the same. -/
theorem hydrate_eq {db db' : Database} {ranked ranked' : List FusedCandidate}
    (h : (hydrate db' q ranked').results = (hydrate db q ranked).results) :
  hydrate db' q ranked' = hydrate db q ranked
  := congrArg (SearchExecution.mk (normalizeQuery q.query) q.mode) h

/-! ### The searches of two states -/

/-- States that agree on the ready documents give the same full-text searches. A vector search of
the two gives the same results but for their ranks when in neither of them there are more points of
others than candidates beyond the limit, and the same ranks as well when in neither of them a point
of others comes before the best points of ready documents, as many as the limit. A hybrid search
gives the same results when none comes before as many as there are candidates. -/
theorem search_isolated (C : SearchServices) (S : Services) {s s' : Stores}
    (h : s.AgreesOnReady s') (q : SearchQuery) :
  (q.mode = .keyword → C.search S s' q = C.search S s q)
  ∧ (q.mode = .vector →
      (otherPoints s q).length ≤ (C.candidateLimit q).toNat - q.limit.toNat →
      (otherPoints s' q).length ≤ (C.candidateLimit q).toNat - q.limit.toNat →
      (C.search S s' q).map SearchExecution.unranked = (C.search S s q).map SearchExecution.unranked)
  ∧ (q.mode = .vector → C.Uncrowded S q.limit.toNat s q → C.Uncrowded S q.limit.toNat s' q →
      C.search S s' q = C.search S s q)
  ∧ (q.mode = .hybrid → C.Uncrowded S (C.candidateLimit q).toNat s q →
      C.Uncrowded S (C.candidateLimit q).toNat s' q → C.search S s' q = C.search S s q)
  := by
  have hsearchable := h.sameSearchable
  have hresultOf := hsearchable.resultOf_eq
  cases hcheck : checkQuery q with
  | error error => simp [search, hcheck, bind, Except.bind]
  | ok normalized =>
      have hlimit : 0 < q.limit.toNat := checkQuery_limit ⟨normalized, hcheck⟩
      have hsearch : ∀ s, C.search S s q
          = .ok (hydrate s.db q (C.rank q.mode (C.keyword s.db q) (C.vector S s.index q))) := by
        intro s
        simp [search, hcheck, bind, Except.bind]
      refine ⟨?_, ?_, ?_, ?_⟩
      · intro hmode
        rw [hsearch, hsearch, keyword_eq_of_searchable hsearchable,
          hydrate_eq_of_searchable hsearchable, hmode]
        rfl
      · intro hmode hothers hothers'
        rw [hsearch, hsearch]
        apply congrArg Except.ok
        apply congrArg (SearchExecution.mk (normalizeQuery q.query) q.mode)
        calc (hydrate s'.db q (C.rank q.mode (C.keyword s'.db q)
                (C.vector S s'.index q))).results.map SearchResult.unranked
          _ = ((C.readyPoints S s' q).take q.limit.toNat).filterMap fun point =>
                resultOf s'.db ⟨point.id, (C.scored S q point).2, none, none⟩ := by
              apply unranked_results_vector hmode hlimit hothers'
          _ = ((C.readyPoints S s q).take q.limit.toNat).filterMap fun point =>
                resultOf s.db ⟨point.id, (C.scored S q point).2, none, none⟩ := by
              rw [readyPoints_eq h, hresultOf]
          _ = (hydrate s.db q (C.rank q.mode (C.keyword s.db q)
                (C.vector S s.index q))).results.map SearchResult.unranked := by
              symm
              apply unranked_results_vector hmode hlimit hothers
      · intro hmode huncrowded huncrowded'
        rw [hsearch, hsearch]
        apply congrArg Except.ok
        apply hydrate_eq
        rw [results_vector hmode hlimit huncrowded',
          results_vector hmode hlimit huncrowded, readyPoints_eq h, hresultOf]
      · intro hmode huncrowded huncrowded'
        rw [hsearch, hsearch]
        apply congrArg Except.ok
        apply hydrate_eq
        rw [results_hybrid hmode hlimit huncrowded',
          results_hybrid hmode hlimit huncrowded, readyPoints_eq h, hresultOf,
          keyword_eq_of_searchable hsearchable]

/-! ### A crowded index -/

/-- Points that are left of a document that is gone. -/
def samplePoints : List Point :=
  (List.range 4).map fun n =>
    ⟨BitVec.ofNat 128 n, [7], 0x5555555555554555a555555555555555, .text, n, [], none, []⟩

/-- The sample document once it is ready. -/
def sampleStores : Stores :=
  (System.sampleAfter System.sampleReady).stores

/-- The same document beside the points that are left of another. -/
def sampleCrowded : Stores :=
  { sampleStores with index := sampleStores.index.putAll samplePoints }

/-- A vector search for the text of the sample document. -/
def sampleVector (limit : ℤ) : SearchQuery :=
  ⟨"alpha".toList, .vector, limit, ⟨[], []⟩⟩

theorem agreesOnReady_sampleCrowded :
  sampleStores.AgreesOnReady sampleCrowded
  where
  documents _ _ := Iff.rfl
  chunks _ _ _ _ _ := Iff.rfl
  points := by
    have hcites : (samplePoints.all fun point => !sampleStores.db.cites point.id) = true := by
      decide +kernel
    intro point hcited
    have hkeys : ∀ other ∈ samplePoints, point.id ≠ other.id := by
      intro other hother hid
      have hnot := List.all_eq_true.mp hcites other hother
      rw [← hid, hcited] at hnot
      cases hnot
    constructor
    · intro hpoint
      rcases Table.mem_of_mem_putAll hpoint with hnew | hold
      · exact absurd rfl (hkeys point hnew)
      · apply hold
    · intro hpoint
      apply Table.mem_putAll_of_mem hpoint hkeys

/-- A vector search for two results gets over the four points of others, and a full-text search does
not see them. -/
theorem search_isolated_sample :
  (SearchServices.sample.search .sample sampleCrowded (sampleVector 2)).map SearchExecution.unranked
    = (SearchServices.sample.search .sample sampleStores (sampleVector 2)).map
      SearchExecution.unranked
  ∧ SearchServices.sample.search .sample sampleCrowded ⟨"alpha".toList, .keyword, 1, ⟨[], []⟩⟩
    = SearchServices.sample.search .sample sampleStores ⟨"alpha".toList, .keyword, 1, ⟨[], []⟩⟩
  := by
  constructor
  · apply (search_isolated .sample .sample agreesOnReady_sampleCrowded (sampleVector 2)).2.1 rfl
    · decide +kernel
    · decide +kernel
  · apply (search_isolated .sample .sample agreesOnReady_sampleCrowded _).1 rfl

/-- A vector search for one result finds nothing, since the points of another document take all
places among its candidates. -/
theorem not_search_isolated_sampleCrowded :
  ¬ ∀ (C : SearchServices) (S : Services) (s s' : Stores) (q : SearchQuery), s.AgreesOnReady s' →
    C.search S s' q = C.search S s q
  := by
  intro hall
  have heq := hall .sample .sample sampleStores sampleCrowded (sampleVector 1)
    agreesOnReady_sampleCrowded
  have hnone : (SearchServices.sample.search .sample sampleCrowded (sampleVector 1)).toOption.all
      (fun execution => execution.results.isEmpty) = true := by
    decide +kernel
  have hsome : (SearchServices.sample.search .sample sampleStores (sampleVector 1)).toOption.all
      (fun execution => execution.results.isEmpty) = false := by
    decide +kernel
  rw [heq, hsome] at hnone
  cases hnone

end SearchServices

end KnowledgeSearch

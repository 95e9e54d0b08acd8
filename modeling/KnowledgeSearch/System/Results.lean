import KnowledgeSearch.System.Freshness
import KnowledgeSearch.System.Hybrid

/-!
# The order of results

The results of a search are of different chunks and strictly in order: by the rank of their retriever, or
by the score of the fusion. `SearchSystem.results_ranked` says so for all calls of search, and
`SearchSystem.keyword_exact` which results a full-text search has. That a cached result is the fresh one
rests on atomic transactions.
-/

namespace KnowledgeSearch

open Database

/-! ### Ranked candidates -/

/-- One candidate comes before another in a ranking of the mode. -/
def FusedCandidate.Before (mode : SearchMode) (a b : FusedCandidate) : Prop :=
  match mode with
  | .keyword => ∃ m n, a.keywordRank = some m ∧ b.keywordRank = some n ∧ m < n
  | .vector => ∃ m n, a.vectorRank = some m ∧ b.vectorRank = some n ∧ m < n
  | .hybrid => b.score < a.score
      ∨ b.score = a.score ∧ textLe a.chunkId.text b.chunkId.text = true
        ∧ a.chunkId.text ≠ b.chunkId.text

/-- The candidate has the ranks a ranking of the mode gives. -/
structure FusedCandidate.Placed (mode : SearchMode) (candidate : FusedCandidate) : Prop where
  found : candidate.keywordRank.isSome ∨ candidate.vectorRank.isSome
  keyword : ∀ rank ∈ candidate.keywordRank, mode.usesKeyword = true ∧ 1 ≤ rank
  vector : ∀ rank ∈ candidate.vectorRank, mode.usesVector = true ∧ 1 ≤ rank

/-- Candidates of different chunks in the order of the mode. -/
structure Ranked (mode : SearchMode) (candidates : List FusedCandidate) : Prop where
  nodup : candidates.Pairwise fun a b => a.chunkId ≠ b.chunkId
  ordered : candidates.Pairwise (FusedCandidate.Before mode)
  placed : ∀ candidate ∈ candidates, candidate.Placed mode

/-- Candidates that are ranked from one on, of different chunks. -/
def FromOne (candidates : List RetrievalCandidate) : Prop :=
  ∃ rows : List (Uuid × Score), candidates = rankedFrom 0 rows ∧ (rows.map Prod.fst).Nodup

theorem FromOne.nodup {candidates : List RetrievalCandidate} (h : FromOne candidates) :
  candidates.Pairwise fun a b => a.chunkId ≠ b.chunkId
  := by
  obtain ⟨rows, rfl, hnodup⟩ := h
  rw [← map_rankedFrom 0 rows] at hnodup
  apply List.pairwise_map.mp hnodup

theorem FromOne.ordered {candidates : List RetrievalCandidate} (h : FromOne candidates) :
  candidates.Pairwise fun a b => a.rank < b.rank
  := by
  obtain ⟨rows, rfl, -⟩ := h
  apply pairwise_rankedFrom

/-- A candidate has a rank in the lists it is in, and only there. -/
theorem placed_of_rankOf {mode : SearchMode} {keyword vector : List RetrievalCandidate} {id : Uuid}
    {score : Score} (h : (∃ candidate ∈ keyword, candidate.chunkId = id)
      ∨ ∃ candidate ∈ vector, candidate.chunkId = id) (hmode : mode = .hybrid) :
  FusedCandidate.Placed mode ⟨id, score, rankOf keyword id, rankOf vector id⟩
  := by
  subst hmode
  have hfound : ∀ {candidates : List RetrievalCandidate},
      (∃ candidate ∈ candidates, candidate.chunkId = id) → (rankOf candidates id).isSome := by
    rintro candidates ⟨candidate, hcandidate, hid⟩
    rw [Option.isSome_iff_ne_none, ne_eq, rankOf_eq_none_iff, not_not, ← hid]
    apply List.mem_map_of_mem hcandidate
  have hpositive : ∀ (candidates : List RetrievalCandidate), ∀ rank ∈ rankOf candidates id, 1 ≤ rank := by
    intro candidates rank hrank
    obtain ⟨candidate, -, rfl⟩ := Option.map_eq_some_iff.mp hrank
    apply candidate.valid
  constructor
  · apply h.imp hfound hfound
  · intro rank hrank
    use rfl, hpositive keyword rank hrank
  · intro rank hrank
    use rfl, hpositive vector rank hrank

/-- A fusion is in the order of its scores, whatever the rounding. -/
theorem ranked_reciprocalRankFusion (round : ℚ → Score) (keyword vector : List RetrievalCandidate)
    (rrfK : ℕ) :
  Ranked .hybrid (reciprocalRankFusion round keyword vector rrfK)
  := by
  have hnodup : (reciprocalRankFusion round keyword vector rrfK).Pairwise
      fun a b => a.chunkId ≠ b.chunkId := by
    rw [← List.pairwise_map (f := fun fused : FusedCandidate => fused.chunkId)]
    set scores := vector.foldl (addReciprocal round rrfK)
      (keyword.foldl (addReciprocal round rrfK) .empty)
    have hperm := (List.perm_insertionSort FusedCandidate.Precedes (scores.rows.map fun r =>
      (⟨r.1, r.2, rankOf keyword r.1, rankOf vector r.1⟩ : FusedCandidate))).map
        fun fused => fused.chunkId
    apply hperm.nodup_iff.mpr
    rw [List.map_map]
    apply scores.nodup
  constructor
  · apply hnodup
  · have hsorted : (reciprocalRankFusion round keyword vector rrfK).Pairwise FusedCandidate.Precedes :=
      List.pairwise_insertionSort _ _
    apply (hsorted.and hnodup).imp
    rintro a b ⟨hlt | ⟨hscore, htext⟩, hne⟩
    · exact Or.inl hlt
    · exact Or.inr ⟨hscore, htext, fun heq => hne (Uuid.text_injective heq)⟩
  · intro fused hfused
    have hfound := exists_of_mem_reciprocalRankFusion hfused
    obtain ⟨entry, -, rfl⟩ := List.mem_map.mp ((List.mem_insertionSort _).mp hfused)
    apply placed_of_rankOf hfound rfl

/-- The candidates of a retriever or of both are ranked. -/
theorem SearchServices.ranked_rank (C : SearchServices) {mode : SearchMode}
    {keyword vector : List RetrievalCandidate} (hkeyword : FromOne keyword) (hvector : FromOne vector) :
  Ranked mode (C.rank mode keyword vector)
  := by
  cases mode with
  | hybrid => apply ranked_reciprocalRankFusion
  | keyword =>
      constructor
      · apply List.pairwise_map.mpr
        apply hkeyword.nodup
      · apply List.pairwise_map.mpr
        apply hkeyword.ordered.imp
        intro a b hlt
        exact ⟨a.rank, b.rank, rfl, rfl, hlt⟩
      · intro fused hfused
        obtain ⟨candidate, -, rfl⟩ := List.mem_map.mp hfused
        constructor
        · exact Or.inl rfl
        · rintro _ ⟨⟩
          use rfl, candidate.valid
        · rintro _ ⟨⟩
  | vector =>
      constructor
      · apply List.pairwise_map.mpr
        apply hvector.nodup
      · apply List.pairwise_map.mpr
        apply hvector.ordered.imp
        intro a b hlt
        exact ⟨a.rank, b.rank, rfl, rfl, hlt⟩
      · intro fused hfused
        obtain ⟨candidate, -, rfl⟩ := List.mem_map.mp hfused
        constructor
        · exact Or.inr rfl
        · rintro _ ⟨⟩
        · rintro _ ⟨⟩
          use rfl, candidate.valid

/-! ### Ranked results -/

/-- One result comes before another in the order of the mode. -/
def SearchResult.Before (mode : SearchMode) (a b : SearchResult) : Prop :=
  match mode with
  | .keyword => ∃ m n, a.keywordRank = some m ∧ b.keywordRank = some n ∧ m < n
  | .vector => ∃ m n, a.vectorRank = some m ∧ b.vectorRank = some n ∧ m < n
  | .hybrid => b.score < a.score
      ∨ b.score = a.score ∧ textLe a.citation.chunkId.text b.citation.chunkId.text = true
        ∧ a.citation.chunkId.text ≠ b.citation.chunkId.text

/-- The result has the ranks a search of the mode gives. -/
structure SearchResult.Placed (mode : SearchMode) (result : SearchResult) : Prop where
  found : result.keywordRank.isSome ∨ result.vectorRank.isSome
  keyword : ∀ rank ∈ result.keywordRank, mode.usesKeyword = true ∧ 1 ≤ rank
  vector : ∀ rank ∈ result.vectorRank, mode.usesVector = true ∧ 1 ≤ rank

/-- The results are of different chunks and in the order of the mode. -/
structure SearchExecution.Ranked (execution : SearchExecution) : Prop where
  nodup : execution.results.Pairwise fun a b => a.citation.chunkId ≠ b.citation.chunkId
  ordered : execution.results.Pairwise (SearchResult.Before execution.mode)
  placed : ∀ result ∈ execution.results, result.Placed execution.mode

theorem FusedCandidate.Before.searchResult {mode : SearchMode} {a b : FusedCandidate}
    {row row' : SearchableChunk} (h : a.Before mode b) (ha : row.id = a.chunkId)
    (hb : row'.id = b.chunkId) :
  (searchResult a row).Before mode (searchResult b row')
  := by
  cases mode with
  | keyword | vector =>
      obtain ⟨m, n, hm, hn, hlt⟩ := h
      refine ⟨m, n, ?_, ?_, Int.ofNat_lt.mpr hlt⟩
      · simp [KnowledgeSearch.searchResult, hm]
      · simp [KnowledgeSearch.searchResult, hn]
  | hybrid =>
      rw [Before, ← ha, ← hb] at h
      apply h

theorem FusedCandidate.Placed.searchResult {mode : SearchMode} {candidate : FusedCandidate}
    (h : candidate.Placed mode) (row : SearchableChunk) :
  (KnowledgeSearch.searchResult candidate row).Placed mode
  := by
  constructor
  · simpa [KnowledgeSearch.searchResult] using h.found
  · intro rank hrank
    obtain ⟨n, hn, rfl⟩ := Option.map_eq_some_iff.mp hrank
    use (h.keyword n hn).1, Int.ofNat_le.mpr (h.keyword n hn).2
  · intro rank hrank
    obtain ⟨n, hn, rfl⟩ := Option.map_eq_some_iff.mp hrank
    use (h.vector n hn).1, Int.ofNat_le.mpr (h.vector n hn).2

/-- The result of a candidate is that of its chunk. -/
theorem SearchServices.resultOf_eq_some {db : Database} {candidate : FusedCandidate}
    {result : SearchResult} (h : resultOf db candidate = some result) :
  ∃ row ∈ db.searchable, row.id = candidate.chunkId ∧ result = searchResult candidate row
  := by
  obtain ⟨row, hrow, rfl⟩ := Option.map_eq_some_iff.mp h
  have hid : row.id = candidate.chunkId := by
    simpa using List.find?_some hrow
  exact ⟨row, List.mem_of_find?_eq_some hrow, hid, rfl⟩

/-- The results for ranked candidates are ranked, whenever the chunks are loaded. -/
theorem Ranked.hydrate {q : SearchQuery} {candidates : List FusedCandidate}
    (h : Ranked q.mode candidates) (hvalid : ∃ normalized, checkQuery q = .ok normalized)
    (db : Database) :
  (SearchServices.hydrate db q candidates).Ranked
  := by
  have hsublist : (SearchServices.hydrate db q candidates).results.Sublist
      (candidates.filterMap (SearchServices.resultOf db)) := by
    rw [SearchServices.results_hydrate (checkQuery_limit hvalid)]
    apply List.take_sublist
  constructor
  · apply List.Pairwise.sublist hsublist
    apply List.pairwise_filterMap.mpr
    apply h.nodup.imp
    intro a b hne result hresult result' hresult'
    obtain ⟨row, -, hid, rfl⟩ := SearchServices.resultOf_eq_some hresult
    obtain ⟨row', -, hid', rfl⟩ := SearchServices.resultOf_eq_some hresult'
    rw [← hid, ← hid'] at hne
    apply hne
  · apply List.Pairwise.sublist hsublist
    apply List.pairwise_filterMap.mpr
    apply h.ordered.imp
    intro a b hbefore result hresult result' hresult'
    obtain ⟨row, -, hid, rfl⟩ := SearchServices.resultOf_eq_some hresult
    obtain ⟨row', -, hid', rfl⟩ := SearchServices.resultOf_eq_some hresult'
    apply hbefore.searchResult hid hid'
  · intro result hresult
    obtain ⟨candidate, hcandidate, hresultOf⟩ := List.mem_filterMap.mp (hsublist.subset hresult)
    obtain ⟨row, -, -, rfl⟩ := SearchServices.resultOf_eq_some hresultOf
    apply (h.placed candidate hcandidate).searchResult

/-! ### Calls of search -/

/-- What a call has found is ranked. -/
def Request.Ranks : Request → Prop
  | matched q _ keyword => (∃ normalized, checkQuery q = .ok normalized) ∧ FromOne keyword
  | ranked q _ candidates => (∃ normalized, checkQuery q = .ok normalized) ∧ Ranked q.mode candidates
  | executed _ _ execution | returned execution => execution.Ranked
  | idle | begun _ | keyed _ _ | missed _ _ | raised _ | died => True

theorem Request.Steps.ranks {κ : Type} [DecidableEq κ] {C : SearchServices} {S : Services}
    {digest : Text → κ} {s : Stores} {cache cache' : SearchCache κ} {request request' : Request}
    {event : RequestEvent}
    (hstep : Request.Steps C S digest s cache request event cache' request')
    (hcache : ∀ key execution, cache key = some execution → execution.Ranked) (h : request.Ranks) :
  request'.Ranks ∧ ∀ key execution, cache' key = some execution → execution.Ranked
  := by
  cases hstep with
  | hit hentry => exact ⟨hcache _ _ hentry, hcache⟩
  | keyword hvalid => exact ⟨⟨hvalid, C.exists_keyword_eq s.db _⟩, hcache⟩
  | vector => exact ⟨⟨h.1, C.ranked_rank h.2 (C.exists_vector_eq S s.index _)⟩, hcache⟩
  | loadUncached | load => exact ⟨h.2.hydrate h.1 s.db, hcache⟩
  | set =>
      use h
      intro key execution hkey
      rw [Function.update_apply] at hkey
      split at hkey
      · obtain rfl := Option.some.inj hkey
        apply h
      · apply hcache key execution hkey
  | lose => exact ⟨h, hcache⟩
  | beginUncached | begin | readRevision | miss | raise | crash => exact ⟨trivial, hcache⟩

namespace SearchSystem

variable {κ : Type} [DecidableEq κ] {C : SearchServices} {S : Services} {digest : Text → κ}
  {s s' : SearchSystem κ}

/-- The results of every call of search, from the stores or from the cache, are of different chunks and
strictly in order: by the ranks of the retriever of the mode, or by the scores of the fusion and then the
identifiers. Each has a rank, and none of a retriever the mode does not use. -/
theorem results_ranked (hreachable : (machine C S digest).Reachable s) {i : ℕ}
    {execution : SearchExecution} (hreturned : s.requests i = .returned execution) :
  execution.Ranked
  := by
  have hranks : (∀ i, (s.requests i).Ranks)
      ∧ ∀ key execution, s.cache key = some execution → execution.Ranked := by
    apply hreachable.induction
    · rintro s rfl
      constructor
      · intro i
        trivial
      · intro key execution hkey
        cases hkey
    · rintro s event s' ⟨hrequests, hcache⟩ hstep
      rcases step_eq_some hstep with ⟨_, _, -, -, rfl⟩ | ⟨i, e, cache, request, -, hrequest, rfl⟩
      · exact ⟨hrequests, hcache⟩
      · obtain ⟨hranks, hcache'⟩ := (Request.steps hrequest).ranks hcache (hrequests i)
        refine ⟨?_, hcache'⟩
        intro j
        by_cases hj : j = i
        · subst hj
          simp only [Function.update_self]
          apply hranks
        · simp only [Function.update_of_ne hj]
          apply hrequests j
  have hrequest := hranks.1 i
  rw [hreturned] at hrequest
  apply hrequest

/-- The results of the sample search. -/
theorem results_ranked_sample :
  ∃ execution, (sampleSearchAfter sampleFound).requests 0 = .returned execution
    ∧ execution.results ≠ [] ∧ execution.Ranked
  := by
  have hreachable : (machine .sample .sample id).Reachable (sampleSearchAfter sampleFound) :=
    ⟨initial, sampleFound, rfl, run_sampleSearchAfter [] sampleFound (by decide +kernel)⟩
  have hreturned : (match (sampleSearchAfter sampleFound).requests 0 with
      | .returned execution => !execution.results.isEmpty
      | _ => false) = true := by
    decide +kernel
  split at hreturned
  · rename_i execution hrequest
    refine ⟨execution, hrequest, ?_, results_ranked hreachable hrequest⟩
    intro hnil
    rw [hnil] at hreturned
    cases hreturned
  · cases hreturned

end SearchSystem

/-! ### Full-text search -/

namespace SearchServices

variable {C : SearchServices} {S : Services}

/-- The chunks of ready documents a full-text search matches, from the best on. -/
def matching (C : SearchServices) (db : Database) (q : SearchQuery) : List (Uuid × Score) :=
  ((db.searchable.filter fun row => C.matchesQuery (normalizeQuery q.query) row.chunk.text
      && q.filters.admits row.document.id row.document.mediaType).map fun row =>
    (row.id, C.tsRank (normalizeQuery q.query) row.chunk.text)).insertionSort Database.KeywordPrecedes

/-- A match is a chunk of a ready document. -/
theorem exists_of_mem_matching {db : Database} {q : SearchQuery} {found : Uuid × Score}
    (h : found ∈ C.matching db q) :
  ∃ row ∈ db.searchable, row.id = found.1
  := by
  obtain ⟨row, hrow, rfl⟩ := List.mem_map.mp ((List.mem_insertionSort _).mp h)
  exact ⟨row, (List.mem_filter.mp hrow).1, rfl⟩

/-- A candidate that is a chunk of a ready document has a result, which cites it. -/
theorem map_resultOf {db : Database} {candidate : FusedCandidate}
    (h : ∃ row ∈ db.searchable, row.id = candidate.chunkId) :
  (resultOf db candidate).map (fun result => (result.citation.chunkId, result.score))
    = some (candidate.chunkId, candidate.score)
  := by
  obtain ⟨row, hrow, hid⟩ := h
  cases hfind : db.searchable.find? fun row => row.id = candidate.chunkId with
  | none =>
      have hnone := List.find?_eq_none.mp hfind row hrow
      simp [hid] at hnone
  | some found =>
      have hfound : found.id = candidate.chunkId := by
        simpa using List.find?_some hfind
      rw [resultOf, hfind, ← hfound]
      rfl

/-- Every match among the candidates of a full-text search becomes a result, up to the limit. -/
theorem map_results_keywordExecution {db : Database} {q : SearchQuery} (hmode : q.mode = .keyword)
    (hlimit : 0 < q.limit.toNat) :
  (C.keywordExecution db q).results.map (fun result => (result.citation.chunkId, result.score))
    = (C.matching db q).take q.limit.toNat
  := by
  have hkeyword : C.keyword db q
      = rankedFrom 0 ((C.matching db q).take (C.candidateLimit q).toNat) := by
    rw [keyword, hmode]
    rfl
  have hle : q.limit.toNat ≤ (C.candidateLimit q).toNat := by
    have hmul : q.limit * 1 ≤ q.limit * C.candidateMultiplier :=
      mul_le_mul_of_nonneg_left (Int.ofNat_le.mpr C.one_le_candidateMultiplier) (by omega)
    rw [mul_one] at hmul
    exact Int.toNat_le_toNat hmul
  have hfound : ∀ candidate ∈ C.rank .keyword (C.keyword db q) [],
      ((resultOf db candidate).map fun result => (result.citation.chunkId, result.score))
        = some (candidate.chunkId, candidate.score) := by
    intro fused hfused
    obtain ⟨candidate, hcandidate, rfl⟩ := List.mem_map.mp hfused
    rw [hkeyword] at hcandidate
    obtain ⟨found, hmatch, hid⟩ := exists_of_mem_rankedFrom hcandidate
    apply map_resultOf
    rw [← hid]
    apply exists_of_mem_matching (List.mem_of_mem_take hmatch)
  rw [keywordExecution, results_hydrate hlimit, List.map_take, List.map_filterMap,
    List.filterMap_congr hfound]
  calc _ = (((C.keyword db q).map fun candidate => (candidate.chunkId, candidate.score)).take
        q.limit.toNat) := by
        rw [← Function.comp_def some, List.filterMap_eq_map, rank, List.map_map]
        rfl
    _ = _ := by
        rw [hkeyword, map_scored_rankedFrom, List.take_take, min_eq_left hle]

end SearchServices

namespace SearchSystem

variable {κ : Type} [DecidableEq κ] {C : SearchServices} {S : Services} {digest : Text → κ}
  {s s₁ s₂ : SearchSystem κ}

/-- What a full-text search returns while no transaction changes the database. -/
theorem eq_keywordExecution (hdigest : Function.Injective digest)
    (hreachable : (machine C S digest).Reachable s) {q : SearchQuery} (hmode : q.mode = .keyword) {j : ℕ}
    (hbegin : step C S digest s (.request j (.begin q)) = some s₁) {events : List SearchEvent}
    (hrun : (machine C S digest).run s₁ events = some s₂)
    (hundisturbed : (machine C S digest).Meets (Undisturbed S j) s₁ events)
    {execution : SearchExecution} (hreturned : s₂.requests j = .returned execution) :
  execution = C.keywordExecution s.system.stores.db q ∧ 0 < q.limit.toNat
  := by
  have hfresh := Fresh.of_reachable hdigest hreachable
  obtain ⟨hsystem, hexact, -⟩ := exact_of_begin hbegin
  obtain ⟨hexact₂, -⟩ := exact_run hmode hdigest (hfresh.step hdigest hbegin) hexact hrun hundisturbed
  rw [hreturned, hsystem] at hexact₂
  obtain ⟨hvalid, heq⟩ := hexact₂
  use heq, checkQuery_limit hvalid

/-- A full-text search while no transaction changes the database returns, from the stores or from the
cache, the best of the matching chunks of ready documents that pass the filters: as many as the limit says,
or all of them. The limit only says where the results end. -/
theorem keyword_exact (hdigest : Function.Injective digest)
    (hreachable : (machine C S digest).Reachable s) {q : SearchQuery} (hmode : q.mode = .keyword) {j : ℕ}
    (hbegin : step C S digest s (.request j (.begin q)) = some s₁) {events : List SearchEvent}
    (hrun : (machine C S digest).run s₁ events = some s₂)
    (hundisturbed : (machine C S digest).Meets (Undisturbed S j) s₁ events)
    {execution : SearchExecution} (hreturned : s₂.requests j = .returned execution) :
  execution.results.map (fun result => (result.citation.chunkId, result.score))
    = (C.matching s.system.stores.db q).take q.limit.toNat
  := by
  obtain ⟨rfl, hlimit⟩ := eq_keywordExecution hdigest hreachable hmode hbegin hrun hundisturbed hreturned
  apply SearchServices.map_results_keywordExecution hmode hlimit

/-- The sample document is found once more, in the cache. -/
theorem keyword_exact_sample :
  ∃ execution, (sampleSearchAfter (sampleFound ++ [.request 1 (.begin sampleQuery)]
        ++ [.readRevision none, .get true].map (.request 1))).requests 1 = .returned execution
    ∧ execution.results.map (fun result => (result.citation.chunkId, result.score))
      = (SearchServices.sample.matching (sampleSearchAfter sampleFound).system.stores.db sampleQuery).take 5
  := by
  have hreachable : (machine .sample .sample id).Reachable (sampleSearchAfter sampleFound) :=
    ⟨initial, sampleFound, rfl, run_sampleSearchAfter [] sampleFound (by decide +kernel)⟩
  have hbegin := step_sampleSearchAfter sampleFound (.request 1 (.begin sampleQuery)) (by decide +kernel)
  have hrun := run_sampleSearchAfter (sampleFound ++ [.request 1 (.begin sampleQuery)])
    ([.readRevision none, .get true].map (.request 1)) (by decide +kernel)
  have hresult : (match (sampleSearchAfter (sampleFound ++ [.request 1 (.begin sampleQuery)]
      ++ [.readRevision none, .get true].map (.request 1))).requests 1 with
      | .returned _ => true
      | _ => false) = true := by
    decide +kernel
  split at hresult
  · rename_i execution hreturned
    refine ⟨execution, hreturned, ?_⟩
    apply keyword_exact Function.injective_id hreachable rfl hbegin hrun _ hreturned
    apply Machine.meets_of_forall
    simp [Undisturbed, RequestEvent.IsBegin]
  · cases hresult

end SearchSystem

end KnowledgeSearch

import KnowledgeSearch.Providers.RedisCache
import KnowledgeSearch.System.Sharing

/-!
# Cached search over an unchanging corpus

`CachedSearchService.search` with its cache in Redis, which may lose values, and may fail to answer
or to store. As long as the corpus does not change, the values under the keys of its revision are
the texts of what the uncached search finds (`CachedSearchService.Faithful`), so that a request is
answered as by the uncached search.

`CachedSearchService.exists_run` connects a call with the steps it is made of.
-/

namespace KnowledgeSearch

/-- A request, with what Redis does while it is served: the keys whose values it still has, whether
it answers, and whether it stores the value it is given. -/
structure CachedRequest where
  query : SearchQuery
  kept : Text → Bool
  answers : Bool
  stored : Bool

structure CachedSearchService where
  searchServices : SearchServices
  services : Services
  cache : RedisSearchResultCache
  digest : Text → Text

namespace CachedSearchService

variable (self : CachedSearchService) (s : Stores)

/-- `SearchService.search`. -/
def uncached (q : SearchQuery) : Except AppError SearchExecution :=
  self.searchServices.search self.services s q

/-- `CachedSearchService.search`. -/
def search (redis : Redis) (request : CachedRequest) : Redis × Except AppError SearchExecution :=
  if self.searchServices.ttlSeconds = 0 then (redis, self.uncached s request.query)
  else
    let key := cacheKey self.digest request.query s.db.revision
    let kept : Redis := fun key => if request.kept key then redis key else none
    match self.cache.get kept request.answers key with
    | .error e => (kept, .error e)
    | .ok (some execution) => (kept, .ok execution)
    | .ok none =>
        match self.uncached s request.query with
        | .error e => (kept, .error e)
        | .ok execution => (self.cache.set kept request.stored key execution, .ok execution)

/-- The answers to requests that are served one after the other. -/
def answers : Redis → List CachedRequest → List (Except AppError SearchExecution)
  | _, [] => []
  | redis, request :: requests =>
      (self.search s redis request).2 :: answers (self.search s redis request).1 requests

/-- What Redis holds under a key of the present revision is the text of what is found by a search
with that key. -/
def Faithful (redis : Redis) : Prop :=
  ∀ q value, redis (self.cache.redisKey (cacheKey self.digest q s.db.revision)) = some value →
    ∃ execution, self.uncached s q = .ok execution
      ∧ self.cache.codec.modelValidateJson value = some (serialize execution)

end CachedSearchService

/-- Searches that look for the same find the same. -/
theorem SearchQuery.Same.uncached_eq {q q' : SearchQuery} (h : q.Same q')
    (self : CachedSearchService) (s : Stores) :
  self.uncached s q = self.uncached s q'
  := by
  have hvector : self.searchServices.vector self.services s.index q
      = self.searchServices.vector self.services s.index q' := by
    simp only [SearchServices.vector, SearchServices.candidateLimit, VectorIndex.search, h.query_eq,
      h.mode_eq, h.limit_eq, h.admits_eq]
  simp only [CachedSearchService.uncached, SearchServices.search, h.checkQuery_eq, h.keyword_eq,
    hvector, h.mode_eq, h.hydrate_eq]

namespace CachedSearchService

variable {self : CachedSearchService} {s : Stores} {redis : Redis}

/-- Redis may lose values. -/
theorem Faithful.kept (h : self.Faithful s redis) (kept : Text → Bool) :
  self.Faithful s fun key => if kept key then redis key else none
  := by
  intro q value hvalue
  dsimp only at hvalue
  split at hvalue
  · apply h q value hvalue
  · cases hvalue

/-- The text of what a search finds may be stored under its key. -/
theorem Faithful.set (hdigest : Function.Injective self.digest)
    (hcodec : ∀ payload,
      self.cache.codec.modelValidateJson (self.cache.codec.modelDumpJson payload) = some payload)
    (h : self.Faithful s redis) (stored : Bool) {q : SearchQuery} {execution : SearchExecution}
    (hfound : self.uncached s q = .ok execution) :
  self.Faithful s (self.cache.set redis stored (cacheKey self.digest q s.db.revision) execution)
  := by
  intro q' value hvalue
  rw [RedisSearchResultCache.set] at hvalue
  split at hvalue
  · by_cases hkey : self.cache.redisKey (cacheKey self.digest q' s.db.revision)
        = self.cache.redisKey (cacheKey self.digest q s.db.revision)
    · rw [hkey, Function.update_self] at hvalue
      cases hvalue
      have htext : canonicalKey q' s.db.revision = canonicalKey q s.db.revision :=
        hdigest (List.cons.inj (List.append_cancel_left hkey)).2
      rw [(canonicalKey_eq htext).2.uncached_eq]
      use execution, hfound, hcodec _
    · rw [Function.update_of_ne hkey] at hvalue
      apply h q' value hvalue
  · apply h q' value hvalue

/-- A request is answered as by the uncached search, and what Redis holds stays faithful. -/
theorem search_spec (hdigest : Function.Injective self.digest)
    (hcodec : ∀ payload,
      self.cache.codec.modelValidateJson (self.cache.codec.modelDumpJson payload) = some payload)
    (h : self.Faithful s redis) (request : CachedRequest) :
  (self.search s redis request).2 = self.uncached s request.query
    ∧ self.Faithful s (self.search s redis request).1
  := by
  rw [search]
  split
  · exact ⟨rfl, h⟩
  extract_lets key kept
  have hkept : self.Faithful s kept := h.kept request.kept
  by_cases hfinds : ∃ payload, self.cache.Finds kept request.answers key payload
  · obtain ⟨payload, hfinds⟩ := hfinds
    obtain ⟨-, value, hvalue, hpayload⟩ := id hfinds
    obtain ⟨execution, hfound, hexecution⟩ := hkept request.query value hvalue
    cases hpayload.symm.trans hexecution
    rw [RedisSearchResultCache.get_of_finds hfinds, deserialize_serialize, hfound]
    exact ⟨rfl, hkept⟩
  · rw [RedisSearchResultCache.get_of_not_finds (not_exists.mp hfinds)]
    simp only
    cases hfound : self.uncached s request.query with
    | error e => exact ⟨rfl, hkept⟩
    | ok execution => exact ⟨rfl, hkept.set hdigest hcodec request.stored hfound⟩

/-- Requests are answered as by the uncached search. -/
theorem answers_eq (hdigest : Function.Injective self.digest)
    (hcodec : ∀ payload,
      self.cache.codec.modelValidateJson (self.cache.codec.modelDumpJson payload) = some payload)
    (requests : List CachedRequest) (h : self.Faithful s redis) :
  self.answers s redis requests = requests.map fun request => self.uncached s request.query
  := by
  induction requests generalizing redis with
  | nil => rfl
  | cons request requests ih =>
      obtain ⟨hanswer, hfaithful⟩ := search_spec hdigest hcodec h request
      rw [answers, List.map_cons, hanswer, ih hfaithful]

/-- The cached path equals the plain path. For a digest without collisions and a codec whose texts
are read as what they were made of, from a cache without values, every request of a sequence returns
or raises what the uncached search returns or raises for it. The text of a key is that of the
normalized query, the mode, the limit, the filters up to their order, and the revision, and
`_deserialize` undoes `_serialize`. -/
theorem transparent (self : CachedSearchService) (s : Stores)
    (hdigest : Function.Injective self.digest)
    (hcodec : ∀ payload,
      self.cache.codec.modelValidateJson (self.cache.codec.modelDumpJson payload) = some payload) :
  (∀ (redis : Redis) (requests : List CachedRequest),
      (∀ key, redis (self.cache.redisKey key) = none) →
      self.answers s redis requests = requests.map fun request => self.uncached s request.query)
    ∧ (∀ (q q' : SearchQuery) (revision revision' : ℕ),
      canonicalKey q revision = canonicalKey q' revision'
        ↔ normalizeQuery q.query = normalizeQuery q'.query ∧ q.mode = q'.mode ∧ q.limit = q'.limit
          ∧ q.filters.documentIds.Perm q'.filters.documentIds
          ∧ q.filters.mediaTypes.Perm q'.filters.mediaTypes ∧ revision = revision')
    ∧ ∀ execution : SearchExecution, deserialize (serialize execution) = .ok execution
  := by
  refine ⟨?_, fun _ _ _ _ => canonicalKey_eq_iff, deserialize_serialize⟩
  intro redis requests hempty
  apply answers_eq hdigest hcodec
  intro q value hvalue
  rw [hempty] at hvalue
  cases hvalue

/-- The search of the sample corpus with a cache of JSON texts. -/
noncomputable def sample : CachedSearchService where
  searchServices := .sample
  services := .sample
  cache := ⟨jsonCodec, "eks:search".toList⟩
  digest := id

/-- The hybrid search of the sample with white space before its text. -/
def sampleSpaced : SearchQuery :=
  ⟨" alpha".toList, .hybrid, 5, ⟨[], []⟩⟩

/-- A hybrid search, asked twice with other white space. -/
theorem transparent_sample :
  sample.answers SharedSearch.sampleCorpus (fun _ => none)
      [⟨SharedSearch.sampleHybrid, fun _ => true, true, true⟩,
        ⟨sampleSpaced, fun _ => true, true, true⟩]
    = [sample.uncached SharedSearch.sampleCorpus SharedSearch.sampleHybrid,
      sample.uncached SharedSearch.sampleCorpus sampleSpaced]
  := by
  apply (transparent sample SharedSearch.sampleCorpus Function.injective_id
    modelValidateJson_modelDumpJson).1
  intro key
  rfl

/-! ### The steps of a call -/

/-- The steps of one call over an unchanging corpus. -/
def calls (self : CachedSearchService) (s : Stores) :
    Machine (SearchCache Text × Request) RequestEvent where
  Start state := state.2 = .idle
  step state event := state.2.step self.searchServices self.services self.digest s state.1 event

/-- Where a call ends. -/
def outcome : Except AppError SearchExecution → Request
  | .ok execution => .returned execution
  | .error e => .raised e

/-- The executions that are read from Redis are those of the cache. -/
def Represents (self : CachedSearchService) (redis : Redis) (cache : SearchCache Text) : Prop :=
  ∀ key payload execution, self.cache.Finds redis true key payload →
    deserialize payload = .ok execution → cache key = some execution

/-- What is found after values were lost was found before. -/
theorem finds_of_finds_kept {kept : Text → Bool} {answers : Bool} {key : Text}
    {payload : CachedExecution}
    (h : self.cache.Finds (fun key => if kept key then redis key else none) answers key payload) :
  self.cache.Finds redis true key payload
  := by
  obtain ⟨-, value, hvalue, hpayload⟩ := h
  dsimp only at hvalue
  split at hvalue
  · exact ⟨rfl, value, hvalue, hpayload⟩
  · cases hvalue

theorem Represents.kept {cache : SearchCache Text} (h : self.Represents redis cache)
    (kept : Text → Bool) :
  self.Represents (fun key => if kept key then redis key else none) cache
  := fun key payload execution hfinds => h key payload execution (finds_of_finds_kept hfinds)

/-- What is stored in Redis is stored in the cache. -/
theorem Represents.set
    (hcodec : ∀ payload,
      self.cache.codec.modelValidateJson (self.cache.codec.modelDumpJson payload) = some payload)
    {cache : SearchCache Text} (h : self.Represents redis cache) (stored : Bool) (key : Text)
    (execution : SearchExecution) :
  self.Represents (self.cache.set redis stored key execution)
    (if stored then Function.update cache key (some execution) else cache)
  := by
  rw [RedisSearchResultCache.set]
  cases stored with
  | false => apply h
  | true =>
      simp only [if_true]
      rintro key' payload execution' ⟨-, value, hvalue, hpayload⟩ hexecution
      by_cases hkey : key' = key
      · rw [hkey, Function.update_self] at hvalue
        cases hvalue
        rw [hcodec] at hpayload
        cases hpayload
        rw [deserialize_serialize] at hexecution
        cases hexecution
        rw [hkey, Function.update_self]
      · have hredisKey : self.cache.redisKey key' ≠ self.cache.redisKey key := by
          intro heq
          exact hkey (List.cons.inj (List.append_cancel_left heq)).2
        rw [Function.update_of_ne hredisKey] at hvalue
        rw [Function.update_of_ne hkey]
        apply h key' payload execution' ⟨rfl, value, hvalue, hpayload⟩ hexecution

/-- A call that does not use the cache, or has not found anything in it, searches. -/
theorem exists_run_missed (cache : SearchCache Text) (q : SearchQuery) (revision : Option ℕ) :
  ∃ events, (self.calls s).run (cache, .missed q revision) events
    = some (cache,
      match self.uncached s q, revision with
      | .error e, _ => .raised e
      | .ok execution, none => .returned execution
      | .ok execution, some revision => .executed q revision execution)
  := by
  cases hcheck : checkQuery q with
  | error e =>
      have herror : self.uncached s q = .error e := by
        rw [uncached, SearchServices.search, hcheck]
        rfl
      use [.keyword none]
      simp only [Machine.run, calls, Request.step, hcheck, herror, Option.bind_some]
  | ok normalized =>
      have hfound : self.uncached s q = _ :=
        search_of_checkQuery (C := self.searchServices) (S := self.services) (s := s)
          ⟨normalized, hcheck⟩
      use [.keyword none, .vector none, .load none]
      simp only [Machine.run, calls, Request.step, hcheck, hfound, Option.bind_some, ite_self,
        transaction_none]
      cases revision with
      | none => rfl
      | some revision => rfl

/-- A call does what its steps do: they take a cache with the executions of Redis to one with those
of Redis after the call, and end with its answer. The domain accepts what is read from Redis. -/
theorem exists_run
    (hcodec : ∀ payload,
      self.cache.codec.modelValidateJson (self.cache.codec.modelDumpJson payload) = some payload)
    (hproper : ∀ key payload, self.cache.Finds redis true key payload →
      ∀ item ∈ payload.results, item.citation.Proper)
    {cache : SearchCache Text} (hcache : self.Represents redis cache) (request : CachedRequest) :
  ∃ events cache', (self.calls s).run (cache, .idle) events
      = some (cache', outcome (self.search s redis request).2)
    ∧ self.Represents (self.search s redis request).1 cache'
  := by
  rw [search]
  split
  · rename_i httl
    obtain ⟨events, hevents⟩ := @exists_run_missed self s cache request.query none
    refine ⟨.begin request.query :: events, cache, ?_, hcache⟩
    have hbegin : (self.calls s).step (cache, .idle) (.begin request.query)
        = some (cache, .missed request.query none) := by
      simp only [calls, Request.step, Request.Underway, httl, if_true, Bool.false_eq_true, if_false]
    rw [Machine.run_cons, hbegin, Option.bind_some, hevents]
    cases self.uncached s request.query with
    | error e => rfl
    | ok execution => rfl
  rename_i httl
  extract_lets key kept
  have hkeyed : (self.calls s).run (cache, .idle) [.begin request.query, .readRevision none]
      = some (cache, .keyed request.query s.db.revision) := by
    simp only [Machine.run, calls, Request.step, Request.Underway, httl, Bool.false_eq_true,
      if_false, Option.bind_some, transaction_none]
  by_cases hfinds : ∃ payload, self.cache.Finds kept request.answers key payload
  · obtain ⟨payload, hfinds⟩ := hfinds
    have hread := finds_of_finds_kept hfinds
    obtain ⟨execution, hexecution⟩ := exists_deserialize_eq_ok_iff.mpr (hproper key payload hread)
    rw [RedisSearchResultCache.get_of_finds hfinds, hexecution]
    have hentry : cache (cacheKey self.digest request.query s.db.revision) = some execution :=
      hcache key payload execution hread hexecution
    have hhit : (self.calls s).run (cache, .keyed request.query s.db.revision) [.get true]
        = some (cache, .returned execution) := by
      simp only [Machine.run, calls, Request.step, if_true, hentry, Option.bind_some]
    refine ⟨[.begin request.query, .readRevision none] ++ [.get true], cache, ?_, hcache.kept _⟩
    apply (self.calls s).run_append_iff.mpr ⟨_, hkeyed, hhit⟩
  · rw [RedisSearchResultCache.get_of_not_finds (not_exists.mp hfinds)]
    obtain ⟨events, hevents⟩ := @exists_run_missed self s cache request.query (some s.db.revision)
    have hmissed : (self.calls s).run (cache, .keyed request.query s.db.revision)
        (.get false :: events) = (self.calls s).run (cache, .missed request.query
          (some s.db.revision)) events := rfl
    rw [← hmissed] at hevents
    simp only
    cases hfound : self.uncached s request.query with
    | error e =>
        rw [hfound] at hevents
        refine ⟨[.begin request.query, .readRevision none] ++ .get false :: events, cache, ?_,
          hcache.kept _⟩
        apply (self.calls s).run_append_iff.mpr ⟨_, hkeyed, hevents⟩
    | ok execution =>
        rw [hfound] at hevents
        have hset : (self.calls s).run (cache, .executed request.query s.db.revision execution)
            [.set request.stored]
            = some (if request.stored then Function.update cache key (some execution) else cache,
              .returned execution) := rfl
        refine ⟨([.begin request.query, .readRevision none] ++ .get false :: events)
          ++ [.set request.stored], _, ?_, (hcache.kept _).set hcodec request.stored key execution⟩
        apply (self.calls s).run_append_iff.mpr ⟨_, _, hset⟩
        apply (self.calls s).run_append_iff.mpr ⟨_, hkeyed, hevents⟩

end CachedSearchService

end KnowledgeSearch

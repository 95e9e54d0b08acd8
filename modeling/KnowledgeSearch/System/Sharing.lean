import KnowledgeSearch.System.Freshness

/-!
# One cache for several deployments

Deployments that differ in their `RetrievalConfiguration` search one corpus and share one cache.
`SharedSearch.machine` interleaves the steps of any number of calls of their
`CachedSearchService.search`, while the corpus does not change.

A key does not determine the configuration, so that a call can be answered with what another
deployment has stored. `SharedSearch.respected_iff` says which requests the deployments can be
asked so that each of them answers as its own uncached search does.
-/

namespace KnowledgeSearch

/-- What two deployments of one corpus may differ in. -/
structure RetrievalConfiguration where
  candidateMultiplier : ℕ
  one_le_candidateMultiplier : 1 ≤ candidateMultiplier
  rrfK : ℕ
  one_le_rrfK : 1 ≤ rrfK
  ttlSeconds : ℕ
  embedDocuments : List Text → List Vector
  length_embedDocuments : ∀ texts, (embedDocuments texts).length = texts.length

namespace RetrievalConfiguration

variable (R : RetrievalConfiguration) (C : SearchServices) (S : Services)

/-- The search services in this configuration. -/
def searchServices : SearchServices :=
  { C with
    candidateMultiplier := R.candidateMultiplier
    one_le_candidateMultiplier := R.one_le_candidateMultiplier
    rrfK := R.rrfK
    one_le_rrfK := R.one_le_rrfK
    ttlSeconds := R.ttlSeconds }

/-- The services with the embedding model of this configuration. -/
def services : Services :=
  { S with
    embedDocuments := R.embedDocuments
    length_embedDocuments := R.length_embedDocuments }

/-- The uncached search of a deployment. -/
def search (s : Stores) (q : SearchQuery) : Except AppError SearchExecution :=
  (R.searchServices C).search (R.services S) s q

/-- Two configurations agree on what the mode of a query makes use of. -/
structure AgreesOn (R R' : RetrievalConfiguration) (q : SearchQuery) : Prop where
  candidateMultiplier : R.candidateMultiplier = R'.candidateMultiplier
  rrfK : q.mode = .hybrid → R.rrfK = R'.rrfK
  embedDocuments : q.mode.usesVector = true →
    R.embedDocuments [normalizeQuery q.query] = R'.embedDocuments [normalizeQuery q.query]

end RetrievalConfiguration

/-- Searches that look for the same find the same in configurations that agree. -/
theorem SearchQuery.Same.search_eq {q q' : SearchQuery} (h : q.Same q')
    {R R' : RetrievalConfiguration} (hagrees : R.AgreesOn R' q) (C : SearchServices) (S : Services)
    (s : Stores) :
  R.search C S s q = R'.search C S s q'
  := by
  have hlimit : (R.searchServices C).candidateLimit q = (R'.searchServices C).candidateLimit q' := by
    simp only [SearchServices.candidateLimit, RetrievalConfiguration.searchServices,
      hagrees.candidateMultiplier, h.limit_eq]
  have hkeyword : (R.searchServices C).keyword s.db q = (R'.searchServices C).keyword s.db q' := by
    simp only [SearchServices.keyword, hlimit, h.query_eq, h.mode_eq, Database.keywordCandidates,
      h.admits_eq]
    rfl
  have hvector : (R.searchServices C).vector (R.services S) s.index q
      = (R'.searchServices C).vector (R'.services S) s.index q' := by
    simp only [SearchServices.vector, ← h.mode_eq]
    split
    · rename_i huses
      have hembed := hagrees.embedDocuments huses
      rw [h.query_eq] at hembed
      rw [hlimit]
      simp only [RetrievalConfiguration.services, RetrievalConfiguration.searchServices, h.query_eq,
        hembed, VectorIndex.search, h.admits_eq]
      rfl
    · rfl
  have hrank : ∀ keyword vector, (R.searchServices C).rank q.mode keyword vector
      = (R'.searchServices C).rank q'.mode keyword vector := by
    intro keyword vector
    rw [← h.mode_eq]
    cases hmode : q.mode with
    | hybrid =>
        change reciprocalRankFusion C.round keyword vector R.rrfK
          = reciprocalRankFusion C.round keyword vector R'.rrfK
        rw [hagrees.rrfK hmode]
    | keyword => rfl
    | vector => rfl
  rw [RetrievalConfiguration.search, RetrievalConfiguration.search, SearchServices.search,
    SearchServices.search, h.checkQuery_eq, hkeyword, hvector, hrank, h.hydrate_eq]

/-! ### Where a call stands -/

/-- Where a call of a search for `q` stands that was not answered from the cache, while the stores
stay as they are. -/
def Request.Computes (C : SearchServices) (S : Services) (s : Stores) (q : SearchQuery) :
    Request → Prop
  | begun q' => q' = q ∧ C.ttlSeconds ≠ 0
  | keyed q' revision => q' = q ∧ C.ttlSeconds ≠ 0 ∧ revision = s.db.revision
  | missed q' revision => q' = q ∧ ∀ r ∈ revision, C.ttlSeconds ≠ 0 ∧ r = s.db.revision
  | matched q' revision keyword =>
      q' = q ∧ (∀ r ∈ revision, C.ttlSeconds ≠ 0 ∧ r = s.db.revision)
        ∧ (∃ normalized, checkQuery q = .ok normalized) ∧ keyword = C.keyword s.db q
  | ranked q' revision candidates =>
      q' = q ∧ (∀ r ∈ revision, C.ttlSeconds ≠ 0 ∧ r = s.db.revision)
        ∧ (∃ normalized, checkQuery q = .ok normalized)
        ∧ candidates = C.rank q.mode (C.keyword s.db q) (C.vector S s.index q)
  | executed q' revision execution =>
      q' = q ∧ C.ttlSeconds ≠ 0 ∧ revision = s.db.revision ∧ C.search S s q = .ok execution
  | returned execution => C.search S s q = .ok execution
  | idle | raised _ | died => True

section Steps

variable {κ : Type} [DecidableEq κ] {C : SearchServices} {S : Services} {digest : Text → κ}
  {s : Stores} {cache cache' : SearchCache κ} {request request' : Request} {event : RequestEvent}
  {q : SearchQuery}

theorem search_of_checkQuery (h : ∃ normalized, checkQuery q = .ok normalized) :
  C.search S s q
    = .ok (SearchServices.hydrate s.db q
        (C.rank q.mode (C.keyword s.db q) (C.vector S s.index q)))
  := by
  obtain ⟨normalized, hcheck⟩ := h
  rw [SearchServices.search, hcheck]
  rfl

/-- A call that begins computes what it is asked. -/
theorem Request.computes_begin
    (h : request.step C S digest s cache (.begin q) = some (cache', request')) :
  cache' = cache ∧ request'.Computes C S s q ∧ request'.Refused q
  := by
  simp only [step] at h
  split at h
  · cases h
  split at h
  · cases h
    exact ⟨rfl, ⟨rfl, fun r hr => by cases hr⟩, trivial⟩
  · rename_i hcaching
    cases h
    exact ⟨rfl, ⟨rfl, hcaching⟩, trivial⟩

/-- A step of a call, when what the cache holds for it is what it would compute. -/
theorem Request.Steps.computes
    (hstep : Request.Steps C S digest s cache request event cache' request')
    (hevent : ¬ event.IsBegin)
    (hcache : C.ttlSeconds ≠ 0 → ∀ execution,
      cache (cacheKey digest q s.db.revision) = some execution → C.search S s q = .ok execution)
    (h : request.Computes C S s q) :
  request'.Computes C S s q
  := by
  cases hstep with
  | beginUncached | begin => exact absurd trivial hevent
  | readRevision =>
      obtain ⟨rfl, hcaching⟩ := h
      exact ⟨rfl, hcaching, rfl⟩
  | hit hentry =>
      obtain ⟨rfl, hcaching, rfl⟩ := h
      apply hcache hcaching _ hentry
  | miss =>
      obtain ⟨rfl, hcaching, rfl⟩ := h
      use rfl
      rintro r hr
      exact ⟨hcaching, (Option.some.inj hr).symm⟩
  | keyword hvalid =>
      obtain ⟨rfl, hrevision⟩ := h
      exact ⟨rfl, hrevision, hvalid, rfl⟩
  | vector =>
      obtain ⟨rfl, hrevision, hvalid, rfl⟩ := h
      exact ⟨rfl, hrevision, hvalid, rfl⟩
  | loadUncached =>
      obtain ⟨rfl, -, hvalid, rfl⟩ := h
      apply search_of_checkQuery hvalid
  | load =>
      obtain ⟨rfl, hrevision, hvalid, rfl⟩ := h
      obtain ⟨hcaching, hr⟩ := hrevision _ rfl
      exact ⟨rfl, hcaching, hr, search_of_checkQuery hvalid⟩
  | set | lose => apply h.2.2.2
  | raise | crash => trivial

/-- A step without a fault raises only for a query that does not pass the checks. -/
theorem Request.Steps.refuses
    (hstep : Request.Steps C S digest s cache request event cache' request')
    (hfaultless : event.Faultless) (h : request.Computes C S s q) :
  request'.Refused q
  := by
  cases hstep with
  | raise herror =>
      obtain ⟨q', revision, rfl, hcheck⟩ := herror hfaultless
      obtain ⟨rfl, -⟩ := h
      apply hcheck
  | crash => cases hfaultless
  | _ => trivial

/-- An entry that a step adds is what the call has computed. -/
theorem Request.Steps.entry
    (hstep : Request.Steps C S digest s cache request event cache' request')
    (hevent : ¬ event.IsBegin) (h : request.Computes C S s q) {key : κ} {execution : SearchExecution}
    (hentry : cache' key = some execution) :
  cache key = some execution
    ∨ (C.ttlSeconds ≠ 0 ∧ key = cacheKey digest q s.db.revision ∧ C.search S s q = .ok execution)
  := by
  cases hstep with
  | set =>
      obtain ⟨rfl, hcaching, rfl, hsearch⟩ := h
      rw [Function.update_apply] at hentry
      split at hentry
      · rename_i hkey
        right
        rw [← Option.some.inj hentry]
        exact ⟨hcaching, hkey, hsearch⟩
      · apply Or.inl hentry
  | beginUncached | begin => exact absurd trivial hevent
  | _ => apply Or.inl hentry

end Steps

/-! ### The machine -/

/-- A cache and the calls of search of the deployments that share it: `asked` is the query a call
has last begun with. -/
structure SharedSearch (ι κ : Type) where
  cache : SearchCache κ
  asked : ι × ℕ → Option SearchQuery
  requests : ι × ℕ → Request

/-- A step of a call of one of the deployments. -/
structure SharedEvent (ι : Type) where
  call : ι × ℕ
  event : RequestEvent

/-- The query a step begins with. -/
def RequestEvent.query : RequestEvent → Option SearchQuery
  | begin q => some q
  | _ => none

theorem RequestEvent.begin_or (event : RequestEvent) :
  (∃ q, event = .begin q) ∨ (¬ event.IsBegin ∧ event.query = none)
  := by
  cases event with
  | begin q => exact Or.inl ⟨q, rfl⟩
  | _ => exact Or.inr ⟨not_false, rfl⟩

namespace SharedSearch

variable {ι κ : Type} [DecidableEq ι] [DecidableEq κ]

/-- An empty cache, without calls. -/
def initial : SharedSearch ι κ where
  cache := fun _ => none
  asked := fun _ => none
  requests := fun _ => .idle

section

variable (C : SearchServices) (S : Services) (digest : Text → κ)
  (configuration : ι → RetrievalConfiguration) (s : Stores)

/-- A step of one of the calls, which find the stores as they are. -/
def step (t : SharedSearch ι κ) (e : SharedEvent ι) : Option (SharedSearch ι κ) := do
  let R := configuration e.call.1
  let (cache, request) ←
    (t.requests e.call).step (R.searchServices C) (R.services S) digest s t.cache e.event
  some {
    cache
    asked := Function.update t.asked e.call (e.event.query.or (t.asked e.call))
    requests := Function.update t.requests e.call request }

/-- The machine of the interleaved calls. -/
def machine : Machine (SharedSearch ι κ) (SharedEvent ι) where
  Start t := t = initial
  step := step C S digest configuration s

/-- The calls have returned what the uncached searches of their deployments return, and if no step
met a fault they have raised what these raise. -/
def Answered (events : List (SharedEvent ι)) (t : SharedSearch ι κ) : Prop :=
  ∀ call q, t.asked call = some q →
    (∀ execution, t.requests call = .returned execution →
        (configuration call.1).search C S s q = .ok execution)
      ∧ ((∀ e ∈ events, e.event.Faultless) → ∀ error, t.requests call = .raised error →
        (configuration call.1).search C S s q = .error error)

/-- In every run in which the deployments are asked no more than `asks` the calls are answered. -/
def Respected (asks : ι → SearchQuery → Prop) : Prop :=
  ∀ events t, (machine C S digest configuration s).run initial events = some t →
    (∀ call q, ⟨call, .begin q⟩ ∈ events → asks call.1 q) → Answered C S configuration s events t

/-- What one deployment stores for a request is what another one computes for a request with the
same key. -/
def Interchangeable (asks : ι → SearchQuery → Prop) : Prop :=
  ∀ i j q q', asks i q → asks j q' → (configuration i).ttlSeconds ≠ 0 →
    (configuration j).ttlSeconds ≠ 0 →
    cacheKey digest q s.db.revision = cacheKey digest q' s.db.revision →
    ∀ execution, (configuration j).search C S s q' = .ok execution →
      (configuration i).search C S s q = .ok execution

/-- What holds while the requests are interchangeable: a call computes what it is asked, and the
cache holds what the deployments compute. -/
structure Sound (asks : ι → SearchQuery → Prop) (t : SharedSearch ι κ) : Prop where
  asked : ∀ call q, t.asked call = some q →
    asks call.1 q ∧ (t.requests call).Computes ((configuration call.1).searchServices C)
      ((configuration call.1).services S) s q
  idle : ∀ call, t.asked call = none → t.requests call = .idle
  cache : ∀ key execution, t.cache key = some execution → ∃ j q', asks j q'
    ∧ (configuration j).ttlSeconds ≠ 0 ∧ key = cacheKey digest q' s.db.revision
    ∧ (configuration j).search C S s q' = .ok execution

end

variable {C : SearchServices} {S : Services} {digest : Text → κ}
  {configuration : ι → RetrievalConfiguration} {s : Stores} {asks : ι → SearchQuery → Prop}
  {t t' : SharedSearch ι κ}

theorem step_eq_some {e : SharedEvent ι} (h : step C S digest configuration s t e = some t') :
  ∃ cache request,
    (t.requests e.call).step ((configuration e.call.1).searchServices C)
        ((configuration e.call.1).services S) digest s t.cache e.event = some (cache, request)
      ∧ t' = ⟨cache, Function.update t.asked e.call (e.event.query.or (t.asked e.call)),
        Function.update t.requests e.call request⟩
  := by
  obtain ⟨⟨cache, request⟩, hstep, ht'⟩ := Option.bind_eq_some_iff.mp h
  use cache, request, hstep, (Option.some.inj ht').symm

/-- A step that does not begin a call is one of a call that was asked something. -/
theorem Sound.exists_asked (h : t.Sound C S digest configuration s asks) {e : SharedEvent ι}
    (hevent : ¬ e.event.IsBegin) (hstep : step C S digest configuration s t e = some t') :
  ∃ q, t.asked e.call = some q
  := by
  apply Option.ne_none_iff_exists'.mp
  intro hnone
  obtain ⟨cache, request, hrequest, -⟩ := step_eq_some hstep
  rw [h.idle e.call hnone] at hrequest
  cases hcase : e.event with
  | begin q =>
      rw [hcase] at hevent
      apply hevent trivial
  | _ =>
      rw [hcase] at hrequest
      cases hrequest

/-- What a step does to the call that takes it. -/
theorem Sound.step_call (hinter : Interchangeable C S digest configuration s asks)
    (h : t.Sound C S digest configuration s asks) {e : SharedEvent ι}
    (hasks : ∀ q, e.event = .begin q → asks e.call.1 q)
    (hstep : step C S digest configuration s t e = some t') :
  ∃ q, t'.asked e.call = some q ∧ asks e.call.1 q
    ∧ (t'.requests e.call).Computes ((configuration e.call.1).searchServices C)
        ((configuration e.call.1).services S) s q
    ∧ (e.event.Faultless → (t'.requests e.call).Refused q)
    ∧ ∀ key execution, t'.cache key = some execution → t.cache key = some execution
      ∨ ((configuration e.call.1).ttlSeconds ≠ 0 ∧ key = cacheKey digest q s.db.revision
        ∧ (configuration e.call.1).search C S s q = .ok execution)
  := by
  obtain ⟨cache, request, hrequest, rfl⟩ := step_eq_some hstep
  simp only [Function.update_self]
  rcases e.event.begin_or with ⟨q, hbegin⟩ | ⟨hevent, hquery⟩
  · rw [hbegin] at hrequest
    obtain ⟨rfl, hcomputes, hrefused⟩ := Request.computes_begin hrequest
    use q
    rw [hbegin]
    exact ⟨rfl, hasks q hbegin, hcomputes, fun _ => hrefused, fun _ _ hentry => Or.inl hentry⟩
  · obtain ⟨q, hasked⟩ := h.exists_asked hevent hstep
    obtain ⟨hq, hcomputes⟩ := h.asked e.call q hasked
    have hsteps := Request.steps hrequest
    use q
    rw [hquery, Option.none_or]
    use hasked, hq
    constructor
    · apply hsteps.computes hevent _ hcomputes
      intro hcaching execution hentry
      obtain ⟨j, q', hq', hcaching', hkey, hsearch⟩ := h.cache _ _ hentry
      apply hinter e.call.1 j q q' hq hq' hcaching hcaching' hkey execution hsearch
    constructor
    · intro hfaultless
      apply hsteps.refuses hfaultless hcomputes
    · intro key execution hentry
      apply hsteps.entry hevent hcomputes hentry

/-- A step leaves the other calls as they are. -/
theorem step_other {e : SharedEvent ι} (hstep : step C S digest configuration s t e = some t')
    {call : ι × ℕ} (hcall : call ≠ e.call) :
  t'.asked call = t.asked call ∧ t'.requests call = t.requests call
  := by
  obtain ⟨cache, request, -, rfl⟩ := step_eq_some hstep
  use Function.update_of_ne hcall _ _, Function.update_of_ne hcall _ _

theorem Sound.step (hinter : Interchangeable C S digest configuration s asks)
    (h : t.Sound C S digest configuration s asks) {e : SharedEvent ι}
    (hasks : ∀ q, e.event = .begin q → asks e.call.1 q)
    (hstep : step C S digest configuration s t e = some t') :
  t'.Sound C S digest configuration s asks
  := by
  obtain ⟨q, hasked, hq, hcomputes, -, hcache⟩ := h.step_call hinter hasks hstep
  constructor
  · intro call q' hasked'
    by_cases hcall : call = e.call
    · subst hcall
      rw [hasked, Option.some.injEq] at hasked'
      subst hasked'
      exact ⟨hq, hcomputes⟩
    · obtain ⟨hother, hrequest⟩ := step_other hstep hcall
      rw [hother] at hasked'
      rw [hrequest]
      apply h.asked call q' hasked'
  · intro call hnone
    by_cases hcall : call = e.call
    · rw [hcall, hasked] at hnone
      cases hnone
    · obtain ⟨hother, hrequest⟩ := step_other hstep hcall
      rw [hother] at hnone
      rw [hrequest]
      apply h.idle call hnone
  · intro key execution hentry
    rcases hcache key execution hentry with hentry | ⟨hcaching, hkey, hsearch⟩
    · apply h.cache key execution hentry
    · use e.call.1, q

omit [DecidableEq ι] [DecidableEq κ] in
theorem Sound.initial :
  (SharedSearch.initial : SharedSearch ι κ).Sound C S digest configuration s asks
  := by
  constructor
  · intro call q hasked
    cases hasked
  · intro call _
    rfl
  · intro key execution hentry
    cases hentry

/-- A run while the requests are interchangeable. -/
theorem Sound.run (hinter : Interchangeable C S digest configuration s asks) :
    ∀ {events : List (SharedEvent ι)} {t : SharedSearch ι κ},
      t.Sound C S digest configuration s asks →
      (∀ call q, ⟨call, .begin q⟩ ∈ events → asks call.1 q) →
      (machine C S digest configuration s).run t events = some t' →
      t'.Sound C S digest configuration s asks
        ∧ ((∀ e ∈ events, e.event.Faultless) →
          (∀ call q, t.asked call = some q → (t.requests call).Refused q) →
          ∀ call q, t'.asked call = some q → (t'.requests call).Refused q)
  | [], t, h, _, hrun => by
      obtain rfl := Option.some.inj hrun
      use h
      intro _ hrefused
      apply hrefused
  | e :: events, t, h, hasks, hrun => by
      obtain ⟨t₁, hstep, hrun⟩ := (machine C S digest configuration s).run_cons_iff.mp hrun
      have hasks₁ : ∀ q, e.event = .begin q → asks e.call.1 q := by
        intro q hq
        apply hasks e.call q
        rw [← hq]
        apply List.mem_cons_self
      obtain ⟨q, hasked, -, -, hrefused, -⟩ := h.step_call hinter hasks₁ hstep
      obtain ⟨h', hrefused'⟩ := Sound.run hinter (h.step hinter hasks₁ hstep)
        (fun call q hmem => hasks call q (List.mem_cons_of_mem e hmem)) hrun
      use h'
      intro hfaultless hbefore
      apply hrefused' (fun e' he' => hfaultless e' (List.mem_cons_of_mem e he'))
      intro call q' hasked'
      by_cases hcall : call = e.call
      · subst hcall
        rw [hasked, Option.some.injEq] at hasked'
        subst hasked'
        apply hrefused (hfaultless e List.mem_cons_self)
      · obtain ⟨hother, hrequest⟩ := step_other hstep hcall
        rw [hother] at hasked'
        rw [hrequest]
        apply hbefore call q' hasked'

/-- Requests that are interchangeable are answered as without a cache. -/
theorem respected_of_interchangeable (hinter : Interchangeable C S digest configuration s asks) :
  Respected C S digest configuration s asks
  := by
  intro events t hrun hasks call q hasked
  obtain ⟨hsound, hrefused⟩ := Sound.initial.run hinter hasks hrun
  obtain ⟨-, hcomputes⟩ := hsound.asked call q hasked
  constructor
  · intro execution hreturned
    rw [hreturned] at hcomputes
    apply hcomputes
  · intro hfaultless error hraised
    have hcheck := hrefused hfaultless (fun _ _ hnone => by cases hnone) call q hasked
    rw [hraised] at hcheck
    rw [RetrievalConfiguration.search, SearchServices.search, show checkQuery q = .error error from hcheck]
    rfl

/-- The steps of a call that computes and stores its result. -/
def storing (call : ι × ℕ) (q : SearchQuery) : List (SharedEvent ι) :=
  [.begin q, .readRevision none, .get true, .keyword none, .vector none, .load none,
    .set true].map (⟨call, ·⟩)

/-- The steps of a call that finds its result in the cache. -/
def finding (call : ι × ℕ) (q : SearchQuery) : List (SharedEvent ι) :=
  [.begin q, .readRevision none, .get true].map (⟨call, ·⟩)

/-- A call finds the cache empty, and stores its result. -/
theorem run_storing {call : ι × ℕ} {q : SearchQuery} {execution : SearchExecution}
    (hcaching : (configuration call.1).ttlSeconds ≠ 0)
    (hsearch : (configuration call.1).search C S s q = .ok execution) :
  ∃ t, (machine C S digest configuration s).run initial (storing call q) = some t
    ∧ t.cache (cacheKey digest q s.db.revision) = some execution
    ∧ ∀ call', call' ≠ call → t.requests call' = .idle
  := by
  rw [RetrievalConfiguration.search, SearchServices.search] at hsearch
  cases hcheck : checkQuery q with
  | error error =>
      rw [hcheck] at hsearch
      cases hsearch
  | ok normalized =>
      rw [hcheck] at hsearch
      have hexecution := Except.ok.inj hsearch
      have hcaching' : ((configuration call.1).searchServices C).ttlSeconds ≠ 0 := hcaching
      use ⟨Function.update (fun _ => none) (cacheKey digest q s.db.revision) (some execution),
        Function.update (fun _ => none) call (some q),
        Function.update (fun _ => .idle) call (.returned execution)⟩
      constructor
      · simp [storing, Machine.run_cons, machine, step, Request.step, RequestEvent.query, initial,
          Request.Underway, hcheck, hcaching', hexecution]
      constructor
      · simp
      · intro call' hcall
        simp only [Function.update_of_ne hcall]

/-- A call finds an entry of the cache, and returns it. -/
theorem run_finding {call : ι × ℕ} {q : SearchQuery} {execution : SearchExecution}
    (hcaching : (configuration call.1).ttlSeconds ≠ 0) (hidle : t.requests call = .idle)
    (hentry : t.cache (cacheKey digest q s.db.revision) = some execution) :
  ∃ t', (machine C S digest configuration s).run t (finding call q) = some t'
    ∧ t'.asked call = some q ∧ t'.requests call = .returned execution
  := by
  have hcaching' : ((configuration call.1).searchServices C).ttlSeconds ≠ 0 := hcaching
  simp [finding, Machine.run_cons, machine, step, Request.step, RequestEvent.query,
    Request.Underway, hidle, hentry, hcaching']

/-- A deployment is answered with what another one has stored under the key of its request. -/
theorem interchangeable_of_respected (h : Respected C S digest configuration s asks) :
  Interchangeable C S digest configuration s asks
  := by
  intro i j q q' hq hq' hcaching hcaching' hkey execution hsearch
  obtain ⟨t, hstoring, hentry, hidle⟩ : ∃ t,
      (machine C S digest configuration s).run initial (storing (j, 0) q') = some t
        ∧ t.cache (cacheKey digest q' s.db.revision) = some execution
        ∧ ∀ call', call' ≠ (j, 0) → t.requests call' = .idle :=
    run_storing hcaching' hsearch
  obtain ⟨t', hfinding, hasked, hreturned⟩ : ∃ t',
      (machine C S digest configuration s).run t (finding (i, 1) q) = some t'
        ∧ t'.asked (i, 1) = some q ∧ t'.requests (i, 1) = .returned execution := by
    apply run_finding hcaching
    · apply hidle
      simp
    · rw [hkey, hentry]
  have hrun := (machine C S digest configuration s).run_append_iff.mpr ⟨t, hstoring, hfinding⟩
  apply (h _ t' hrun _ (i, 1) q hasked).1 execution hreturned
  intro call asked hmem
  rcases List.mem_append.mp hmem with hmem | hmem
  · obtain ⟨rfl, rfl⟩ : call = (j, 0) ∧ asked = q' := by
      simpa [storing] using hmem
    apply hq'
  · obtain ⟨rfl, rfl⟩ : call = (i, 1) ∧ asked = q := by
      simpa [finding] using hmem
    apply hq

omit [DecidableEq ι] [DecidableEq κ] in
/-- Requests that look for the same are interchangeable between deployments that agree on what
the mode makes use of. -/
theorem interchangeable_of_agreesOn (hdigest : Function.Injective digest)
    (hagrees : ∀ i j q q', asks i q → asks j q' → (configuration i).ttlSeconds ≠ 0 →
      (configuration j).ttlSeconds ≠ 0 → q.Same q' → (configuration i).AgreesOn (configuration j) q) :
  Interchangeable C S digest configuration s asks
  := by
  intro i j q q' hq hq' hcaching hcaching' hkey execution hsearch
  obtain ⟨-, hsame⟩ := canonicalKey_eq (hdigest hkey)
  rw [hsame.search_eq (hagrees i j q q' hq hq' hcaching hcaching' hsame), hsearch]

/-- A shared cache respects the configurations of the deployments if and only if the requests they
are asked are interchangeable. They are when any two requests that look for the same are asked of
deployments that agree on what the mode makes use of. -/
theorem respected_iff (C : SearchServices) (S : Services) (digest : Text → κ)
    (configuration : ι → RetrievalConfiguration) (s : Stores) (asks : ι → SearchQuery → Prop) :
  (Respected C S digest configuration s asks ↔ Interchangeable C S digest configuration s asks)
    ∧ (Function.Injective digest →
      (∀ i j q q', asks i q → asks j q' → (configuration i).ttlSeconds ≠ 0 →
        (configuration j).ttlSeconds ≠ 0 → q.Same q' →
          (configuration i).AgreesOn (configuration j) q) →
      Respected C S digest configuration s asks)
  := by
  use ⟨interchangeable_of_respected, respected_of_interchangeable⟩
  intro hdigest hagrees
  apply respected_of_interchangeable (interchangeable_of_agreesOn hdigest hagrees)

/-- Either constant of the fusion in the sample deployments is positive. -/
theorem one_le_sampleRrfK (b : Bool) :
  1 ≤ if b then 60 else 1
  := by
  cases b with
  | false => rfl
  | true => decide

/-- Two deployments that differ in the constant of the fusion only. -/
def sampleConfiguration (b : Bool) : RetrievalConfiguration where
  candidateMultiplier := 4
  one_le_candidateMultiplier := SearchServices.sample.one_le_candidateMultiplier
  rrfK := if b then 60 else 1
  one_le_rrfK := one_le_sampleRrfK b
  ttlSeconds := 300
  embedDocuments := Services.sample.embedDocuments
  length_embedDocuments := Services.sample.length_embedDocuments

/-- The corpus of the sample document. -/
def sampleCorpus : Stores :=
  (System.sampleAfter System.sampleReady).stores

/-- The two deployments can be asked for full-text searches, which do without the fusion. -/
theorem respected_iff_sample :
  Respected .sample .sample id sampleConfiguration sampleCorpus fun _ q => q.mode = .keyword
  := by
  apply (respected_iff .sample .sample id sampleConfiguration sampleCorpus _).2 Function.injective_id
  intro i j q q' hq _ _ _ _
  constructor
  · rfl
  · intro hmode
    rw [hq] at hmode
    cases hmode
  · intro _
    rfl

/-- A hybrid search for the text of the sample document. -/
def sampleHybrid : SearchQuery :=
  ⟨"alpha".toList, .hybrid, 5, ⟨[], []⟩⟩

/-- The second of two deployments is answered with the scores of the first. -/
theorem not_respected_sampleConfiguration :
  ¬ Respected .sample .sample id sampleConfiguration sampleCorpus fun _ _ => True
  := by
  intro h
  have hinter := interchangeable_of_respected h true false sampleHybrid sampleHybrid trivial trivial
    (by decide) (by decide) rfl
  have hdiffer : (sampleConfiguration true).search .sample .sample sampleCorpus sampleHybrid
      ≠ (sampleConfiguration false).search .sample .sample sampleCorpus sampleHybrid := by
    decide +kernel
  cases hfirst : (sampleConfiguration false).search .sample .sample sampleCorpus sampleHybrid with
  | error error =>
      have hok : ((sampleConfiguration false).search .sample .sample sampleCorpus
          sampleHybrid).isOk = true := by
        decide +kernel
      rw [hfirst] at hok
      cases hok
  | ok execution =>
      apply hdiffer
      rw [hfirst, hinter execution hfirst]

end SharedSearch

end KnowledgeSearch

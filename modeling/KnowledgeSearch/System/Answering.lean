import KnowledgeSearch.Api.Problems
import KnowledgeSearch.Application.Answers
import KnowledgeSearch.System.Provenance

/-!
# Calls of answer among the others

`Answering` is the system with the cache, the calls of search and the calls of `AnswerService.answer`,
together with what has been exchanged with the provider of answers. The search of the call of `answer`
with a number is the call of search with that number.

`Answering.answers_grounded` says what a call of `answer` returns, and `Answering.exchanges_grounded`
what the provider is ever sent.
-/

namespace KnowledgeSearch

open Database

/-! ### What is found for a query -/

/-- The results are for the query: they are found with its text and its mode, are no more than its
limit, and pass its filters. -/
structure SearchExecution.Meets (q : SearchQuery) (execution : SearchExecution) : Prop where
  query_eq : execution.query = normalizeQuery q.query
  mode_eq : execution.mode = q.mode
  length_le : execution.results.length ≤ q.limit.toNat
  admits : ∀ result ∈ execution.results,
    q.filters.admits result.citation.documentId result.mediaType = true

/-- Searches that look for the same have the same results. -/
theorem SearchExecution.Meets.same {q q' : SearchQuery} {execution : SearchExecution}
    (h : execution.Meets q) (hsame : q.Same q') :
  execution.Meets q'
  where
  query_eq := h.query_eq.trans hsame.query_eq
  mode_eq := h.mode_eq.trans hsame.mode_eq
  length_le := by
    rw [← hsame.limit_eq]
    apply h.length_le
  admits := by
    rw [← hsame.admits_eq]
    apply h.admits

/-- `uuid5` has no collision among the chunks of the tickets. -/
def Services.Separates (S : Services) (tickets : List Ticket) : Prop :=
  Set.InjOn (S.uuid5 chunkNamespace) (S.chunkKeys tickets)

theorem Services.Separates.mono {S : Services} {tickets tickets' : List Ticket}
    (h : S.Separates tickets') (hsub : tickets ⊆ tickets') :
  S.Separates tickets
  := by
  apply Set.InjOn.mono _ h
  rintro key ⟨t, ht, hchunk⟩
  use t, hsub ht

/-- The results for candidates that pass the filters of the query. -/
theorem Stores.Derived.meets_hydrate {S : Services} {tickets : List Ticket} {s : Stores}
    (hdistinct : Distinct tickets) (hseparates : S.Separates tickets) (hfollows : s.Follows tickets)
    (h : s.Derived S tickets) {q : SearchQuery} (hvalid : ∃ normalized, checkQuery q = .ok normalized)
    {candidates : List FusedCandidate}
    (hselects : ∀ candidate ∈ candidates, q.filters.Selects S tickets candidate.chunkId) :
  (SearchServices.hydrate s.db q candidates).Meets q
  where
  query_eq := rfl
  mode_eq := rfl
  length_le := by
    rw [SearchServices.results_hydrate (checkQuery_limit hvalid)]
    apply List.length_take_le
  admits := by
    intro result hresult
    obtain ⟨hdocumentIds, hmediaTypes, -⟩ :=
      h.filtered_hydrate hdistinct hseparates hfollows hvalid hselects result hresult
    apply SearchFilters.admits_iff.mpr ⟨hdocumentIds, hmediaTypes⟩

/-- The call of search is for the query, and what it has found is. -/
def Request.IsFor (q : SearchQuery) : Request → Prop
  | begun q' | keyed q' _ | missed q' _ | matched q' _ _ | ranked q' _ _ => q' = q
  | executed q' _ execution => q' = q ∧ execution.Meets q
  | returned execution => execution.Meets q
  | idle | raised _ | died => True

section Steps

variable {κ : Type} [DecidableEq κ] {C : SearchServices} {S : Services} {digest : Text → κ}
  {s : Stores} {cache cache' : SearchCache κ} {request request' : Request} {event : RequestEvent}

/-- What the cache holds under the key of a query is for the query. -/
def SearchCache.Meets (digest : Text → κ) (cache : SearchCache κ) : Prop :=
  ∀ q revision execution, cache (cacheKey digest q revision) = some execution → execution.Meets q

theorem SearchCache.Meets.update (hdigest : Function.Injective digest) (h : cache.Meets digest)
    {q : SearchQuery} {revision : ℕ} {execution : SearchExecution} (hmeets : execution.Meets q) :
  SearchCache.Meets digest (Function.update cache (cacheKey digest q revision) (some execution))
  := by
  intro q' revision' execution' hentry
  by_cases hkey : cacheKey digest q' revision' = cacheKey digest q revision
  · rw [hkey, Function.update_self] at hentry
    cases hentry
    obtain ⟨-, hsame⟩ := canonicalKey_eq (hdigest hkey)
    apply hmeets.same ⟨hsame.query_eq.symm, hsame.mode_eq.symm, hsame.limit_eq.symm,
      hsame.admits_eq.symm⟩
  · rw [Function.update_of_ne hkey] at hentry
    apply h q' revision' execution' hentry

/-- A call goes on to be for its query, and caches what it has found for it. -/
theorem Request.Steps.isFor (hstep : Request.Steps C S digest s cache request event cache' request')
    (hdigest : Function.Injective digest) (hcache : cache.Meets digest)
    (hhydrate : ∀ q revision candidates, request = .ranked q revision candidates →
      (SearchServices.hydrate s.db q candidates).Meets q) {q : SearchQuery} (h : request.IsFor q) :
  ((∀ q', event ≠ .begin q') → request'.IsFor q) ∧ cache'.Meets digest
  := by
  cases hstep with
  | beginUncached | begin => exact ⟨fun hbegin => absurd rfl (hbegin _), hcache⟩
  | readRevision | miss | keyword | vector => exact ⟨fun _ => h, hcache⟩
  | hit hentry =>
      obtain rfl := h
      exact ⟨fun _ => hcache _ _ _ hentry, hcache⟩
  | loadUncached =>
      obtain rfl := h
      exact ⟨fun _ => hhydrate _ _ _ rfl, hcache⟩
  | load =>
      obtain rfl := h
      exact ⟨fun _ => ⟨rfl, hhydrate _ _ _ rfl⟩, hcache⟩
  | set =>
      obtain ⟨rfl, hmeets⟩ := h
      exact ⟨fun _ => hmeets, hcache.update hdigest hmeets⟩
  | lose => exact ⟨fun _ => h.2, hcache⟩
  | raise | crash => exact ⟨fun _ => trivial, hcache⟩

/-- A call is begun for its query. -/
theorem Request.Steps.isFor_begin {q : SearchQuery}
    (hstep : Request.Steps C S digest s cache request (.begin q) cache' request') :
  request'.IsFor q
  := by
  cases hstep with
  | beginUncached | begin => rfl
  | raise => trivial

end Steps

namespace SearchSystem

variable {κ : Type} [DecidableEq κ] {C : SearchServices} {S : Services} {digest : Text → κ}
  {s s' : SearchSystem κ}

/-- Every call of search is for some query, and so is what the cache holds. -/
structure Meeting (digest : Text → κ) (s : SearchSystem κ) : Prop where
  cache : s.cache.Meets digest
  requests : ∀ i, ∃ q, (s.requests i).IsFor q

/-- A step keeps the queries of the calls, but for that of a call it begins. -/
theorem Meeting.step {event : SearchEvent} (hdigest : Function.Injective digest)
    (hselecting : s.Selecting S) (hseparates : S.Separates s.system.issued) (h : s.Meeting digest)
    (hstep : SearchSystem.step C S digest s event = some s') :
  s'.Meeting digest
    ∧ (∀ i q, (s.requests i).IsFor q → (∀ q', event ≠ .request i (.begin q')) →
      (s'.requests i).IsFor q)
    ∧ ∀ i q, event = .request i (.begin q) → (s'.requests i).IsFor q
  := by
  rcases step_eq_some hstep with ⟨e, system, rfl, hsystem, rfl⟩ | ⟨i, e, cache, request, rfl, hrequest, rfl⟩
  · refine ⟨⟨h.cache, h.requests⟩, fun i q hq _ => hq, ?_⟩
    rintro i q ⟨⟩
  · have hsteps := Request.steps hrequest
    have hhydrate : ∀ q revision candidates, s.requests i = .ranked q revision candidates →
        (SearchServices.hydrate s.system.stores.db q candidates).Meets q := by
      intro q revision candidates hranked
      have hselects := hselecting.requests i
      rw [hranked] at hselects
      apply hselecting.derived.meets_hydrate hselecting.sound.distinct hseparates
        hselecting.sound.stores hselects.1 hselects.2
    have hother : ∀ j q, (s.requests j).IsFor q → (∀ q', SearchEvent.request i e ≠ .request j (.begin q')) →
        (Function.update s.requests i request j).IsFor q := by
      intro j q hq hbegin
      by_cases hj : j = i
      · subst hj
        simp only [Function.update_self]
        apply (hsteps.isFor hdigest h.cache hhydrate hq).1
        rintro q' rfl
        apply hbegin q' rfl
      · simp only [Function.update_of_ne hj]
        apply hq
    have hbegun : ∀ j q, SearchEvent.request i e = .request j (.begin q) →
        (Function.update s.requests i request j).IsFor q := by
      rintro j q ⟨⟩
      simp only [Function.update_self]
      apply hsteps.isFor_begin
    refine ⟨⟨?_, ?_⟩, hother, hbegun⟩
    · obtain ⟨q, hq⟩ := h.requests i
      apply (hsteps.isFor hdigest h.cache hhydrate hq).2
    · intro j
      by_cases hbegin : ∃ q, SearchEvent.request i e = .request j (.begin q)
      · obtain ⟨q, hbegin⟩ := hbegin
        use q, hbegun j q hbegin
      · obtain ⟨q, hq⟩ := h.requests j
        use q
        apply hother j q hq
        intro q' heq
        apply hbegin ⟨q', heq⟩

end SearchSystem

/-! ### The machine -/

/-- Where a call of `AnswerService.answer` stands, with what it has been asked. -/
inductive Answer where
  | idle
  | searching (query : SearchQuery)
  | returned (query : SearchQuery) (execution : AnswerExecution)
  | raised (error : ApiError)
  | died

def Answer.Underway : Answer → Bool
  | searching _ => true
  | _ => false

/-- The system with the calls of answer, and what has been exchanged with the provider. -/
structure Answering (κ : Type) where
  search : SearchSystem κ
  answers : ℕ → Answer
  exchanges : List (ChatRequest × ProviderReply)

/-- A step of one of the other calls, or of a call of `answer`: it begins with a call of search, and
ends after it. -/
inductive AnswerEvent where
  | search (event : SearchEvent)
  | ask (call : ℕ) (query : SearchQuery)
  | conclude (call : ℕ) (reply : ProviderReply)
  | crash (call : ℕ)

namespace Answering

section

variable {κ : Type} [DecidableEq κ] (generator : AnswerGenerator) (C : SearchServices) (S : Services)
  (digest : Text → κ)

/-- The step begins the call of search that belongs to a call of `answer` under way. -/
def Intrudes (a : Answering κ) : SearchEvent → Bool
  | .request i (.begin _) => (a.answers i).Underway
  | _ => false

/-- A step. -/
def step (a : Answering κ) : AnswerEvent → Option (Answering κ)
  | .search event =>
      if a.Intrudes event then none
      else do
        let search ← SearchSystem.step C S digest a.search event
        some { a with search }
  | .ask i q =>
      if (a.answers i).Underway then none
      else do
        let search ← SearchSystem.step C S digest a.search (.request i (.begin q))
        some { a with search, answers := Function.update a.answers i (.searching q) }
  | .conclude i reply =>
      match a.answers i, a.search.requests i with
      | .searching q, .returned search =>
          match AnswerService.answer generator reply search with
          | (exchanges, .ok execution) =>
              some { a with
                answers := Function.update a.answers i (.returned q execution)
                exchanges := a.exchanges ++ exchanges }
          | (exchanges, .error error) =>
              some { a with
                answers := Function.update a.answers i (.raised (.generation error.message))
                exchanges := a.exchanges ++ exchanges }
      | .searching _, .raised error =>
          some { a with answers := Function.update a.answers i (.raised (.app error)) }
      | _, _ => none
  | .crash i =>
      if (a.answers i).Underway && !(a.search.requests i).Underway then
        some { a with answers := Function.update a.answers i .died }
      else none

/-- A new deployment. -/
def initial : Answering κ where
  search := .initial
  answers := fun _ => .idle
  exchanges := []

/-- The machine of the interleaved calls, those of `answer` among them. -/
def machine : Machine (Answering κ) AnswerEvent where
  Start a := a = initial
  step := step generator C S digest

end

/-- What a step does: a step of the other calls, the beginning of a call of `answer` or its end. -/
inductive Steps {κ : Type} [DecidableEq κ] (generator : AnswerGenerator) (C : SearchServices)
    (S : Services) (digest : Text → κ) (a : Answering κ) : Answering κ → Prop
  | search {event : SearchEvent} {search : SearchSystem κ}
      (hstep : SearchSystem.step C S digest a.search event = some search)
      (hintrudes : ∀ i q, event = .request i (.begin q) → (a.answers i).Underway = false) :
      Steps generator C S digest a { a with search }
  | ask {i : ℕ} {q : SearchQuery} {search : SearchSystem κ}
      (hstep : SearchSystem.step C S digest a.search (.request i (.begin q)) = some search) :
      Steps generator C S digest a
        { a with search, answers := Function.update a.answers i (.searching q) }
  | conclude {i : ℕ} {q : SearchQuery} {search : SearchExecution} {reply : ProviderReply}
      {exchanges : List (ChatRequest × ProviderReply)} {result : Except GenerationError AnswerExecution}
      {answer : Answer} (hasked : a.answers i = .searching q)
      (hfound : a.search.requests i = .returned search)
      (hresult : AnswerService.answer generator reply search = (exchanges, result))
      (hanswer : (∃ execution, result = .ok execution ∧ answer = .returned q execution)
        ∨ ∃ error, answer = .raised error) :
      Steps generator C S digest a
        { a with
          answers := Function.update a.answers i answer
          exchanges := a.exchanges ++ exchanges }
  | stop {i : ℕ} {answer : Answer} (hanswer : (∃ error, answer = .raised error) ∨ answer = .died) :
      Steps generator C S digest a { a with answers := Function.update a.answers i answer }

variable {κ : Type} [DecidableEq κ] {generator : AnswerGenerator} {C : SearchServices} {S : Services}
  {digest : Text → κ} {a a' : Answering κ}

theorem steps {event : AnswerEvent} (h : step generator C S digest a event = some a') :
  Steps generator C S digest a a'
  := by
  cases event with
  | search event =>
      simp only [step] at h
      split at h
      · cases h
      rename_i hintrudes
      obtain ⟨search, hstep, h⟩ := Option.bind_eq_some_iff.mp h
      cases h
      apply Steps.search hstep
      rintro i q rfl
      simpa [Intrudes] using hintrudes
  | ask i q =>
      simp only [step] at h
      split at h
      · cases h
      obtain ⟨search, hstep, h⟩ := Option.bind_eq_some_iff.mp h
      cases h
      apply Steps.ask hstep
  | conclude i reply =>
      simp only [step] at h
      split at h
      · rename_i q search hasked hfound
        split at h
        · rename_i exchanges execution hresult
          cases h
          apply Steps.conclude hasked hfound hresult (Or.inl ⟨execution, rfl, rfl⟩)
        · rename_i exchanges error hresult
          cases h
          apply Steps.conclude hasked hfound hresult (Or.inr ⟨_, rfl⟩)
      · cases h
        apply Steps.stop (Or.inl ⟨_, rfl⟩)
      · cases h
  | crash i =>
      simp only [step] at h
      split at h
      · cases h
        apply Steps.stop (Or.inr rfl)
      · cases h

/-! ### What calls return and what the provider is sent -/

/-- The search has been for the query, and its results quote uploads. -/
def Grounds (P : DocumentContentPreparer) (S : Services) (tickets : List Ticket) (q : SearchQuery)
    (search : SearchExecution) : Prop :=
  search.Quotes P S tickets ∧ ((P.services S).Separates tickets → search.Meets q)

theorem Grounds.mono {P : DocumentContentPreparer} {S : Services} {tickets tickets' : List Ticket}
    {q : SearchQuery} {search : SearchExecution} (h : Grounds P S tickets q search)
    (hsub : tickets ⊆ tickets') :
  Grounds P S tickets' q search
  := ⟨h.1.mono hsub, fun hseparates => h.2 (hseparates.mono hsub)⟩

/-- The request asks for an answer to the query from all that its search has found. -/
def Asks (P : DocumentContentPreparer) (S : Services) (generator : AnswerGenerator)
    (tickets : List Ticket) (request : ChatRequest) : Prop :=
  ∃ chat q search, generator = .chat chat ∧ request = chat.request search.query search.citations
    ∧ search.results ≠ [] ∧ Grounds P S tickets q search

/-- What a call of `answer` has returned. -/
def Answer.Holds (P : DocumentContentPreparer) (S : Services) (generator : AnswerGenerator)
    (tickets : List Ticket) (exchanges : List (ChatRequest × ProviderReply)) : Answer → Prop
  | .returned q execution => execution.Fits generator exchanges ∧ Grounds P S tickets q execution.search
  | _ => True

/-- The invariant of the calls of `answer`. -/
structure Grounded (P : DocumentContentPreparer) (S : Services) (generator : AnswerGenerator)
    (C : SearchServices) (digest : Text → κ) (a : Answering κ) : Prop where
  reachable : (SearchSystem.machine C (P.services S) digest).Reachable a.search
  meeting : (P.services S).Separates a.search.system.issued → a.search.Meeting digest
    ∧ ∀ i q, a.answers i = .searching q → (a.search.requests i).IsFor q
  answers : ∀ i, Answer.Holds P S generator a.search.system.issued a.exchanges (a.answers i)
  exchanges : ∀ exchange ∈ a.exchanges, Asks P S generator a.search.system.issued exchange.1

theorem Answer.Holds.mono {P : DocumentContentPreparer} {S : Services} {tickets tickets' : List Ticket}
    {exchanges exchanges' : List (ChatRequest × ProviderReply)} {answer : Answer}
    (h : Answer.Holds P S generator tickets exchanges answer) (hsub : tickets ⊆ tickets')
    (hexchanges : exchanges ⊆ exchanges') :
  Answer.Holds P S generator tickets' exchanges' answer
  := by
  cases answer with
  | returned => exact ⟨h.1.mono hexchanges, h.2.mono hsub⟩
  | _ => trivial

theorem Asks.mono {P : DocumentContentPreparer} {S : Services} {tickets tickets' : List Ticket}
    {request : ChatRequest} (h : Asks P S generator tickets request) (hsub : tickets ⊆ tickets') :
  Asks P S generator tickets' request
  := by
  obtain ⟨chat, q, search, hchat, hrequest, hresults, hgrounds⟩ := h
  exact ⟨chat, q, search, hchat, hrequest, hresults, hgrounds.mono hsub⟩

namespace Grounded

variable {P : DocumentContentPreparer}

/-- Steps of the calls of search keep what calls of `answer` have returned and sent. -/
theorem search {event : SearchEvent} {search : SearchSystem κ} (hdigest : Function.Injective digest)
    (h : a.Grounded P S generator C digest)
    (hstep : SearchSystem.step C (P.services S) digest a.search event = some search)
    {answers : ℕ → Answer} (hanswers : ∀ i,
      (answers i = a.answers i ∧ ∀ q, event = .request i (.begin q) → (a.answers i).Underway = false)
        ∨ ∃ q, answers i = .searching q ∧ event = .request i (.begin q)) :
  { a with search, answers }.Grounded P S generator C digest
  := by
  have hsub : a.search.system.issued ⊆ search.system.issued := by
    rcases SearchSystem.step_eq_some hstep with ⟨_, _, -, hsystem, rfl⟩ | ⟨_, _, _, _, -, -, rfl⟩
    · apply System.issued_subset_of_step hsystem
    · apply List.Subset.refl
  constructor
  · apply Machine.Reachable.step h.reachable hstep
  · intro hseparates
    have hbefore := hseparates.mono hsub
    obtain ⟨hmeeting, hasked⟩ := h.meeting hbefore
    obtain ⟨hmeeting', hkeep, hbegun⟩ := hmeeting.step hdigest
      (SearchSystem.Selecting.of_reachable h.reachable) hbefore hstep
    use hmeeting'
    intro i q hq
    change answers i = .searching q at hq
    rcases hanswers i with ⟨hsame, hidle⟩ | ⟨q', hq', hevent⟩
    · rw [hsame] at hq
      apply hkeep i q (hasked i q hq)
      intro q' hevent
      have hended := hidle q' hevent
      rw [hq] at hended
      cases hended
    · rw [hq'] at hq
      cases hq
      apply hbegun i q hevent
  · intro i
    rcases hanswers i with ⟨hsame, -⟩ | ⟨q, hq, -⟩
    · simp only [hsame]
      apply (h.answers i).mono hsub (List.Subset.refl _)
    · simp only [hq]
      trivial
  · intro exchange hexchange
    apply (h.exchanges exchange hexchange).mono hsub

/-- A call of `answer` that ends returns what its search has found, or nothing. -/
theorem finish (h : a.Grounded P S generator C digest) {i : ℕ} {answer : Answer}
    {exchanges : List (ChatRequest × ProviderReply)}
    (hended : answer.Underway = false)
    (hanswer : Answer.Holds P S generator a.search.system.issued (a.exchanges ++ exchanges) answer)
    (hexchanges : ∀ exchange ∈ exchanges, Asks P S generator a.search.system.issued exchange.1) :
  { a with answers := Function.update a.answers i answer
           exchanges := a.exchanges ++ exchanges }.Grounded P S generator C digest
  := by
  constructor
  · apply h.reachable
  · intro hseparates
    obtain ⟨hmeeting, hasked⟩ := h.meeting hseparates
    use hmeeting
    intro j q hq
    by_cases hj : j = i
    · subst hj
      simp only [Function.update_self] at hq
      rw [hq] at hended
      cases hended
    · simp only [Function.update_of_ne hj] at hq
      apply hasked j q hq
  · intro j
    by_cases hj : j = i
    · subst hj
      simp only [Function.update_self]
      apply hanswer
    · simp only [Function.update_of_ne hj]
      apply (h.answers j).mono (List.Subset.refl _) (List.subset_append_left _ _)
  · intro exchange hexchange
    rcases List.mem_append.mp hexchange with hold | hnew
    · apply h.exchanges exchange hold
    · apply hexchanges exchange hnew

/-- What the search of a call of `answer` has found. -/
theorem grounds (h : a.Grounded P S generator C digest) {i : ℕ} {q : SearchQuery}
    {search : SearchExecution} (hasked : a.answers i = .searching q)
    (hfound : a.search.requests i = .returned search) :
  Grounds P S a.search.system.issued q search
  := by
  constructor
  · have hquotes := (SearchSystem.Quoting.of_reachable h.reachable).requests i
    rw [hfound] at hquotes
    apply hquotes
  · intro hseparates
    have hfor := (h.meeting hseparates).2 i q hasked
    rw [hfound] at hfor
    apply hfor

theorem step {event : AnswerEvent} (hdigest : Function.Injective digest)
    (h : a.Grounded P S generator C digest)
    (hstep : Answering.step generator C (P.services S) digest a event = some a') :
  a'.Grounded P S generator C digest
  := by
  cases steps hstep with
  | search hsearch hintrudes =>
      apply h.search hdigest hsearch
      intro i
      left
      use rfl, hintrudes i
  | @ask i q search hsearch =>
      apply h.search hdigest hsearch
      intro j
      by_cases hj : j = i
      · subst hj
        right
        use q, Function.update_self ..
      · left
        use Function.update_of_ne hj ..
        intro q' hevent
        cases hevent
        exact absurd rfl hj
  | conclude hasked hfound hresult hanswer =>
      have hgrounds := h.grounds hasked hfound
      obtain ⟨hsent, hreturned⟩ := AnswerService.answer_spec hresult
      apply h.finish
      · rcases hanswer with ⟨execution, -, rfl⟩ | ⟨error, rfl⟩ <;> rfl
      · rcases hanswer with ⟨execution, hok, rfl⟩ | ⟨error, rfl⟩
        · obtain ⟨rfl, hfits⟩ := hreturned execution hok
          exact ⟨hfits.mono (List.subset_append_right _ _), hgrounds⟩
        · trivial
      · intro exchange hexchange
        obtain ⟨chat, hchat, hresults, hrequest⟩ := hsent exchange hexchange
        exact ⟨chat, _, _, hchat, hrequest, hresults, hgrounds⟩
  | @stop i answer hanswer =>
      rw [← List.append_nil a.exchanges]
      apply h.finish
      · rcases hanswer with ⟨error, rfl⟩ | rfl <;> rfl
      · rcases hanswer with ⟨error, rfl⟩ | rfl <;> trivial
      · simp

theorem of_reachable (hdigest : Function.Injective digest)
    (h : (machine generator C (P.services S) digest).Reachable a) :
  a.Grounded P S generator C digest
  := by
  apply h.induction
  · rintro a rfl
    constructor
    · exact ⟨SearchSystem.initial, [], rfl, rfl⟩
    · intro _
      refine ⟨⟨?_, fun _ => ⟨⟨[], .keyword, 0, ⟨[], []⟩⟩, trivial⟩⟩, ?_⟩
      · intro q revision execution hentry
        cases hentry
      · intro i q hq
        cases hq
    · intro i
      trivial
    · intro exchange hexchange
      cases hexchange
  · intro a event a' ha hstep
    apply ha.step hdigest hstep

end Grounded

section

variable {P : DocumentContentPreparer}

/-- A call of `answer` returns with the results of a search for its question, that quote uploads and pass
its filters. There is an answer exactly when answers are not disabled and there are results; it is then
what the provider has replied to the question with the citations of all of them. -/
theorem answers_grounded (hdigest : Function.Injective digest)
    (hreachable : (machine generator C (P.services S) digest).Reachable a)
    (hseparates : (P.services S).Separates a.search.system.issued) {i : ℕ} {q : SearchQuery}
    {execution : AnswerExecution} (hreturned : a.answers i = .returned q execution) :
  execution.Fits generator a.exchanges ∧ execution.search.Meets q
    ∧ execution.search.Quotes P S a.search.system.issued
  := by
  have hholds := (Grounded.of_reachable hdigest hreachable).answers i
  rw [hreturned] at hholds
  exact ⟨hholds.1, hholds.2.2 hseparates, hholds.2.1⟩

/-- Whatever is sent to the provider asks for an answer to a query with the citations of all results of a
search for it, of which there are some, that quote uploads and pass its filters; and nothing is sent where
answers are disabled. -/
theorem exchanges_grounded (hdigest : Function.Injective digest)
    (hreachable : (machine generator C (P.services S) digest).Reachable a)
    (hseparates : (P.services S).Separates a.search.system.issued)
    {exchange : ChatRequest × ProviderReply} (hexchange : exchange ∈ a.exchanges) :
  ∃ (chat : ChatCompletionsAnswerGenerator) (q : SearchQuery) (search : SearchExecution),
    generator = .chat chat
    ∧ exchange.1 = chat.request search.query search.citations ∧ search.results ≠ []
    ∧ search.Meets q ∧ search.Quotes P S a.search.system.issued
  := by
  obtain ⟨chat, q, search, hchat, hrequest, hresults, hgrounds⟩ :=
    (Grounded.of_reachable hdigest hreachable).exchanges exchange hexchange
  exact ⟨chat, q, search, hchat, hrequest, hresults, hgrounds.2 hseparates, hgrounds.1⟩

end

/-! ### The sample document -/

/-- A provider on the same host. -/
def sampleGenerator : AnswerGenerator :=
  .chat ⟨"http://127.0.0.1:11434/v1".toList, "qwen2.5:3b".toList, none⟩

/-- The reply of the provider. -/
def sampleReply : ProviderReply :=
  .completion [" alpha [1]\n".toList]

/-- The sample document is uploaded, indexed and asked for, and the provider replies. -/
def sampleAnswered : List AnswerEvent :=
  (System.sampleReady.map fun event => .search (.service event))
    ++ .ask 0 SearchSystem.sampleQuery ::
      ([.readRevision none, .get true, .keyword none, .vector none, .load none, .set true].map
        fun event => .search (.request 0 event))
    ++ [.conclude 0 sampleReply]

/-- A call for the sample document returns the answer of the provider without the white space. -/
theorem answers_grounded_sample :
  ∃ (a : Answering Text) (execution : AnswerExecution),
    execution.answer = some "alpha [1]".toList
    ∧ execution.Fits sampleGenerator a.exchanges ∧ execution.search.Meets SearchSystem.sampleQuery
    ∧ execution.search.Quotes .sample .sample a.search.system.issued
  := by
  have hcheck : ((machine sampleGenerator .sample (DocumentContentPreparer.sample.services .sample)
      (id : Text → Text)).run initial sampleAnswered).any fun a =>
        (a.search.system.issued.flatMap (DocumentContentPreparer.sample.services .sample).keysOf).length = 1
        && match a.answers 0 with
          | .returned q execution => q = SearchSystem.sampleQuery
              && execution.answer = some "alpha [1]".toList
          | _ => false := by
    decide +kernel
  obtain ⟨a, hrun, hchecked⟩ := (Option.any_eq_true _ _).mp hcheck
  rw [Bool.and_eq_true, decide_eq_true_eq] at hchecked
  obtain ⟨hkeys, hreturned⟩ := hchecked
  obtain ⟨key, hkeys⟩ := List.length_eq_one_iff.mp hkeys
  split at hreturned
  · rename_i q execution hanswer
    rw [Bool.and_eq_true, decide_eq_true_eq, decide_eq_true_eq] at hreturned
    obtain ⟨rfl, htext⟩ := hreturned
    exact ⟨a, execution, htext, answers_grounded Function.injective_id
      ⟨initial, sampleAnswered, rfl, hrun⟩ (Services.injOn_chunkKeys hkeys) hanswer⟩
  · cases hreturned

/-- The provider has been sent the citation of the sample document. -/
theorem exchanges_grounded_sample :
  ∃ (a : Answering Text) (exchange : ChatRequest × ProviderReply), exchange ∈ a.exchanges
    ∧ ∃ (chat : ChatCompletionsAnswerGenerator) (q : SearchQuery) (search : SearchExecution),
      sampleGenerator = .chat chat
      ∧ exchange.1 = chat.request search.query search.citations ∧ search.results ≠ []
      ∧ search.Meets q ∧ search.Quotes .sample .sample a.search.system.issued
  := by
  have hcheck : ((machine sampleGenerator .sample (DocumentContentPreparer.sample.services .sample)
      (id : Text → Text)).run initial sampleAnswered).any fun a =>
        (a.search.system.issued.flatMap (DocumentContentPreparer.sample.services .sample).keysOf).length = 1
        && a.exchanges.length = 1 := by
    decide +kernel
  obtain ⟨a, hrun, hchecked⟩ := (Option.any_eq_true _ _).mp hcheck
  rw [Bool.and_eq_true, decide_eq_true_eq, decide_eq_true_eq] at hchecked
  obtain ⟨hkeys, hexchanges⟩ := hchecked
  obtain ⟨key, hkeys⟩ := List.length_eq_one_iff.mp hkeys
  obtain ⟨exchange, hexchange⟩ := List.length_eq_one_iff.mp hexchanges
  have hmem : exchange ∈ a.exchanges := by
    rw [hexchange]
    apply List.mem_singleton_self
  exact ⟨a, exchange, hmem, exchanges_grounded Function.injective_id
    ⟨initial, sampleAnswered, rfl, hrun⟩ (Services.injOn_chunkKeys hkeys) hmem⟩

end Answering

end KnowledgeSearch

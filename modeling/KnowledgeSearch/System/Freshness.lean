import KnowledgeSearch.System.Searching

/-!
# Cached search is never stale

`SearchSystem.Fresh` is the invariant of the calls of search and of the cache, and
`SearchSystem.Purged` what holds of a document once a call of `delete` has marked it: nothing the
cache holds under the present revision or a later one cites it, nor does anything that a call has
found for such a revision. `SearchSystem.search_not_stale` collects what follows for what a call
of search returns.
-/

namespace KnowledgeSearch

open Database

/-! ### Steps of a call of search -/

section Steps

variable {κ : Type} [DecidableEq κ] {C : SearchServices} {S : Services} {digest : Text → κ}
  {s : Stores} {cache cache' : SearchCache κ} {request request' : Request} {event : RequestEvent}

/-- Setting the entry of a key. -/
theorem SearchCache.Fresh.update {db : Database} (hdigest : Function.Injective digest)
    (h : cache.Fresh C digest db) {q : SearchQuery} {revision : ℕ} {execution : SearchExecution}
    (hvalid : ∃ normalized, checkQuery q = .ok normalized)
    (htimely : db.Timely revision (execution.Present C db q)) :
  SearchCache.Fresh C digest db
    (Function.update cache (cacheKey digest q revision) (some execution))
  := by
  intro q' revision' execution' hentry
  by_cases hkey : cacheKey digest q' revision' = cacheKey digest q revision
  · rw [hkey, Function.update_self] at hentry
    cases hentry
    obtain ⟨rfl, hsame⟩ := canonicalKey_eq (hdigest hkey)
    obtain ⟨hle, hpresent⟩ := htimely
    rw [hsame.checkQuery_eq]
    use hvalid, hle
    intro heq
    obtain ⟨hready, hkeyword⟩ := hpresent heq
    use hready
    intro hmode
    rw [hkeyword (hsame.mode_eq ▸ hmode), SearchServices.keywordExecution,
      SearchServices.keywordExecution, hsame.keyword_eq, hsame.hydrate_eq]
  · rw [Function.update_of_ne hkey] at hentry
    apply h q' revision' execution' hentry

/-- What a step of a call finds and sets is up to date. -/
theorem Request.Steps.fresh (hstep : Request.Steps C S digest s cache request event cache' request')
    (hdigest : Function.Injective digest) (hcache : cache.Fresh C digest s.db)
    (h : request.Fresh C s.db) :
  request'.Fresh C s.db ∧ cache'.Fresh C digest s.db
  := by
  cases hstep with
  | beginUncached => use by simp [Request.Fresh]
  | begin | hit | loadUncached | lose | raise | crash => use trivial
  | readRevision => use le_rfl
  | miss =>
      use (by
        intro r hr
        rw [← Option.some.inj hr]
        apply h)
  | keyword hvalid =>
      refine ⟨⟨hvalid, ?_⟩, hcache⟩
      intro r hr
      use h r hr
      intro _ _
      rfl
  | vector =>
      refine ⟨⟨h.1, ?_⟩, hcache⟩
      intro r hr
      apply (h.2 r hr).mono le_rfl
      intro _ hkeyword hmode
      rw [hkeyword hmode, hmode]
      rfl
  | load =>
      refine ⟨⟨h.1, ?_⟩, hcache⟩
      apply (h.2 _ rfl).mono le_rfl
      intro _ hcandidates
      constructor
      · intro result hresult
        apply exists_of_mem_results hresult
      · intro hmode
        rw [hcandidates hmode]
        rfl
  | set =>
      use trivial
      apply hcache.update hdigest h.1 h.2

end Steps

/-! ### The invariant -/

namespace SearchSystem

variable {κ : Type} [DecidableEq κ] {C : SearchServices} {S : Services} {digest : Text → κ}
  {s s' : SearchSystem κ}

/-- What the calls of search have found and what the cache holds is up to date. -/
structure Fresh (C : SearchServices) (S : Services) (digest : Text → κ) (s : SearchSystem κ) :
    Prop where
  sound : s.system.Sound S
  cache : s.cache.Fresh C digest s.system.stores.db
  requests : ∀ i, (s.requests i).Fresh C s.system.stores.db

/-- Every step preserves the invariant. -/
theorem Fresh.step {event : SearchEvent} (hdigest : Function.Injective digest)
    (h : s.Fresh C S digest) (hstep : SearchSystem.step C S digest s event = some s') :
  s'.Fresh C S digest
  := by
  rcases step_eq_some hstep with ⟨e, system, -, hsystem, rfl⟩ | ⟨i, e, cache, request, -, hrequest, rfl⟩
  · obtain ⟨hle, hsame⟩ := h.sound.sameSearchable_of_step hsystem
    constructor
    · apply h.sound.step hsystem
    · intro q revision execution hentry
      obtain ⟨hvalid, htimely⟩ := h.cache q revision execution hentry
      exact ⟨hvalid, htimely.present hle hsame⟩
    · intro i
      apply (h.requests i).mono hle hsame
  · obtain ⟨hfresh, hcache⟩ := (Request.steps hrequest).fresh hdigest h.cache (h.requests i)
    constructor
    · apply h.sound
    · apply hcache
    · intro j
      by_cases hj : j = i
      · subst hj
        simp only [Function.update_self]
        apply hfresh
      · simp only [Function.update_of_ne hj]
        apply h.requests j

theorem Fresh.of_reachable (hdigest : Function.Injective digest)
    (h : (machine C S digest).Reachable s) :
  s.Fresh C S digest
  := by
  apply h.induction
  · rintro s rfl
    constructor
    · apply System.Sound.initial
    · intro q revision execution hentry
      cases hentry
    · intro i
      trivial
  · intro s event s' hs hstep
    apply hs.step hdigest hstep

end SearchSystem

/-! ### Documents that are being deleted -/

/-- The results cite no chunk of the document. -/
def SearchExecution.Omits (execution : SearchExecution) (d : Uuid) : Prop :=
  ∀ result ∈ execution.results, result.citation.documentId ≠ d

/-- What is found while a document is marked does not cite it. -/
theorem SearchExecution.omits_of_marked {execution : SearchExecution} {db : Database} {d : Uuid}
    (hready : ∀ result ∈ execution.results, ∃ row ∈ db.searchable,
      result.citation.documentId = row.document.id) (hmarked : db.Marked d) :
  execution.Omits d
  := by
  intro result hresult hid
  obtain ⟨row, hrow, hrowid⟩ := hready result hresult
  obtain ⟨-, hdocument, -, hstatus⟩ := mem_searchable.mp hrow
  rw [hmarked row.document hdocument (hrowid.symm.trans hid)] at hstatus
  cases hstatus

/-- What a call has found under a revision from `floor` on does not cite the document. -/
def Request.Purged (floor : ℕ) (d : Uuid) : Request → Prop
  | executed _ revision execution => floor ≤ revision → execution.Omits d
  | _ => True

/-- What the cache holds under a revision from `floor` on does not cite the document. -/
def SearchCache.Purged {κ : Type} (digest : Text → κ) (floor : ℕ) (d : Uuid)
    (cache : SearchCache κ) : Prop :=
  ∀ q revision execution, floor ≤ revision →
    cache (cacheKey digest q revision) = some execution → execution.Omits d

/-- A call that began under a revision from `floor` on: it asks for such a revision, and what it
has found or returned does not cite the document. -/
def Request.Late (floor : ℕ) (d : Uuid) : Request → Prop
  | keyed _ revision => floor ≤ revision
  | missed _ revision | matched _ revision _ | ranked _ revision _ => ∀ r ∈ revision, floor ≤ r
  | executed _ revision execution => floor ≤ revision ∧ execution.Omits d
  | returned execution => execution.Omits d
  | idle | begun _ | raised _ | died => True

section Steps

variable {κ : Type} [DecidableEq κ] {C : SearchServices} {S : Services} {digest : Text → κ}
  {s : Stores} {cache cache' : SearchCache κ} {request request' : Request} {event : RequestEvent}
  {floor : ℕ} {d : Uuid}

/-- A step of a call while the document is marked. -/
theorem Request.Steps.purged
    (hstep : Request.Steps C S digest s cache request event cache' request')
    (hmarked : s.db.Marked d) :
  request'.Purged floor d
  := by
  cases hstep with
  | load =>
      intro _
      apply SearchExecution.omits_of_marked (fun _ => exists_of_mem_results) hmarked
  | _ => trivial

/-- What a step of a call sets under a revision from `floor` on does not cite the document. -/
theorem Request.Steps.entries
    (hstep : Request.Steps C S digest s cache request event cache' request')
    (hdigest : Function.Injective digest) (h : request.Purged floor d)
    (hcache : cache.Purged digest floor d) :
  cache'.Purged digest floor d
  := by
  cases hstep with
  | set =>
      intro q revision execution hfloor hentry
      rename_i q' revision' execution' _
      by_cases hkey : cacheKey digest q revision = cacheKey digest q' revision'
      · rw [hkey, Function.update_self] at hentry
        cases hentry
        obtain ⟨rfl, -⟩ := canonicalKey_eq (hdigest hkey)
        apply h hfloor
      · rw [Function.update_of_ne hkey] at hentry
        apply hcache q revision execution hfloor hentry
  | _ => apply hcache

/-- A step of a call that began under a revision from `floor` on, while the document is marked. -/
theorem Request.Steps.late (hstep : Request.Steps C S digest s cache request event cache' request')
    (h : request.Late floor d) (hmarked : s.db.Marked d) (hfloor : floor ≤ s.db.revision)
    (hcache : cache.Purged digest floor d) :
  request'.Late floor d
  := by
  cases hstep with
  | beginUncached => simp [Request.Late]
  | begin | raise | crash => trivial
  | readRevision => apply hfloor
  | hit hentry => apply hcache _ _ _ h hentry
  | miss =>
      intro r hr
      rw [← Option.some.inj hr]
      apply h
  | keyword | vector => apply h
  | loadUncached => apply SearchExecution.omits_of_marked (fun _ => exists_of_mem_results) hmarked
  | load => exact ⟨h _ rfl, SearchExecution.omits_of_marked (fun _ => exists_of_mem_results) hmarked⟩
  | set | lose => apply h.2

end Steps

namespace SearchSystem

section Purged

variable {κ : Type} [DecidableEq κ] {C : SearchServices} {S : Services} {digest : Text → κ}
  {s s' : SearchSystem κ} {t : Ticket} {floor : ℕ} {j : ℕ}

/-- The document of a ticket is hidden, and nothing found or cached under a revision from `floor` on
cites it. -/
structure Purged (S : Services) (digest : Text → κ) (floor : ℕ) (s : SearchSystem κ) (t : Ticket) :
    Prop where
  hidden : s.system.Hidden S t
  floor_le : floor ≤ s.system.stores.db.revision
  cache : s.cache.Purged digest floor t.documentId
  requests : ∀ i, (s.requests i).Purged floor t.documentId

omit [DecidableEq κ] in
/-- Once a document is hidden, nothing found or cached under the present revision cites it. -/
theorem Fresh.purged (h : s.Fresh C S digest) (hhidden : s.system.Hidden S t) :
  s.Purged S digest s.system.stores.db.revision t
  where
  hidden := hhidden
  floor_le := le_rfl
  cache := by
    intro q revision execution hfloor hentry
    obtain ⟨-, hle, hpresent⟩ := h.cache q revision execution hentry
    apply SearchExecution.omits_of_marked (hpresent (le_antisymm hle hfloor)).ready hhidden.marked
  requests := by
    intro i
    have hi := h.requests i
    cases hrequest : s.requests i with
    | executed q revision execution =>
        rw [hrequest] at hi
        obtain ⟨-, hle, hpresent⟩ := hi
        intro hfloor
        apply SearchExecution.omits_of_marked (hpresent (le_antisymm hle hfloor)).ready
          hhidden.marked
    | _ => trivial

/-- Every step preserves that nothing found or cached under a revision from `floor` on cites the
document, and that a call began under such a revision. -/
theorem Purged.step {event : SearchEvent} (hdigest : Function.Injective digest)
    (h : s.Purged S digest floor t) (hstep : SearchSystem.step C S digest s event = some s') :
  s'.Purged S digest floor t
    ∧ ((s.requests j).Late floor t.documentId → (s'.requests j).Late floor t.documentId)
  := by
  rcases step_eq_some hstep with ⟨e, system, -, hsystem, rfl⟩ | ⟨i, e, cache, request, -, hrequest, rfl⟩
  · have hle := (h.hidden.sound.sameSearchable_of_step hsystem).1
    constructor
    · use h.hidden.step hsystem, le_trans h.floor_le hle, h.cache, h.requests
    · exact id
  · have hsteps := Request.steps hrequest
    constructor
    · use h.hidden, h.floor_le, hsteps.entries hdigest (h.requests i) h.cache
      intro k
      by_cases hk : k = i
      · subst hk
        simp only [Function.update_self]
        apply hsteps.purged h.hidden.marked
      · simp only [Function.update_of_ne hk]
        apply h.requests k
    · intro hlate
      by_cases hj : j = i
      · subst hj
        simp only [Function.update_self]
        apply hsteps.late hlate h.hidden.marked h.floor_le h.cache
      · simp only [Function.update_of_ne hj]
        apply hlate

theorem Purged.run {events : List SearchEvent} (hdigest : Function.Injective digest)
    (h : s.Purged S digest floor t) (hrun : (machine C S digest).run s events = some s') :
  s'.Purged S digest floor t
    ∧ ((s.requests j).Late floor t.documentId → (s'.requests j).Late floor t.documentId)
  := by
  apply (machine C S digest).run_invariant (I := fun s' => s'.Purged S digest floor t
    ∧ ((s.requests j).Late floor t.documentId → (s'.requests j).Late floor t.documentId)) _
    ⟨h, id⟩ hrun
  rintro s₁ event s₂ ⟨h₁, hlate₁⟩ hstep
  obtain ⟨h₂, hlate₂⟩ := h₁.step (j := j) hdigest hstep
  use h₂
  intro hlate
  apply hlate₂ (hlate₁ hlate)

/-- A call that has just begun. -/
theorem late_of_begin {q : SearchQuery} {d : Uuid}
    (hstep : step C S digest s (.request j (.begin q)) = some s') :
  (s'.requests j).Late floor d
  := by
  rcases step_eq_some hstep with ⟨_, _, he, -⟩ | ⟨i, e, cache, request, he, hrequest, rfl⟩
  · cases he
  · cases he
    have hsteps := Request.steps hrequest
    simp only [Function.update_self]
    generalize s.requests j = before at hsteps
    cases hsteps with
    | beginUncached => simp [Request.Late]
    | begin | raise => trivial

end Purged

end SearchSystem

/-! ### Calls that nothing disturbs -/

/-- Where a full-text search for `q` stands while the database stays as it is. -/
def Request.Exact (C : SearchServices) (db : Database) (q : SearchQuery) : Request → Prop
  | begun q' => q' = q
  | keyed q' revision => q' = q ∧ revision = db.revision
  | missed q' revision => q' = q ∧ ∀ r ∈ revision, r = db.revision
  | matched q' _ keyword =>
      q' = q ∧ (∃ normalized, checkQuery q = .ok normalized) ∧ keyword = C.keyword db q
  | ranked q' _ candidates =>
      q' = q ∧ (∃ normalized, checkQuery q = .ok normalized)
        ∧ candidates = C.rank .keyword (C.keyword db q) []
  | executed _ _ execution | returned execution =>
      (∃ normalized, checkQuery q = .ok normalized) ∧ execution = C.keywordExecution db q
  | idle | raised _ | died => True

/-- When the call has raised, its query did not pass the checks. -/
def Request.Refused (q : SearchQuery) : Request → Prop
  | raised error => checkQuery q = .error error
  | _ => True

/-- The number of steps that a call under way has still to take at most. -/
def Request.remaining : Request → ℕ
  | begun _ => 6
  | keyed _ _ => 5
  | missed _ _ => 4
  | matched _ _ _ => 3
  | ranked _ _ _ => 2
  | executed _ _ _ => 1
  | idle | returned _ | raised _ | died => 0

/-- What the uncached search returns in the full-text mode. -/
theorem search_keyword {C : SearchServices} {S : Services} {s : Stores} {q : SearchQuery}
    (hmode : q.mode = .keyword) :
  C.search S s q = (checkQuery q).bind fun _ => .ok (C.keywordExecution s.db q)
  := by
  simp only [SearchServices.search, SearchServices.keywordExecution, SearchServices.rank, hmode]
  rfl

section Steps

variable {κ : Type} [DecidableEq κ] {C : SearchServices} {S : Services} {digest : Text → κ}
  {s : Stores} {cache cache' : SearchCache κ} {request request' : Request} {event : RequestEvent}
  {q : SearchQuery}

/-- A step of a full-text search. -/
theorem Request.Steps.exact (hstep : Request.Steps C S digest s cache request event cache' request')
    (hmode : q.mode = .keyword) (hcache : cache.Fresh C digest s.db)
    (hevent : ¬ event.IsBegin) (h : request.Exact C s.db q) :
  request'.Exact C s.db q
  := by
  cases hstep with
  | beginUncached | begin => exact absurd trivial hevent
  | readRevision => exact ⟨h, rfl⟩
  | hit hentry =>
      obtain ⟨rfl, rfl⟩ := h
      obtain ⟨hvalid, -, hpresent⟩ := hcache _ _ _ hentry
      use hvalid, (hpresent rfl).keyword hmode
  | miss =>
      obtain ⟨rfl, rfl⟩ := h
      use rfl
      rintro r hr
      apply (Option.some.inj hr).symm
  | keyword hvalid =>
      obtain ⟨rfl, -⟩ := h
      use rfl, hvalid
  | vector =>
      obtain ⟨rfl, hvalid, rfl⟩ := h
      use rfl, hvalid
      rw [hmode]
      rfl
  | loadUncached | load =>
      obtain ⟨rfl, hvalid, rfl⟩ := h
      use hvalid
      rfl
  | set | lose => apply h
  | raise | crash => trivial

/-- A step of a full-text search that meets no fault. -/
theorem Request.Steps.refused
    (hstep : Request.Steps C S digest s cache request event cache' request')
    (hfaultless : event.Faultless) (h : request.Exact C s.db q) :
  request'.Refused q
  := by
  cases hstep with
  | raise herror =>
      obtain ⟨q', revision, rfl, hcheck⟩ := herror hfaultless
      obtain ⟨rfl, -⟩ := h
      apply hcheck
  | crash => cases hfaultless
  | _ => trivial

/-- A call under way can take a step without a fault, which brings it closer to its end. -/
theorem Request.proceeds (h : request.Underway = true) :
  ∃ event cache' request', event.Faultless ∧ ¬ event.IsBegin
    ∧ request.step C S digest s cache event = some (cache', request')
    ∧ request'.remaining < request.remaining
  := by
  cases request with
  | begun q =>
      use .readRevision none, cache, .keyed q s.db.revision, rfl, not_false, rfl
      simp [Request.remaining]
  | keyed q revision =>
      use .get false, cache, .missed q (some revision), trivial, not_false, rfl
      simp [Request.remaining]
  | missed q revision =>
      cases hcheck : checkQuery q with
      | error error =>
          use .keyword none, cache, .raised error, rfl, not_false
          use by simp [Request.step, hcheck]
          simp [Request.remaining]
      | ok normalized =>
          use .keyword none, cache, .matched q revision (C.keyword s.db q), rfl, not_false
          use by simp [Request.step, hcheck]
          simp [Request.remaining]
  | matched q revision keyword =>
      use .vector none, cache,
        .ranked q revision (C.rank q.mode keyword (C.vector S s.index q)), rfl, not_false
      use by simp [Request.step]
      simp [Request.remaining]
  | ranked q revision candidates =>
      cases revision with
      | none =>
          use .load none, cache, .returned (SearchServices.hydrate s.db q candidates), rfl, not_false
          use by simp [Request.step]
          simp [Request.remaining]
      | some revision =>
          use .load none, cache, .executed q revision (SearchServices.hydrate s.db q candidates), rfl,
            not_false
          use by simp [Request.step]
          simp [Request.remaining]
  | executed q revision execution =>
      use .set false, cache, .returned execution, trivial, not_false, rfl
      simp [Request.remaining]
  | idle | returned | raised | died => cases h

end Steps

namespace SearchSystem

variable {κ : Type} [DecidableEq κ] {C : SearchServices} {S : Services} {digest : Text → κ}
  {s s' : SearchSystem κ} {q : SearchQuery} {j : ℕ}

/-- The step commits no change of the database, and does not begin the call `j`. -/
def Undisturbed (S : Services) (j : ℕ) (s : SearchSystem κ) : SearchEvent → Prop
  | .service e => ∀ system, System.step S s.system e = some system →
      system.stores.db = s.system.stores.db
  | .request i e => i = j → ¬ e.IsBegin

/-- A step while a full-text search is under way that nothing disturbs. -/
theorem exact_step {event : SearchEvent} (hmode : q.mode = .keyword)
    (hfresh : s.Fresh C S digest) (h : (s.requests j).Exact C s.system.stores.db q)
    (hundisturbed : s.Undisturbed S j event) (hstep : step C S digest s event = some s') :
  s'.system.stores.db = s.system.stores.db
    ∧ (s'.requests j).Exact C s.system.stores.db q
    ∧ ((∀ e, event = .request j e → e.Faultless) → (s.requests j).Refused q →
      (s'.requests j).Refused q)
  := by
  rcases step_eq_some hstep with ⟨e, system, rfl, hsystem, rfl⟩
    | ⟨i, e, cache, request, rfl, hrequest, rfl⟩
  · use hundisturbed system hsystem, h
    intro _ hrefused
    apply hrefused
  · use rfl
    by_cases hj : j = i
    · subst hj
      have hsteps := Request.steps hrequest
      simp only [Function.update_self]
      use hsteps.exact hmode hfresh.cache (hundisturbed rfl) h
      intro hfaultless _
      apply hsteps.refused (hfaultless e rfl) h
    · simp only [Function.update_of_ne hj]
      use h
      intro _ hrefused
      apply hrefused

/-- A run while a full-text search is under way that nothing disturbs. -/
theorem exact_run (hmode : q.mode = .keyword) (hdigest : Function.Injective digest) :
    ∀ {events : List SearchEvent} {s : SearchSystem κ}, s.Fresh C S digest →
      (s.requests j).Exact C s.system.stores.db q →
      (machine C S digest).run s events = some s' →
      (machine C S digest).Meets (Undisturbed S j) s events →
      (s'.requests j).Exact C s.system.stores.db q
        ∧ ((∀ e, .request j e ∈ events → e.Faultless) → (s.requests j).Refused q →
          (s'.requests j).Refused q)
  | [], s, _, h, hrun, _ => by
      obtain rfl := Option.some.inj hrun
      use h
      intro _ hrefused
      apply hrefused
  | event :: events, s, hfresh, h, hrun, hmeets => by
      obtain ⟨s₁, hstep, hrun⟩ := (machine C S digest).run_cons_iff.mp hrun
      change step C S digest s event = some s₁ at hstep
      obtain ⟨hdb, h₁, hrefused₁⟩ := exact_step hmode hfresh h hmeets.1 hstep
      rw [← hdb] at h₁
      obtain ⟨h', hrefused'⟩ := exact_run hmode hdigest (hfresh.step hdigest hstep) h₁ hrun
        (hmeets.2 s₁ hstep)
      rw [hdb] at h'
      use h'
      intro hfaultless hrefused
      apply hrefused'
      · intro e he
        apply hfaultless e (List.mem_cons_of_mem event he)
      · apply hrefused₁ _ hrefused
        rintro e rfl
        apply hfaultless e List.mem_cons_self

/-- A call under way can go on to its end without a fault. -/
theorem ends : ∀ (n : ℕ) (s : SearchSystem κ), (s.requests j).remaining ≤ n →
    ∃ events : List RequestEvent, (∀ e ∈ events, e.Faultless ∧ ¬ e.IsBegin) ∧
      ∃ s', (machine C S digest).run s (events.map (.request j)) = some s'
        ∧ (s'.requests j).Underway = false
  | n, s, hn => by
      by_cases hunderway : (s.requests j).Underway = true
      · obtain ⟨event, cache, request, hfaultless, hbegin, hstep, hless⟩ :
            ∃ event cache request, event.Faultless ∧ ¬ event.IsBegin
              ∧ (s.requests j).step C S digest s.system.stores s.cache event = some (cache, request)
              ∧ request.remaining < (s.requests j).remaining :=
          Request.proceeds hunderway
        cases n with
        | zero => omega
        | succ n =>
            have hstep₁ : step C S digest s (.request j event) = some { s with
                cache, requests := Function.update s.requests j request } := by
              simp [step, hstep]
            obtain ⟨events, hevents, s', hrun, hended⟩ := ends n { s with
                cache, requests := Function.update s.requests j request } (by simp; omega)
            use event :: events
            constructor
            · apply List.forall_mem_cons.mpr ⟨⟨hfaultless, hbegin⟩, hevents⟩
            · use s'
              use (machine C S digest).run_cons_iff.mpr ⟨_, hstep₁, hrun⟩
      · use [], by simp, s, rfl
        simpa using hunderway

/-- A call that begins with a full-text search. -/
theorem exact_of_begin {db : Database} (hstep : step C S digest s (.request j (.begin q)) = some s') :
  s'.system = s.system ∧ (s'.requests j).Exact C db q ∧ (s'.requests j).Refused q
  := by
  rcases step_eq_some hstep with ⟨_, _, he, -⟩ | ⟨i, e, cache, request, he, hrequest, rfl⟩
  · cases he
  · cases he
    use rfl
    have hsteps := Request.steps hrequest
    simp only [Function.update_self]
    generalize s.requests j = before at hsteps hrequest
    cases hsteps with
    | beginUncached => simp [Request.Exact, Request.Refused]
    | begin => simp [Request.Exact, Request.Refused]
    | raise herror =>
        obtain ⟨q', revision, rfl, -⟩ := herror trivial
        simp [Request.step, Request.Underway] at hrequest

/-- What a cached search returns: in every mode, a call that begins after a call of `delete` has
marked a document does not cite it; and a call in the full-text mode while no transaction changes
the database can go on to its end, and what it returns, or raises without a fault, is what the
uncached search returns or raises. -/
theorem search_not_stale (hdigest : Function.Injective digest)
    (hreachable : (machine C S digest).Reachable s) :
  (∀ d i clock fault s₁ es s₂ j q s₃ fs s₄,
      step C S digest s (.service (.deletion i (.mark d clock fault))) = some s₁ →
      (s₁.system.deletions i).document.isSome →
      (machine C S digest).run s₁ es = some s₂ →
      step C S digest s₂ (.request j (.begin q)) = some s₃ →
      (machine C S digest).run s₃ fs = some s₄ →
      ∀ execution, s₄.requests j = .returned execution →
        ∀ result ∈ execution.results, result.citation.documentId ≠ d)
    ∧ ∀ j q s₁ es s₂, q.mode = .keyword →
      step C S digest s (.request j (.begin q)) = some s₁ →
      (machine C S digest).run s₁ es = some s₂ →
      (machine C S digest).Meets (Undisturbed S j) s₁ es →
      (∀ execution, s₂.requests j = .returned execution →
          C.search S s.system.stores q = .ok execution)
        ∧ ((∀ e, .request j e ∈ es → e.Faultless) → ∀ error, s₂.requests j = .raised error →
          C.search S s.system.stores q = .error error)
        ∧ ∃ fs : List RequestEvent, (∀ e ∈ fs, e.Faultless ∧ ¬ e.IsBegin) ∧
          ∃ s₃, (machine C S digest).run s₂ (fs.map (.request j)) = some s₃
            ∧ (s₃.requests j).Underway = false
  := by
  have hfresh := Fresh.of_reachable hdigest hreachable
  constructor
  · intro d i clock fault s₁ es s₂ j q s₃ fs s₄ hmark hbegun hrun₂ hbegin hrun₄ execution hreturned
    have hfresh₁ := hfresh.step hdigest hmark
    obtain ⟨t, rfl, hhidden⟩ : ∃ t, t.documentId = d ∧ s₁.system.Hidden S t := by
      rcases step_eq_some hmark with ⟨e, system, he, hsystem, rfl⟩ | ⟨_, _, _, _, he, -⟩
      · cases he
        apply System.Hidden.of_mark hfresh.sound hsystem hbegun
      · cases he
    have hpurged₂ := ((hfresh₁.purged hhidden).run (j := j) hdigest hrun₂).1
    have hpurged₃ := (hpurged₂.step (j := j) hdigest hbegin).1
    have hlate := (hpurged₃.run (j := j) hdigest hrun₄).2 (late_of_begin hbegin)
    rw [hreturned] at hlate
    apply hlate
  · intro j q s₁ es s₂ hmode hbegin hrun hundisturbed
    obtain ⟨hsystem, hexact, hrefused⟩ := exact_of_begin hbegin
    obtain ⟨hexact₂, hrefused₂⟩ := exact_run hmode hdigest (hfresh.step hdigest hbegin) hexact hrun
      hundisturbed
    rw [hsystem] at hexact₂
    rw [search_keyword hmode]
    constructor
    · intro execution hreturned
      rw [hreturned] at hexact₂
      obtain ⟨⟨normalized, hcheck⟩, rfl⟩ := hexact₂
      rw [hcheck]
      rfl
    constructor
    · intro hfaultless error hraised
      have h := hrefused₂ hfaultless hrefused
      rw [hraised] at h
      rw [show checkQuery q = .error error from h]
      rfl
    · apply ends _ s₂ le_rfl

/-! ### The sample document -/

/-- The sample deployment with a cache after some events. -/
def sampleSearchAfter (events : List SearchEvent) : SearchSystem Text :=
  ((machine .sample .sample id).run initial events).getD initial

/-- The sample deployment goes from one state to another by the events between them. -/
theorem run_sampleSearchAfter (es fs : List SearchEvent)
    (h : ((machine .sample .sample id).run initial (es ++ fs)).isSome = true) :
  (machine .sample .sample id).run (sampleSearchAfter es) fs = some (sampleSearchAfter (es ++ fs))
  := by
  obtain ⟨s, hs⟩ := Option.isSome_iff_exists.mp h
  obtain ⟨t, ht, hrun⟩ := (machine .sample .sample id).run_append_iff.mp hs
  rw [sampleSearchAfter, sampleSearchAfter, ht, hs, Option.getD_some, Option.getD_some, hrun]

theorem step_sampleSearchAfter (es : List SearchEvent) (e : SearchEvent)
    (h : ((machine .sample .sample id).run initial (es ++ [e])).isSome = true) :
  step .sample .sample id (sampleSearchAfter es) e = some (sampleSearchAfter (es ++ [e]))
  := by
  obtain ⟨s, hstep, hs⟩ := (machine .sample .sample id).run_cons_iff.mp (run_sampleSearchAfter es [e] h)
  rw [← hs]
  apply hstep

/-- A search for the text of the sample document. -/
def sampleQuery : SearchQuery :=
  ⟨"alpha".toList, .keyword, 5, ⟨[], []⟩⟩

/-- The sample document is ready, and a call of search has found it. -/
def sampleFound : List SearchEvent :=
  System.sampleReady.map .service
    ++ [.begin sampleQuery, .readRevision none, .get true, .keyword none, .vector none, .load none,
      .set true].map (.request 0)

/-- The mark of the sample document by a call of `delete`. -/
def sampleSearchMark : SearchEvent :=
  .service (.deletion 0 (.mark Services.sampleDocumentId (System.clockFrom 30) none))

/-- A call of search from its start on, when the cache does not have the result. -/
def sampleMiss : List SearchEvent :=
  [.readRevision none, .get true, .keyword none, .vector none, .load none,
    .set true].map (.request 1)

/-- The sample document is found in the cache, and is not found any more once it is being
deleted. -/
theorem search_not_stale_sample :
  (∃ execution, (sampleSearchAfter (sampleFound ++ [sampleSearchMark]
        ++ [.request 1 (.begin sampleQuery)] ++ sampleMiss)).requests 1 = .returned execution
      ∧ ∀ result ∈ execution.results, result.citation.documentId ≠ Services.sampleDocumentId)
    ∧ ∃ execution, execution.results ≠ []
      ∧ SearchServices.sample.search .sample (sampleSearchAfter sampleFound).system.stores sampleQuery
        = .ok execution
  := by
  have hreachable : (machine .sample .sample id).Reachable (sampleSearchAfter sampleFound) :=
    ⟨initial, sampleFound, rfl, run_sampleSearchAfter [] sampleFound (by decide +kernel)⟩
  obtain ⟨homits, hexact⟩ := search_not_stale Function.injective_id hreachable
  constructor
  · have hresult : (match (sampleSearchAfter (sampleFound ++ [sampleSearchMark]
        ++ [.request 1 (.begin sampleQuery)] ++ sampleMiss)).requests 1 with
        | .returned _ => true
        | _ => false) = true := by
      decide +kernel
    split at hresult
    · rename_i execution hreturned
      use execution, hreturned
      apply homits Services.sampleDocumentId 0 (System.clockFrom 30) none _ [] _ 1 sampleQuery _ sampleMiss
      · apply step_sampleSearchAfter sampleFound sampleSearchMark (by decide +kernel)
      · decide +kernel
      · rfl
      · apply step_sampleSearchAfter _ _ (by decide +kernel)
      · apply run_sampleSearchAfter _ _ (by decide +kernel)
      · apply hreturned
    · cases hresult
  · have hresult : (match (sampleSearchAfter (sampleFound ++ [.request 1 (.begin sampleQuery)]
        ++ [.readRevision none, .get true].map (.request 1))).requests 1 with
        | .returned execution => !execution.results.isEmpty
        | _ => false) = true := by
      decide +kernel
    split at hresult
    · rename_i execution hreturned
      use execution
      constructor
      · rintro hnil
        rw [hnil] at hresult
        cases hresult
      · have hbegin := step_sampleSearchAfter sampleFound (.request 1 (.begin sampleQuery))
          (by decide +kernel)
        have hrun := run_sampleSearchAfter (sampleFound ++ [.request 1 (.begin sampleQuery)])
          ([.readRevision none, .get true].map (.request 1)) (by decide +kernel)
        apply (hexact 1 sampleQuery _ _ _ rfl hbegin hrun _).1 execution hreturned
        apply Machine.meets_of_forall
        simp [Undisturbed, RequestEvent.IsBegin]
    · cases hresult

end SearchSystem

end KnowledgeSearch

import KnowledgeSearch.Application.Cache
import KnowledgeSearch.System.Withdrawal

/-!
# Calls of search among the others

`SearchSystem` is the system together with the cache and any number of calls of
`CachedSearchService.search` that are under way, and `SearchSystem.machine` the machine in which
each step is a step of one of the calls. Transactions are single steps, those of searches among
them.

A step that leaves the corpus revision as it is leaves the chunks of the ready documents as they
are. `SearchSystem.Fresh` follows from it and holds in every reachable state: what was read since
the present revision, and what the cache holds under it, is what a search would read now.
-/

namespace KnowledgeSearch

open Database

/-- The system with the cache and the calls of search under way. -/
structure SearchSystem (κ : Type) where
  system : System
  cache : SearchCache κ
  requests : ℕ → Request

/-- A step of a call of `submit`, `process` or `delete`, or of one of the calls of search. -/
inductive SearchEvent where
  | service (event : Event)
  | request (call : ℕ) (event : RequestEvent)

/-! ### Readiness and the corpus revision -/

/-- Moving a document that was not ready and does not become so leaves the chunks of the ready
documents as they are. -/
theorem Database.Moved.sameSearchable {move : Move} {db db' : Database}
    {document document' : Document} {job job' : IngestionJob} {added : List Chunk}
    (h : Moved move db db' document document' job job' added) (hrevision : db'.revision = db.revision) :
  db.SameSearchable db'
  := by
  obtain ⟨p, q, hnext, hp, -, hq, -⟩ := h.next
  have hbump : move.bump = 0 := by
    have hrevision' := h.revision
    omega
  have hnotReady : p ≠ .ready ∧ q ≠ .ready := by
    constructor
    · intro hready
      rw [Phase.bump_of_ready hnext (Or.inl hready)] at hbump
      cases hbump
    · intro hready
      rw [Phase.bump_of_ready hnext (Or.inr hready)] at hbump
      cases hbump
  have hadded : added = [] := by
    by_contra hne
    rw [h.added_nonempty.mp hne] at hbump
    cases hbump
  have hready : ∀ {r : Phase}, r ≠ .ready → r.document ≠ .ready := by
    intro r hr
    cases r <;> simp [Phase.document] at hr ⊢
  intro row
  rw [mem_searchable, mem_searchable, h.chunks, h.mem_documents, hadded]
  constructor
  · rintro ⟨hchunk, hdocument, hid, hstatus⟩
    rcases hdocument with rfl | ⟨hdocument, -⟩
    · exact absurd (hq.symm.trans hstatus) (hready hnotReady.2)
    · exact ⟨hchunk.resolve_right List.not_mem_nil, hdocument, hid, hstatus⟩
  · rintro ⟨hchunk, hdocument, hid, hstatus⟩
    refine ⟨Or.inl hchunk, Or.inr ⟨hdocument, ?_⟩, hid, hstatus⟩
    intro heq
    rw [Table.eq_of_key_eq hdocument h.document_mem heq] at hstatus
    exact absurd (hp.symm.trans hstatus) (hready hnotReady.1)

/-- Inserting a queued document leaves the chunks of the ready documents as they are. -/
theorem Database.Inserted.sameSearchable {db db' : Database} {document : Document}
    {job : IngestionJob} (h : Inserted db db' document job) :
  db.SameSearchable db'
  := by
  intro row
  rw [mem_searchable, mem_searchable, h.chunks, h.mem_documents]
  constructor
  · rintro ⟨hchunk, hdocument | rfl, hid, hstatus⟩
    · use hchunk, hdocument, hid
    · rw [h.document_status] at hstatus
      cases hstatus
  · rintro ⟨hchunk, hdocument, hid, hstatus⟩
    use hchunk, Or.inl hdocument, hid

/-- Removing a document that is not ready leaves the chunks of the ready documents as they
are. -/
theorem Database.Removed.sameSearchable {db db' : Database} {d : Uuid} (h : Removed db db' d)
    (hd : ∀ document ∈ db.documents, document.id = d → document.status ≠ .ready) :
  db.SameSearchable db'
  := by
  intro row
  rw [mem_searchable, mem_searchable, h.mem_chunks, h.mem_documents]
  constructor
  · rintro ⟨⟨hchunk, -⟩, ⟨hdocument, -⟩, hid, hstatus⟩
    use hchunk, hdocument, hid
  · rintro ⟨hchunk, hdocument, hid, hstatus⟩
    have hne : row.document.id ≠ d := by
      intro heq
      apply hd row.document hdocument heq hstatus
    refine ⟨⟨hchunk, ?_⟩, ⟨hdocument, hne⟩, hid, hstatus⟩
    rw [← hid]
    apply hne

/-- The revision never decreases, and a step that leaves it leaves the chunks of the ready
documents. -/
theorem System.Sound.sameSearchable_of_step {S : Services} {s s' : System} {e : Event}
    (h : s.Sound S) (hstep : System.step S s e = some s') :
  s.stores.db.revision ≤ s'.stores.db.revision
    ∧ (s'.stores.db.revision = s.stores.db.revision → s.stores.db.SameSearchable s'.stores.db)
  := by
  rcases h.changed hstep with hdb | ⟨_, _, _, _, _, _, hmoved⟩ | ⟨_, _, _, -, hinserted⟩
    | ⟨i, document, hi, hremoved⟩
  · rw [hdb]
    use le_refl _
    intro _
    apply SameSearchable.refl
  · constructor
    · rw [hmoved.revision]
      apply Nat.le_add_right
    · apply hmoved.sameSearchable
  · use hinserted.revision.ge
    intro _
    apply hinserted.sameSearchable
  · use hremoved.revision.ge
    intro _
    apply hremoved.sameSearchable
    intro row hrow hid hready
    rw [h.deleting i document hi row hrow hid] at hready
    cases hready

/-! ### The steps of a call of search -/

/-- The effects the steps of a call of search can have. -/
inductive Request.Steps {κ : Type} [DecidableEq κ] (C : SearchServices) (S : Services)
    (digest : Text → κ) (s : Stores) (cache : SearchCache κ) :
    Request → RequestEvent → SearchCache κ → Request → Prop
  | beginUncached {request : Request} {q : SearchQuery} :
      Steps C S digest s cache request (.begin q) cache (.missed q none)
  | begin {request : Request} {q : SearchQuery} :
      Steps C S digest s cache request (.begin q) cache (.begun q)
  | readRevision {q : SearchQuery} {fault : Option AppError} :
      Steps C S digest s cache (.begun q) (.readRevision fault) cache (.keyed q s.db.revision)
  | hit {q : SearchQuery} {revision : ℕ} {execution : SearchExecution} {present : Bool}
      (hentry : cache (cacheKey digest q revision) = some execution) :
      Steps C S digest s cache (.keyed q revision) (.get present) cache (.returned execution)
  | miss {q : SearchQuery} {revision : ℕ} {present : Bool} :
      Steps C S digest s cache (.keyed q revision) (.get present) cache (.missed q (some revision))
  | keyword {q : SearchQuery} {revision : Option ℕ} {fault : Option AppError}
      (hvalid : ∃ normalized, checkQuery q = .ok normalized) :
      Steps C S digest s cache (.missed q revision) (.keyword fault) cache
        (.matched q revision (C.keyword s.db q))
  | vector {q : SearchQuery} {revision : Option ℕ} {keyword : List RetrievalCandidate}
      {fault : Option AppError} :
      Steps C S digest s cache (.matched q revision keyword) (.vector fault) cache
        (.ranked q revision (C.rank q.mode keyword (C.vector S s.index q)))
  | loadUncached {q : SearchQuery} {candidates : List FusedCandidate} {fault : Option AppError} :
      Steps C S digest s cache (.ranked q none candidates) (.load fault) cache
        (.returned (SearchServices.hydrate s.db q candidates))
  | load {q : SearchQuery} {revision : ℕ} {candidates : List FusedCandidate}
      {fault : Option AppError} :
      Steps C S digest s cache (.ranked q (some revision) candidates) (.load fault) cache
        (.executed q revision (SearchServices.hydrate s.db q candidates))
  | set {q : SearchQuery} {revision : ℕ} {execution : SearchExecution} {stored : Bool} :
      Steps C S digest s cache (.executed q revision execution) (.set stored)
        (Function.update cache (cacheKey digest q revision) (some execution)) (.returned execution)
  | lose {q : SearchQuery} {revision : ℕ} {execution : SearchExecution} {stored : Bool} :
      Steps C S digest s cache (.executed q revision execution) (.set stored) cache
        (.returned execution)
  | raise {request : Request} {event : RequestEvent} {error : AppError}
      (herror : event.Faultless →
        ∃ q revision, request = .missed q revision ∧ checkQuery q = .error error) :
      Steps C S digest s cache request event cache (.raised error)
  | crash {request : Request} :
      Steps C S digest s cache request .crash cache .died

theorem Request.steps {κ : Type} [DecidableEq κ] {C : SearchServices} {S : Services}
    {digest : Text → κ} {s : Stores} {cache cache' : SearchCache κ} {request request' : Request}
    {event : RequestEvent} (h : request.step C S digest s cache event = some (cache', request')) :
  Request.Steps C S digest s cache request event cache' request'
  := by
  cases event with
  | begin q =>
      simp only [step] at h
      split at h
      · cases h
      split at h <;> cases h
      · apply Steps.beginUncached
      · apply Steps.begin
  | readRevision fault =>
      cases request with
      | begun q =>
          simp only [step] at h
          split at h
          · rename_i error hfault
            cases h
            apply Steps.raise
            rintro rfl
            cases hfault
          · rename_i revision hrevision
            cases h
            obtain ⟨-, hok⟩ := transaction_eq_ok_iff.mp hrevision
            obtain rfl := Except.ok.inj hok
            apply Steps.readRevision
      | _ => cases h
  | get present =>
      cases request with
      | keyed q revision =>
          simp only [step] at h
          split at h
          · rename_i execution hentry
            cases h
            apply Steps.hit
            cases present with
            | true => apply hentry
            | false => cases hentry
          · cases h
            apply Steps.miss
      | _ => cases h
  | keyword fault =>
      cases request with
      | missed q revision =>
          simp only [step] at h
          split at h
          · rename_i error hcheck
            cases h
            apply Steps.raise
            intro _
            use q, revision, rfl
          rename_i normalized hcheck
          split at h
          · rename_i error hfault
            cases h
            apply Steps.raise
            rintro rfl
            simp at hfault
          · rename_i keyword hkeyword
            cases h
            obtain ⟨-, hok⟩ := transaction_eq_ok_iff.mp hkeyword
            obtain rfl := Except.ok.inj hok
            apply Steps.keyword ⟨normalized, hcheck⟩
      | _ => cases h
  | vector fault =>
      cases request with
      | matched q revision keyword =>
          simp only [step] at h
          split at h
          · rename_i error hfault
            cases h
            apply Steps.raise
            rintro rfl
            simp at hfault
          · cases h
            apply Steps.vector
      | _ => cases h
  | load fault =>
      cases request with
      | ranked q revision candidates =>
          simp only [step] at h
          split at h
          · rename_i error _ hfault
            cases h
            apply Steps.raise
            rintro rfl
            simp at hfault
          · rename_i execution hload
            cases h
            obtain ⟨-, hok⟩ := transaction_eq_ok_iff.mp hload
            obtain rfl := Except.ok.inj hok
            apply Steps.loadUncached
          · rename_i execution revision hload
            cases h
            obtain ⟨-, hok⟩ := transaction_eq_ok_iff.mp hload
            obtain rfl := Except.ok.inj hok
            apply Steps.load
      | _ => cases h
  | set stored =>
      cases request with
      | executed q revision execution =>
          cases h
          cases stored with
          | true => apply Steps.set
          | false => apply Steps.lose
      | _ => cases h
  | crash =>
      simp only [step] at h
      split at h <;> cases h
      apply Steps.crash

namespace SearchSystem

/-! ### The machine -/

section

variable {κ : Type} [DecidableEq κ] (C : SearchServices) (S : Services) (digest : Text → κ)

/-- A step of the system, or of one of the calls of search. -/
def step (s : SearchSystem κ) : SearchEvent → Option (SearchSystem κ)
  | .service e => do
      let system ← System.step S s.system e
      some { s with system }
  | .request i e => do
      let (cache, request) ← (s.requests i).step C S digest s.system.stores s.cache e
      some { s with cache, requests := Function.update s.requests i request }

/-- A new deployment with an empty cache and without calls. -/
def initial : SearchSystem κ where
  system := .initial
  cache := fun _ => none
  requests := fun _ => .idle

/-- The machine of the interleaved calls, those of search among them. -/
def machine : Machine (SearchSystem κ) SearchEvent where
  Start s := s = initial
  step := step C S digest

end

variable {κ : Type} [DecidableEq κ] {C : SearchServices} {S : Services} {digest : Text → κ}
  {s s' : SearchSystem κ}

/-- A step is one of the system or one of a call of search. -/
theorem step_eq_some {event : SearchEvent} (h : step C S digest s event = some s') :
  (∃ e system, event = .service e ∧ System.step S s.system e = some system
      ∧ s' = { s with system })
    ∨ ∃ i e cache request, event = .request i e
      ∧ (s.requests i).step C S digest s.system.stores s.cache e = some (cache, request)
      ∧ s' = { s with cache, requests := Function.update s.requests i request }
  := by
  cases event with
  | service e =>
      left
      obtain ⟨system, hstep, hs'⟩ := Option.bind_eq_some_iff.mp h
      use e, system, rfl, hstep, (Option.some.inj hs').symm
  | request i e =>
      right
      obtain ⟨⟨cache, request⟩, hstep, hs'⟩ := Option.bind_eq_some_iff.mp h
      use i, e, cache, request, rfl, hstep, (Option.some.inj hs').symm

end SearchSystem

/-! ### What is up to date -/

/-- What was found under a corpus revision holds, unless the revision is past. -/
def Database.Timely (db : Database) (revision : ℕ) (P : Prop) : Prop :=
  revision ≤ db.revision ∧ (revision = db.revision → P)

theorem Database.Timely.mono {db db' : Database} {revision : ℕ} {P P' : Prop}
    (h : db.Timely revision P) (hle : db.revision ≤ db'.revision)
    (himp : db'.revision = db.revision → P → P') :
  db'.Timely revision P'
  := by
  obtain ⟨hrevision, hP⟩ := h
  use le_trans hrevision hle
  intro heq
  have hsame : db'.revision = db.revision := by
    omega
  apply himp hsame (hP (heq.trans hsame))

/-- The results of a full-text search in a database. -/
def SearchServices.keywordExecution (C : SearchServices) (db : Database) (q : SearchQuery) :
    SearchExecution :=
  SearchServices.hydrate db q (C.rank .keyword (C.keyword db q) [])

/-- The results cite ready documents, and those of a full-text search are what the search would
return. -/
structure SearchExecution.Present (C : SearchServices) (db : Database) (q : SearchQuery)
    (execution : SearchExecution) : Prop where
  ready : ∀ result ∈ execution.results, ∃ row ∈ db.searchable,
    result.citation.documentId = row.document.id
  keyword : q.mode = .keyword → execution = C.keywordExecution db q

/-- What a call has read is up to date, unless its revision is past. -/
def Request.Fresh (C : SearchServices) (db : Database) : Request → Prop
  | keyed _ revision => revision ≤ db.revision
  | missed _ revision => ∀ r ∈ revision, r ≤ db.revision
  | matched q revision keyword =>
      (∃ normalized, checkQuery q = .ok normalized)
        ∧ ∀ r ∈ revision, db.Timely r (q.mode = .keyword → keyword = C.keyword db q)
  | ranked q revision candidates =>
      (∃ normalized, checkQuery q = .ok normalized)
        ∧ ∀ r ∈ revision,
          db.Timely r (q.mode = .keyword → candidates = C.rank .keyword (C.keyword db q) [])
  | executed q revision execution =>
      (∃ normalized, checkQuery q = .ok normalized)
        ∧ db.Timely revision (execution.Present C db q)
  | idle | begun _ | returned _ | raised _ | died => True

section Mono

variable {C : SearchServices} {db db' : Database} (hle : db.revision ≤ db'.revision)
  (hsame : db'.revision = db.revision → db.SameSearchable db')

include hle hsame

theorem Database.Timely.present {revision : ℕ} {q : SearchQuery} {execution : SearchExecution}
    (h : db.Timely revision (execution.Present C db q)) :
  db'.Timely revision (execution.Present C db' q)
  := by
  apply h.mono hle
  rintro heq ⟨hready, hkeyword⟩
  constructor
  · intro result hresult
    obtain ⟨row, hrow, hid⟩ := hready result hresult
    use row, (hsame heq row).mpr hrow
  · intro hmode
    rw [hkeyword hmode, SearchServices.keywordExecution, SearchServices.keywordExecution,
      keyword_eq_of_searchable (hsame heq), hydrate_eq_of_searchable (hsame heq)]

theorem Request.Fresh.mono {request : Request} (h : request.Fresh C db) :
  request.Fresh C db'
  := by
  cases request with
  | keyed => apply le_trans h hle
  | missed =>
      intro r hr
      apply le_trans (h r hr) hle
  | matched =>
      use h.1
      intro r hr
      apply (h.2 r hr).mono hle
      intro heq hkeyword hmode
      rw [hkeyword hmode, keyword_eq_of_searchable (hsame heq)]
  | ranked =>
      use h.1
      intro r hr
      apply (h.2 r hr).mono hle
      intro heq hcandidates hmode
      rw [hcandidates hmode, keyword_eq_of_searchable (hsame heq)]
  | executed => exact ⟨h.1, h.2.present hle hsame⟩
  | idle | begun | returned | raised | died => trivial

end Mono

/-- What the cache holds under a key is up to date, unless the revision is past, and comes from a
query that passed the checks. -/
def SearchCache.Fresh {κ : Type} (C : SearchServices) (digest : Text → κ) (db : Database)
    (cache : SearchCache κ) : Prop :=
  ∀ q revision execution, cache (cacheKey digest q revision) = some execution →
    (∃ normalized, checkQuery q = .ok normalized)
      ∧ db.Timely revision (execution.Present C db q)

end KnowledgeSearch

import KnowledgeSearch.Ingestion.Identity
import KnowledgeSearch.System.Freshness
import KnowledgeSearch.System.Indexing

/-!
# Filters

Hydration does not look at the filters of a search again. That its results pass them rests on
the tickets: the row of a chunk and its point, whenever they were written, are as the ticket of
their document says, and as long as `uuid5` has no collision among the chunks of the tickets, the
identifier of a chunk determines the ticket.
-/

namespace KnowledgeSearch

/-! ### The ticket of a chunk -/

/-- The keys of the chunks of tickets. -/
def Services.chunkKeys (S : Services) (tickets : List Ticket) : Set Text :=
  {key | ∃ t ∈ tickets, ∃ chunk, S.Derives t chunk ∧ key = chunk.stableKey}

/-- The keys of the chunks of a ticket. -/
def Services.keysOf (S : Services) (t : Ticket) : List Text :=
  match S.chunksOf t with
  | .ok chunks => chunks.map Chunk.stableKey
  | .error _ => []

theorem Services.mem_keysOf_of_mem_chunkKeys {S : Services} {tickets : List Ticket} {key : Text}
    (h : key ∈ S.chunkKeys tickets) :
  key ∈ tickets.flatMap S.keysOf
  := by
  obtain ⟨t, ht, chunk, hderives, hkey⟩ := h
  obtain ⟨chunks, hchunks, hmem⟩ := hderives
  have hkeys : S.keysOf t = chunks.map Chunk.stableKey := by
    rw [keysOf, hchunks]
  rw [List.mem_flatMap, hkey]
  use t, ht
  rw [hkeys]
  apply List.mem_map_of_mem hmem

/-- A single key does not collide. -/
theorem Services.injOn_chunkKeys {S : Services} {tickets : List Ticket} {key : Text}
    (h : tickets.flatMap S.keysOf = [key]) :
  Set.InjOn (S.uuid5 chunkNamespace) (S.chunkKeys tickets)
  := by
  have hkey : ∀ k ∈ S.chunkKeys tickets, k = key := by
    intro k hk
    rw [← List.mem_singleton, ← h]
    apply mem_keysOf_of_mem_chunkKeys hk
  intro k hk k' hk' _
  rw [hkey k hk, hkey k' hk']

/-- The chunks of tickets are built by `Chunk.create`. -/
theorem Services.Derives.isKeyed {S : Services} {tickets : List Ticket} {t : Ticket} {chunk : Chunk}
    (h : S.Derives t chunk) (ht : t ∈ tickets) :
  chunk.IsKeyed S.uuid5 (S.chunkKeys tickets)
  := by
  constructor
  · obtain ⟨chunks, hchunks, hmem⟩ := h
    obtain ⟨segments, -, hprepare⟩ := bind_eq_ok_iff.mp hchunks
    obtain ⟨created, hcreated, hprepare⟩ := bind_eq_ok_iff.mp hprepare
    split at hprepare
    · cases hprepare
    · cases hprepare
      obtain ⟨ordinal, segment, hcreate⟩ := exists_createChunk_of_mem hcreated hmem
      exact ⟨t.documentId, ordinal, _, _, _, _, hcreate⟩
  · exact ⟨t, ht, chunk, h, rfl⟩

/-- The identifier of a chunk determines the ticket it comes from. -/
theorem Services.Derives.ticket_eq {S : Services} {tickets : List Ticket} (hdistinct : Distinct tickets)
    (hinj : Set.InjOn (S.uuid5 chunkNamespace) (S.chunkKeys tickets)) {t t' : Ticket}
    {chunk chunk' : Chunk} (h : S.Derives t chunk) (h' : S.Derives t' chunk') (ht : t ∈ tickets)
    (ht' : t' ∈ tickets) (hid : chunk.id = chunk'.id) :
  t = t'
  := by
  apply hdistinct.documents t ht t' ht'
  rw [← h.documentId_eq, ← h'.documentId_eq]
  apply (((h.isKeyed ht).id_eq_iff hinj (h'.isKeyed ht')).mp hid).1

/-- The point of a ticket carries its media type. -/
theorem Services.Indexes.mediaType_eq {S : Services} {t : Ticket} {point : Point}
    (h : S.Indexes t point) :
  point.mediaType = t.mediaType
  := by
  obtain ⟨document, chunks, hnames, -, hpoint⟩ := h
  obtain ⟨chunk, -, vector, -, rfl⟩ := mem_pointsOf hpoint
  apply hnames.mediaType_eq

/-! ### Candidates -/

/-- The identifier is that of a chunk of a ticket whose document the filters admit. -/
def SearchFilters.Selects (filters : SearchFilters) (S : Services) (tickets : List Ticket)
    (chunkId : Uuid) : Prop :=
  ∃ t ∈ tickets, ∃ chunk, S.Derives t chunk ∧ chunk.id = chunkId
    ∧ filters.admits t.documentId t.mediaType = true

theorem SearchFilters.Selects.mono {filters : SearchFilters} {S : Services}
    {tickets tickets' : List Ticket} {chunkId : Uuid} (h : filters.Selects S tickets chunkId)
    (hsub : tickets ⊆ tickets') :
  filters.Selects S tickets' chunkId
  := by
  obtain ⟨t, ht, hchunk⟩ := h
  use t, hsub ht

section Candidates

variable {S : Services} {tickets : List Ticket} {s : Stores}

/-- A row comes from the ticket that names its document. -/
theorem Stores.Derived.ticket_of_searchable (hdistinct : Distinct tickets)
    (hfollows : s.Follows tickets) (h : s.Derived S tickets) {row : SearchableChunk}
    (hrow : row ∈ s.db.searchable) :
  ∃ t ∈ tickets, t.Names row.document ∧ S.Derives t row.chunk
  := by
  obtain ⟨hchunk, hdocument, hid, -⟩ := Database.mem_searchable.mp hrow
  obtain ⟨t, ht, hderives, -⟩ := h.chunks row.chunk hchunk
  obtain ⟨t', ht', hnames⟩ := hfollows.documents row.document hdocument
  have heq : t = t' := by
    apply hdistinct.documents t ht t' ht'
    rw [← hderives.documentId_eq, ← hid, hnames.id_eq]
  subst heq
  exact ⟨t, ht, hnames, hderives⟩

/-- The candidates of the full-text search pass the filters. -/
theorem SearchServices.selects_keyword (hdistinct : Distinct tickets) (hfollows : s.Follows tickets)
    (h : s.Derived S tickets) (C : SearchServices) {q : SearchQuery}
    {candidate : RetrievalCandidate} (hcandidate : candidate ∈ C.keyword s.db q) :
  q.filters.Selects S tickets candidate.chunkId
  := by
  rw [SearchServices.keyword] at hcandidate
  split at hcandidate
  · obtain ⟨entry, hentry, hid⟩ := exists_of_mem_rankedFrom hcandidate
    have hsorted := (List.mem_insertionSort _).mp (List.mem_of_mem_take hentry)
    obtain ⟨row, hmem, rfl⟩ := List.mem_map.mp hsorted
    obtain ⟨hrow, hmatches⟩ := List.mem_filter.mp hmem
    obtain ⟨t, ht, hnames, hderives⟩ := h.ticket_of_searchable hdistinct hfollows hrow
    use t, ht, row.chunk, hderives, hid
    rw [← hnames.id_eq, ← hnames.mediaType_eq]
    apply (Bool.and_eq_true_iff.mp hmatches).2
  · cases hcandidate

/-- The candidates of the vector index pass the filters. -/
theorem SearchServices.selects_vector (h : s.Derived S tickets) (C : SearchServices)
    {q : SearchQuery} {candidate : RetrievalCandidate} (hcandidate : candidate ∈ C.vector S s.index q) :
  q.filters.Selects S tickets candidate.chunkId
  := by
  rw [SearchServices.vector] at hcandidate
  split at hcandidate
  · obtain ⟨entry, hentry, hid⟩ := exists_of_mem_rankedFrom hcandidate
    obtain ⟨point, hmem, rfl⟩ := List.mem_map.mp hentry
    have hsorted := (List.mem_insertionSort _).mp (List.mem_of_mem_take hmem)
    obtain ⟨hpoint, hadmits⟩ := List.mem_filter.mp hsorted
    obtain ⟨t, ht, hindexes⟩ := h.points point hpoint
    obtain ⟨chunk, hderives, hchunk, hdocument⟩ := hindexes.chunk
    use t, ht, chunk, hderives, hchunk.symm.trans hid
    rw [← hdocument, ← hindexes.mediaType_eq]
    apply hadmits
  · cases hcandidate

/-- The candidates of a ranking pass the filters when those of both lists do. -/
theorem SearchServices.selects_rank {C : SearchServices} {filters : SearchFilters} {mode : SearchMode}
    {keyword vector : List RetrievalCandidate}
    (hkeyword : ∀ candidate ∈ keyword, filters.Selects S tickets candidate.chunkId)
    (hvector : ∀ candidate ∈ vector, filters.Selects S tickets candidate.chunkId)
    {fused : FusedCandidate} (h : fused ∈ C.rank mode keyword vector) :
  filters.Selects S tickets fused.chunkId
  := by
  rcases SearchServices.exists_of_mem_rank h with ⟨candidate, hcandidate, hid⟩
    | ⟨candidate, hcandidate, hid⟩
  · rw [← hid]
    apply hkeyword candidate hcandidate
  · rw [← hid]
    apply hvector candidate hcandidate

/-! ### Results -/

/-- Every result is one of a document that is ready and passes the filters. -/
def SearchExecution.Filtered (execution : SearchExecution) (filters : SearchFilters)
    (db : Database) : Prop :=
  ∀ result ∈ execution.results,
    (filters.documentIds ≠ [] → result.citation.documentId ∈ filters.documentIds)
      ∧ (filters.mediaTypes ≠ [] → result.mediaType ∈ filters.mediaTypes)
      ∧ ∃ document ∈ db.documents, document.id = result.citation.documentId
        ∧ document.mediaType = result.mediaType ∧ document.status = .ready

theorem SearchFilters.admits_iff {filters : SearchFilters} {documentId : Uuid}
    {mediaType : DocumentMediaType} :
  filters.admits documentId mediaType = true
    ↔ (filters.documentIds ≠ [] → documentId ∈ filters.documentIds)
      ∧ (filters.mediaTypes ≠ [] → mediaType ∈ filters.mediaTypes)
  := by
  rw [admits, Bool.and_eq_true, Bool.or_eq_true, Bool.or_eq_true, List.isEmpty_iff,
    List.isEmpty_iff, List.contains_iff_mem, List.contains_iff_mem, ← or_iff_not_imp_left,
    ← or_iff_not_imp_left]

/-- Hydrating candidates that pass the filters gives results that do, whenever it is done. -/
theorem Stores.Derived.filtered_hydrate (hdistinct : Distinct tickets)
    (hinj : Set.InjOn (S.uuid5 chunkNamespace) (S.chunkKeys tickets))
    (hfollows : s.Follows tickets) (h : s.Derived S tickets) {q : SearchQuery}
    (hvalid : ∃ normalized, checkQuery q = .ok normalized) {candidates : List FusedCandidate}
    (hselects : ∀ candidate ∈ candidates, q.filters.Selects S tickets candidate.chunkId) :
  (SearchServices.hydrate s.db q candidates).Filtered q.filters s.db
  := by
  intro result hresult
  obtain ⟨candidate, hcandidate, row, hrow, hid, rfl⟩ :=
    exists_of_mem_collectResults_nil (checkQuery_limit hvalid) hresult
  have hsearchable := (List.mem_filter.mp hrow).1
  obtain ⟨-, hdocument, hcite, hready⟩ := Database.mem_searchable.mp hsearchable
  obtain ⟨t, ht, hnames, hderives⟩ := h.ticket_of_searchable hdistinct hfollows hsearchable
  obtain ⟨t', ht', chunk, hderives', hchunk, hadmits⟩ := hselects candidate hcandidate
  have heq : t = t' := by
    apply hderives.ticket_eq hdistinct hinj hderives' ht ht'
    rw [hchunk, ← hid]
    rfl
  subst heq
  rw [← hnames.id_eq, ← hnames.mediaType_eq] at hadmits
  obtain ⟨hdocumentIds, hmediaTypes⟩ := SearchFilters.admits_iff.mp hadmits
  refine ⟨?_, hmediaTypes, row.document, hdocument, hcite, rfl, hready⟩
  rw [hcite] at hdocumentIds
  apply hdocumentIds

end Candidates

/-! ### Calls of search among the others -/

/-- The candidates a call has found pass the filters. -/
def Request.Selects (S : Services) (tickets : List Ticket) : Request → Prop
  | matched q _ keyword =>
      (∃ normalized, checkQuery q = .ok normalized)
        ∧ ∀ candidate ∈ keyword, q.filters.Selects S tickets candidate.chunkId
  | ranked q _ candidates =>
      (∃ normalized, checkQuery q = .ok normalized)
        ∧ ∀ candidate ∈ candidates, q.filters.Selects S tickets candidate.chunkId
  | _ => True

theorem Request.Selects.mono {S : Services} {tickets tickets' : List Ticket} {request : Request}
    (h : request.Selects S tickets) (hsub : tickets ⊆ tickets') :
  request.Selects S tickets'
  := by
  cases request with
  | matched | ranked =>
      obtain ⟨hvalid, hselects⟩ := h
      use hvalid
      intro candidate hcandidate
      apply (hselects candidate hcandidate).mono hsub
  | _ => trivial

theorem Request.Steps.selects {κ : Type} [DecidableEq κ] {C : SearchServices} {S : Services}
    {digest : Text → κ} {s : Stores} {cache cache' : SearchCache κ} {request request' : Request}
    {event : RequestEvent} {tickets : List Ticket}
    (hstep : Request.Steps C S digest s cache request event cache' request')
    (hdistinct : Distinct tickets) (hfollows : s.Follows tickets) (hderived : s.Derived S tickets)
    (h : request.Selects S tickets) :
  request'.Selects S tickets
  := by
  cases hstep with
  | keyword hvalid =>
      use hvalid
      intro candidate hcandidate
      apply SearchServices.selects_keyword hdistinct hfollows hderived C hcandidate
  | vector =>
      obtain ⟨hvalid, hkeyword⟩ := h
      use hvalid
      intro candidate hcandidate
      apply SearchServices.selects_rank hkeyword _ hcandidate
      intro candidate hcandidate
      apply SearchServices.selects_vector hderived C hcandidate
  | _ => trivial

namespace SearchSystem

variable {κ : Type} [DecidableEq κ] {C : SearchServices} {S : Services} {digest : Text → κ}
  {s s' : SearchSystem κ}

/-- The stores are as the tickets say, and the candidates of the calls pass their filters. -/
structure Selecting (S : Services) (s : SearchSystem κ) : Prop where
  sound : s.system.Sound S
  derived : s.system.stores.Derived S s.system.issued
  requests : ∀ i, (s.requests i).Selects S s.system.issued

theorem Selecting.step {event : SearchEvent} (h : s.Selecting S)
    (hstep : SearchSystem.step C S digest s event = some s') :
  s'.Selecting S
  := by
  rcases step_eq_some hstep with ⟨e, system, -, hsystem, rfl⟩ | ⟨i, e, cache, request, -, hrequest, rfl⟩
  · constructor
    · apply h.sound.step hsystem
    · apply System.derived_step h.sound h.derived hsystem
    · intro i
      apply (h.requests i).mono (System.issued_subset_of_step hsystem)
  · use h.sound, h.derived
    intro j
    by_cases hj : j = i
    · subst hj
      simp only [Function.update_self]
      apply (Request.steps hrequest).selects h.sound.distinct h.sound.stores h.derived (h.requests j)
    · simp only [Function.update_of_ne hj]
      apply h.requests j

theorem Selecting.of_reachable (h : (machine C S digest).Reachable s) :
  s.Selecting S
  := by
  apply h.induction
  · rintro s rfl
    constructor
    · apply System.Sound.initial
    · apply System.derived_of_reachable ⟨System.initial, [], rfl, rfl⟩
    · intro i
      trivial
  · intro s event s' hs hstep
    apply hs.step hstep

/-- The results of a search belong to documents that are ready when the chunks are loaded and that
pass the filters: of a search all of whose reads see one state, and of a call whose candidates were
found in earlier states. -/
theorem search_filtered (hreachable : (machine C S digest).Reachable s)
    (hinj : Set.InjOn (S.uuid5 chunkNamespace) (S.chunkKeys s.system.issued)) :
  (∀ q execution, C.search S s.system.stores q = .ok execution →
      execution.Filtered q.filters s.system.stores.db)
    ∧ ∀ i q revision candidates, s.requests i = .ranked q revision candidates →
      (SearchServices.hydrate s.system.stores.db q candidates).Filtered q.filters
        s.system.stores.db
  := by
  have h := Selecting.of_reachable hreachable
  constructor
  · intro q execution hsearch
    obtain ⟨normalized, hcheck, hexecution⟩ : ∃ normalized, checkQuery q = .ok normalized
        ∧ SearchServices.hydrate s.system.stores.db q (C.rank q.mode (C.keyword s.system.stores.db q)
          (C.vector S s.system.stores.index q)) = execution := by
      obtain ⟨normalized, hcheck, hok⟩ := bind_eq_ok_iff.mp hsearch
      use normalized, hcheck, Except.ok.inj hok
    rw [← hexecution]
    apply h.derived.filtered_hydrate h.sound.distinct hinj h.sound.stores ⟨normalized, hcheck⟩
    intro candidate hcandidate
    apply SearchServices.selects_rank _ _ hcandidate
    · intro candidate hkeyword
      apply SearchServices.selects_keyword h.sound.distinct h.sound.stores h.derived C hkeyword
    · intro candidate hvector
      apply SearchServices.selects_vector h.derived C hvector
  · intro i q revision candidates hranked
    have hrequest := h.requests i
    rw [hranked] at hrequest
    apply h.derived.filtered_hydrate h.sound.distinct hinj h.sound.stores hrequest.1 hrequest.2

/-! ### The sample document -/

/-- A hybrid search for the text of the sample document among the texts. -/
def sampleFilteredQuery : SearchQuery :=
  ⟨"alpha".toList, .hybrid, 5, ⟨[Services.sampleDocumentId], [.text]⟩⟩

/-- The sample document is found, and passes the filters. -/
theorem search_filtered_sample :
  ∃ execution, execution.results ≠ []
    ∧ SearchServices.sample.search .sample (sampleSearchAfter sampleFound).system.stores
        sampleFilteredQuery = .ok execution
    ∧ execution.Filtered sampleFilteredQuery.filters
        (sampleSearchAfter sampleFound).system.stores.db
  := by
  have hreachable : (machine .sample .sample id).Reachable (sampleSearchAfter sampleFound) :=
    ⟨initial, sampleFound, rfl, run_sampleSearchAfter [] sampleFound (by decide +kernel)⟩
  have hkeys : (sampleSearchAfter sampleFound).system.issued.flatMap Services.sample.keysOf
      = [stableKey Services.sampleDocumentId 0 Services.sampleDigest] := by
    decide +kernel
  have hfiltered := (search_filtered hreachable (Services.injOn_chunkKeys hkeys)).1 sampleFilteredQuery
  have hfound : (match SearchServices.sample.search .sample
      (sampleSearchAfter sampleFound).system.stores sampleFilteredQuery with
      | .ok execution => !execution.results.isEmpty
      | .error _ => false) = true := by
    decide +kernel
  split at hfound
  · rename_i execution hsearch
    use execution
    refine ⟨?_, hsearch, hfiltered execution hsearch⟩
    intro hnil
    rw [hnil] at hfound
    cases hfound
  · cases hfound

end SearchSystem

end KnowledgeSearch

import KnowledgeSearch.Ingestion.Storage
import KnowledgeSearch.System.Filtering

/-!
# Where citations come from

A citation quotes an upload when its excerpt is a passage of the normalized text of the uploaded file,
with the section path and the page number of the section the passage starts in; when the chunks keep to
the sections, the passage does not leave it.
`SearchSystem.citations_quote` says that all citations of all calls of search do, whether they come
from the stores or from the cache.
-/

namespace KnowledgeSearch

open Database

/-- The citation quotes the file of the ticket, as the preparer reads it. -/
structure Citation.Quotes (P : DocumentContentPreparer) (S : Services) (t : Ticket)
    (citation : Citation) : Prop where
  documentId : citation.documentId = t.documentId
  chunkId : ∃ ordinal : ℕ, citation.chunkId = S.uuid5 chunkNamespace
    (stableKey t.documentId ordinal (S.sha256 (Services.encodeUtf8 citation.excerpt)))
  passage : ∃ (sections : List ExtractedSection) (normalized : List NormalizedSection)
      (segment : Segment), P.extract t.mediaType t.content = .ok sections
    ∧ normalizeSections P.unicode sections = .ok normalized ∧ segment.Located normalized
    ∧ (P.chunker.strategy = .sectionAware → segment.WithinSection normalized)
    ∧ citation.excerpt = segment.text ∧ citation.sectionPath = segment.locator.sectionPath
    ∧ citation.pageNumber = segment.locator.pageNumber

/-- Every result quotes the file of a ticket, and has its media type. -/
def SearchExecution.Quotes (P : DocumentContentPreparer) (S : Services) (tickets : List Ticket)
    (execution : SearchExecution) : Prop :=
  ∀ result ∈ execution.results, ∃ t ∈ tickets, result.citation.Quotes P S t
    ∧ result.mediaType = t.mediaType

theorem SearchExecution.Quotes.mono {P : DocumentContentPreparer} {S : Services}
    {tickets tickets' : List Ticket} {execution : SearchExecution}
    (h : execution.Quotes P S tickets) (hsub : tickets ⊆ tickets') :
  execution.Quotes P S tickets'
  := by
  intro result hresult
  obtain ⟨t, ht, hquotes⟩ := h result hresult
  use t, hsub ht

/-! ### Chunks -/

/-- A chunk of the document of a ticket is a passage of its file. -/
theorem Services.Derives.located {P : DocumentContentPreparer} {S : Services} {t : Ticket}
    {chunk : Chunk} (h : (P.services S).Derives t chunk) :
  (∃ ordinal : ℕ, chunk.id = S.uuid5 chunkNamespace
      (stableKey t.documentId ordinal (S.sha256 (encodeUtf8 chunk.text))))
    ∧ ∃ sections normalized, P.extract t.mediaType t.content = .ok sections
      ∧ normalizeSections P.unicode sections = .ok normalized ∧ chunk.segment.Located normalized
      ∧ (P.chunker.strategy = .sectionAware → chunk.segment.WithinSection normalized)
  := by
  obtain ⟨chunks, hchunks, hmem⟩ := h
  obtain ⟨segments, hsegments, hprepare⟩ := bind_eq_ok_iff.mp hchunks
  obtain ⟨chunks', hcreated, hprepare⟩ := bind_eq_ok_iff.mp hprepare
  split at hprepare
  · cases hprepare
  obtain rfl := Except.ok.inj hprepare
  obtain ⟨sections, hsections, hsegments⟩ := bind_eq_ok_iff.mp hsegments
  obtain ⟨normalized, hnormalized, hsegments⟩ := bind_eq_ok_iff.mp hsegments
  rw [P.createChunks_services] at hcreated
  constructor
  · obtain ⟨ordinal, segment, hcreate⟩ := exists_createChunk_of_mem hcreated hmem
    rw [createChunk_eq_ok_iff] at hcreate
    use ordinal
    rw [hcreate]
  · have hsegment : chunk.segment ∈ segments := by
      rw [← map_segment_createChunks hcreated]
      apply List.mem_map_of_mem hmem
    have htiled := tiled_normalizeSectionsFrom (normalizeSections_eq_ok_iff.mp hnormalized).1
    obtain ⟨hlocated, -, hwithin⟩ := DocumentChunker.located_of_mem_segments htiled hsegments hsegment
    exact ⟨sections, normalized, hsections, hnormalized, hlocated, hwithin⟩

/-- The results of a search quote tickets when the rows come from tickets. -/
theorem Stores.Derived.quotes_hydrate {P : DocumentContentPreparer} {S : Services}
    {tickets : List Ticket} {s : Stores} (hderived : s.Derived (P.services S) tickets)
    (hdistinct : Distinct tickets) (hfollows : s.Follows tickets) (q : SearchQuery)
    (candidates : List FusedCandidate) :
  (SearchServices.hydrate s.db q candidates).Quotes P S tickets
  := by
  intro result hresult
  rcases exists_of_mem_collectResults hresult with hnil | ⟨candidate, -, row, hrow, rfl⟩
  · cases hnil
  obtain ⟨hchunk, hdocument, hid, -⟩ := mem_searchable.mp (List.mem_filter.mp hrow).1
  obtain ⟨t, ht, hderives, -⟩ := hderived.chunks row.chunk hchunk
  obtain ⟨u, hu, hnames⟩ := hfollows.documents row.document hdocument
  obtain rfl : u = t := by
    apply hdistinct.documents u hu t ht
    rw [← hnames.id_eq, hid, hderives.documentId_eq]
  obtain ⟨hordinal, sections, normalized, hsections, hnormalized, hlocated, hwithin⟩ := hderives.located
  use u, ht
  constructor
  · constructor
    · apply hderives.documentId_eq
    · apply hordinal
    · exact ⟨sections, normalized, row.chunk.segment, hsections, hnormalized, hlocated, hwithin, rfl, rfl,
        rfl⟩
  · apply hnames.mediaType_eq

/-! ### Calls of search -/

/-- What a call is about to cache or has returned quotes tickets. -/
def Request.Quotes (P : DocumentContentPreparer) (S : Services) (tickets : List Ticket) :
    Request → Prop
  | executed _ _ execution | returned execution => execution.Quotes P S tickets
  | _ => True

theorem Request.Quotes.mono {P : DocumentContentPreparer} {S : Services}
    {tickets tickets' : List Ticket} {request : Request} (h : request.Quotes P S tickets)
    (hsub : tickets ⊆ tickets') :
  request.Quotes P S tickets'
  := by
  cases request with
  | executed | returned =>
      have hexecution : SearchExecution.Quotes P S tickets _ := h
      apply hexecution.mono hsub
  | _ => trivial

/-- A step of a call that hydrates results which quote tickets, or takes such results from the cache. -/
theorem Request.Steps.quotes {κ : Type} [DecidableEq κ] {P : DocumentContentPreparer}
    {C : SearchServices} {S : Services} {digest : Text → κ} {s : Stores}
    {cache cache' : SearchCache κ} {request request' : Request} {event : RequestEvent}
    {tickets : List Ticket}
    (hstep : Request.Steps C (P.services S) digest s cache request event cache' request')
    (hhydrate : ∀ q candidates, (SearchServices.hydrate s.db q candidates).Quotes P S tickets)
    (hcache : ∀ key execution, cache key = some execution → execution.Quotes P S tickets)
    (h : request.Quotes P S tickets) :
  request'.Quotes P S tickets
    ∧ ∀ key execution, cache' key = some execution → execution.Quotes P S tickets
  := by
  cases hstep with
  | hit hentry => exact ⟨hcache _ _ hentry, hcache⟩
  | loadUncached | load => exact ⟨hhydrate _ _, hcache⟩
  | set =>
      use h
      intro key execution hkey
      rw [Function.update_apply] at hkey
      split at hkey
      · obtain rfl := Option.some.inj hkey
        apply h
      · apply hcache key execution hkey
  | lose => exact ⟨h, hcache⟩
  | _ => exact ⟨trivial, hcache⟩

namespace SearchSystem

variable {κ : Type} [DecidableEq κ] {P : DocumentContentPreparer} {C : SearchServices}
  {S : Services} {digest : Text → κ} {s s' : SearchSystem κ}

/-- The stores are as the tickets say, and what the cache holds and what calls return quotes them. -/
structure Quoting (P : DocumentContentPreparer) (S : Services) (s : SearchSystem κ) : Prop where
  sound : s.system.Sound (P.services S)
  derived : s.system.stores.Derived (P.services S) s.system.issued
  cache : ∀ key execution, s.cache key = some execution → execution.Quotes P S s.system.issued
  requests : ∀ i, (s.requests i).Quotes P S s.system.issued

theorem Quoting.step {event : SearchEvent} (h : s.Quoting P S)
    (hstep : SearchSystem.step C (P.services S) digest s event = some s') :
  s'.Quoting P S
  := by
  rcases step_eq_some hstep with ⟨e, system, -, hsystem, rfl⟩ | ⟨i, e, cache, request, -, hrequest, rfl⟩
  · have hsub := System.issued_subset_of_step hsystem
    constructor
    · apply h.sound.step hsystem
    · apply System.derived_step h.sound h.derived hsystem
    · intro key execution hkey
      apply (h.cache key execution hkey).mono hsub
    · intro i
      apply (h.requests i).mono hsub
  · obtain ⟨hquotes, hcache⟩ := (Request.steps hrequest).quotes
      (h.derived.quotes_hydrate h.sound.distinct h.sound.stores) h.cache (h.requests i)
    use h.sound, h.derived, hcache
    intro j
    by_cases hj : j = i
    · subst hj
      simp only [Function.update_self]
      apply hquotes
    · simp only [Function.update_of_ne hj]
      apply h.requests j

theorem Quoting.of_reachable (h : (machine C (P.services S) digest).Reachable s) :
  s.Quoting P S
  := by
  apply h.induction
  · rintro s rfl
    constructor
    · apply System.Sound.initial
    · apply System.derived_of_reachable ⟨System.initial, [], rfl, rfl⟩
    · intro key execution hkey
      cases hkey
    · intro i
      trivial
  · intro s event s' hs hstep
    apply hs.step hstep

/-- All results of all calls of search quote uploads. -/
theorem citations_quote (hreachable : (machine C (P.services S) digest).Reachable s) {i : ℕ}
    {execution : SearchExecution} (hreturned : s.requests i = .returned execution) :
  execution.Quotes P S s.system.issued
  := by
  have hrequest := (Quoting.of_reachable hreachable).requests i
  rw [hreturned] at hrequest
  apply hrequest

/-- The sample document is cited with a passage of its file. -/
theorem citations_quote_sample :
  ∃ s execution, s.requests 0 = .returned execution ∧ execution.results ≠ []
    ∧ (machine .sample (DocumentContentPreparer.sample.services .sample) (id : Text → Text)).run initial
        sampleFound = some s
    ∧ execution.Quotes .sample .sample s.system.issued
  := by
  have hcheck : ((machine .sample (DocumentContentPreparer.sample.services .sample)
      (id : Text → Text)).run initial sampleFound).any fun s =>
        match s.requests 0 with
        | .returned execution => !execution.results.isEmpty
        | _ => false := by
    decide +kernel
  obtain ⟨s, hrun, hreturned⟩ := (Option.any_eq_true _ _).mp hcheck
  split at hreturned
  · rename_i execution hrequest
    refine ⟨s, execution, hrequest, ?_, hrun, citations_quote ⟨initial, sampleFound, rfl, hrun⟩ hrequest⟩
    rintro hnil
    rw [hnil] at hreturned
    cases hreturned
  · cases hreturned

end SearchSystem

end KnowledgeSearch

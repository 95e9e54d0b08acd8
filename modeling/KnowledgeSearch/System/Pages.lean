import KnowledgeSearch.Ingestion.Pages
import KnowledgeSearch.System.Provenance

/-!
# Citations of pages

A search result of a portable document cites a page of the uploaded file, and its excerpt begins on it:
`SearchSystem.pages_cited`.
-/

namespace KnowledgeSearch

/-- The citation names a page of the file and quotes its text. -/
def Citation.QuotesPage (P : DocumentContentPreparer) (source : Bytes) (citation : Citation) : Prop :=
  ∃ (pageNumber : ℕ) (text : Text), P.Page source pageNumber text
    ∧ citation.pageNumber = some (pageNumber + 1 : ℕ) ∧ citation.sectionPath = []
    ∧ BeginsIn citation.excerpt (normalizeDocumentText P.unicode text)
    ∧ (P.chunker.strategy = .sectionAware → citation.excerpt <:+: normalizeDocumentText P.unicode text)

theorem Citation.Quotes.quotesPage {P : DocumentContentPreparer} {S : Services} {t : Ticket}
    {citation : Citation} (h : citation.Quotes P S t) (hpdf : t.mediaType = .pdf) :
  citation.QuotesPage P t.content
  := by
  obtain ⟨sections, normalized, segment, hsections, hnormalized, hlocated, hwithin, hexcerpt, hpath,
    hnumber⟩ := h.passage
  rw [hpdf] at hsections
  obtain ⟨pageNumber, text, hpage, hnumber', hpath', hbegins, hinfix⟩ :=
    hlocated.exists_page hsections hnormalized
  refine ⟨pageNumber, text, hpage, hnumber.trans hnumber', hpath.trans hpath', ?_, ?_⟩
  · rw [hexcerpt]
    apply hbegins
  · intro hstrategy
    rw [hexcerpt]
    apply hinfix (hwithin hstrategy)

namespace SearchSystem

variable {κ : Type} [DecidableEq κ] {P : DocumentContentPreparer} {C : SearchServices}
  {S : Services} {digest : Text → κ} {s : SearchSystem κ}

/-- A result of a portable document, whichever call of search returns it, cites a page the reader finds in
the uploaded file. The excerpt begins in the normalized text of that page, and is part of it when the
chunks keep to the sections. -/
theorem pages_cited (hreachable : (machine C (P.services S) digest).Reachable s) {i : ℕ}
    {execution : SearchExecution} (hreturned : s.requests i = .returned execution) :
  ∀ result ∈ execution.results, result.mediaType = .pdf →
    ∃ t ∈ s.system.issued, t.documentId = result.citation.documentId
      ∧ result.citation.QuotesPage P t.content
  := by
  intro result hresult hpdf
  have hrequest := (Quoting.of_reachable hreachable).requests i
  rw [hreturned] at hrequest
  obtain ⟨t, ht, hquotes, hmedia⟩ := hrequest result hresult
  refine ⟨t, ht, hquotes.documentId.symm, ?_⟩
  apply hquotes.quotesPage
  rw [← hmedia, hpdf]

/-- A preparer whose reader finds two pages in every file, the first of them without text. -/
def samplePaged : DocumentContentPreparer :=
  { DocumentContentPreparer.sample with readPdf := fun _ => some ⟨false, [some [], some "alpha".toList]⟩ }

/-- A portable document is uploaded, processed and found. -/
def samplePagedFound : List SearchEvent :=
  [.submission 0 (.begin "alpha.pdf".toList (some "application/pdf".toList) [Services.sampleContent]
      Services.sampleDocumentId System.sampleJobId),
    .submission 0 (.save none), .submission 0 (.build (System.clockFrom 0)), .submission 0 (.insert none),
    .submission 0 (.enqueue .accepted)].map .service
    ++ (System.sampleIndexing 0 10).map .service
    ++ [.service (.delivery 0 (.finalise (System.clockFrom 20) none))]
    ++ [.begin sampleQuery, .readRevision none, .get true, .keyword none, .vector none, .load none,
      .set true].map (.request 0)

/-- The document is cited with its second page. -/
theorem pages_cited_sample :
  ∃ s execution result, s.requests 0 = .returned execution ∧ result ∈ execution.results
    ∧ (machine .sample (samplePaged.services .sample) (id : Text → Text)).run initial samplePagedFound
        = some s
    ∧ result.citation.pageNumber = some 2
    ∧ ∃ t ∈ s.system.issued, result.citation.QuotesPage samplePaged t.content
  := by
  have hcheck : ((machine .sample (samplePaged.services .sample) (id : Text → Text)).run initial
      samplePagedFound).any fun s =>
        match s.requests 0 with
        | .returned execution => execution.results.any fun result =>
            result.mediaType = .pdf && result.citation.pageNumber = some 2
        | _ => false := by
    decide +kernel
  obtain ⟨s, hrun, hreturned⟩ := (Option.any_eq_true _ _).mp hcheck
  split at hreturned
  · rename_i execution hrequest
    obtain ⟨result, hresult, hpage⟩ := List.any_eq_true.mp hreturned
    simp only [Bool.and_eq_true, decide_eq_true_eq] at hpage
    obtain ⟨t, ht, -, hquotes⟩ :=
      pages_cited ⟨initial, samplePagedFound, rfl, hrun⟩ hrequest result hresult hpage.1
    exact ⟨s, execution, result, hrequest, hresult, hrun, hpage.2, t, ht, hquotes⟩
  · cases hreturned

end SearchSystem

end KnowledgeSearch

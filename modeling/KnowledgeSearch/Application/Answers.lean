import KnowledgeSearch.Application.Search
import KnowledgeSearch.Generation.Chat

/-!
# Answers

`AnswerService.answer`, once its search has ended. An answer is generated from the citations of the
results, all of them and in their order; without results the provider is not asked.
-/

namespace KnowledgeSearch

inductive AnswerStatus where
  | disabled
  | generated
  | insufficientEvidence
  deriving DecidableEq

def AnswerStatus.value : AnswerStatus → String
  | disabled => "disabled"
  | generated => "generated"
  | insufficientEvidence => "insufficient_evidence"

structure AnswerExecution where
  question : Text
  answer : Option Text
  status : AnswerStatus
  search : SearchExecution
  deriving DecidableEq

/-- `[result.citation for result in search.results]`. -/
def SearchExecution.citations (search : SearchExecution) : List Citation :=
  search.results.map fun result => result.citation

/-- The rest of `AnswerService.answer` once its search has returned: the exchanges with the provider,
and what the call returns or raises. -/
def AnswerService.answer (generator : AnswerGenerator) (reply : ProviderReply)
    (search : SearchExecution) :
    List (ChatRequest × ProviderReply) × Except GenerationError AnswerExecution :=
  if !generator.enabled then ([], .ok ⟨search.query, none, .disabled, search⟩)
  else if search.citations.isEmpty then ([], .ok ⟨search.query, none, .insufficientEvidence, search⟩)
  else
    let generated := generator.generate reply search.query search.citations
    (generated.1, generated.2.map fun answer => ⟨search.query, answer, .generated, search⟩)

/-- What a call returns for what its search has found: the status says whether there is an answer, and
if not, why; an answer is what the provider has replied to the question with all the citations. -/
inductive AnswerExecution.Fits (generator : AnswerGenerator)
    (exchanges : List (ChatRequest × ProviderReply)) : AnswerExecution → Prop
  | disabled {search : SearchExecution} (h : generator = .disabled) :
      Fits generator exchanges ⟨search.query, none, .disabled, search⟩
  | insufficientEvidence {search : SearchExecution} {chat : ChatCompletionsAnswerGenerator}
      (h : generator = .chat chat) (hempty : search.results = []) :
      Fits generator exchanges ⟨search.query, none, .insufficientEvidence, search⟩
  | generated {search : SearchExecution} {chat : ChatCompletionsAnswerGenerator} {answer content : Text}
      {contents : List Text} (h : generator = .chat chat) (hresults : search.results ≠ [])
      (hexchange : (chat.request search.query search.citations, .completion (content :: contents))
        ∈ exchanges)
      (hanswer : answer = strip content) (hblank : blank answer = false) :
      Fits generator exchanges ⟨search.query, some answer, .generated, search⟩

theorem AnswerExecution.Fits.mono {generator : AnswerGenerator}
    {exchanges exchanges' : List (ChatRequest × ProviderReply)} {execution : AnswerExecution}
    (h : execution.Fits generator exchanges) (hsub : exchanges ⊆ exchanges') :
  execution.Fits generator exchanges'
  := by
  cases h with
  | disabled h => apply Fits.disabled h
  | insufficientEvidence h hempty => apply Fits.insufficientEvidence h hempty
  | generated h hresults hexchange hanswer hblank =>
      apply Fits.generated h hresults (hsub hexchange) hanswer hblank

/-- A call asks the provider once at most, with all the citations, of which there are some. -/
theorem AnswerService.answer_spec {generator : AnswerGenerator} {reply : ProviderReply}
    {search : SearchExecution} {exchanges : List (ChatRequest × ProviderReply)}
    {result : Except GenerationError AnswerExecution}
    (h : answer generator reply search = (exchanges, result)) :
  (∀ exchange ∈ exchanges, ∃ chat, generator = .chat chat ∧ search.results ≠ []
      ∧ exchange.1 = chat.request search.query search.citations)
    ∧ ∀ execution, result = .ok execution → execution.search = search
      ∧ execution.Fits generator exchanges
  := by
  unfold answer at h
  split at h
  · rename_i hdisabled
    obtain ⟨rfl, rfl⟩ := Prod.mk.inj h
    use by simp
    rintro _ ⟨⟩
    use rfl
    apply AnswerExecution.Fits.disabled
    cases generator with
    | disabled => rfl
    | chat => cases hdisabled
  rename_i henabled
  obtain ⟨chat, rfl⟩ : ∃ chat, generator = .chat chat := by
    cases generator with
    | disabled => exact absurd rfl henabled
    | chat chat => use chat
  split at h
  · rename_i hempty
    obtain ⟨rfl, rfl⟩ := Prod.mk.inj h
    use by simp
    rintro _ ⟨⟩
    use rfl
    apply AnswerExecution.Fits.insufficientEvidence rfl
    simpa [SearchExecution.citations] using hempty
  · rename_i hcitations
    have hresults : search.results ≠ [] := by
      simpa [SearchExecution.citations] using hcitations
    simp only [AnswerGenerator.generate, ChatCompletionsAnswerGenerator.generate, hcitations] at h
    obtain ⟨rfl, rfl⟩ := Prod.mk.inj h
    constructor
    · intro exchange hexchange
      obtain rfl := List.mem_singleton.mp hexchange
      exact ⟨chat, rfl, hresults, rfl⟩
    · intro execution hexecution
      cases hread : ChatCompletionsAnswerGenerator.read reply with
      | error error =>
          simp only [Bool.false_eq_true, if_false, hread] at hexecution
          cases hexecution
      | ok text =>
          obtain ⟨hblank, content, contents, rfl, htext⟩ :=
            ChatCompletionsAnswerGenerator.read_eq_ok hread
          simp only [Bool.false_eq_true, if_false, hread] at hexecution
          obtain rfl := Except.ok.inj hexecution
          use rfl
          apply AnswerExecution.Fits.generated rfl hresults List.mem_cons_self htext hblank

end KnowledgeSearch

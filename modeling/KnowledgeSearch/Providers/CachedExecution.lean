import KnowledgeSearch.Application.Cache
import Mathlib.Data.Set.List

/-!
# Cached executions

The payloads of the search cache, `_serialize` and `_deserialize`, and the texts of payloads. The
texts are made and read by pydantic, an `ExecutionCodec`; `jsonCodec` is one with JSON texts.

A payload is read from a text in two stages: pydantic finds the fields, and the constructors of the
domain check them. `deserialize_eq_ok_iff` says what the second stage reads.
-/

namespace KnowledgeSearch

/-- `_CachedResult`. Its citation has the fields of `_CachedCitation`. -/
structure CachedResult where
  score : Score
  keywordRank : Option ℤ
  vectorRank : Option ℤ
  mediaType : DocumentMediaType
  citation : CitationFields
  deriving DecidableEq

/-- `_CachedExecution`. -/
structure CachedExecution where
  query : Text
  mode : SearchMode
  results : List CachedResult
  deriving DecidableEq

/-- The texts pydantic makes of cached executions, and the executions it finds in texts. There is
none where it raises a `ValidationError`. -/
structure ExecutionCodec where
  modelDumpJson : CachedExecution → Text
  modelValidateJson : Text → Option CachedExecution

/-- A result as it is cached. -/
def serializeResult (result : SearchResult) : CachedResult where
  score := result.score
  keywordRank := result.keywordRank
  vectorRank := result.vectorRank
  mediaType := result.mediaType
  citation := result.citation.toCitationFields

/-- `_serialize`. -/
def serialize (execution : SearchExecution) : CachedExecution where
  query := execution.query
  mode := execution.mode
  results := execution.results.map serializeResult

/-- The result of a cached one. -/
def deserializeResult (item : CachedResult) : Except DomainError SearchResult := do
  let citation ← Citation.construct item.citation
  .ok ⟨item.score, item.keywordRank, item.vectorRank, item.mediaType, citation⟩

/-- The results of cached ones. -/
def deserializeResults : List CachedResult → Except DomainError (List SearchResult)
  | [] => .ok []
  | item :: items => do
      let result ← deserializeResult item
      let results ← deserializeResults items
      .ok (result :: results)

/-- `_deserialize`. -/
def deserialize (payload : CachedExecution) : Except AppError SearchExecution := do
  let results ← liftDomain (deserializeResults payload.results)
  .ok ⟨payload.query, payload.mode, results⟩

/-! ### Round trip -/

theorem deserializeResult_serializeResult (result : SearchResult) :
  deserializeResult (serializeResult result) = .ok result
  := bind_of_eq_ok (Citation.construct_eq_ok_iff.mpr rfl)

theorem deserializeResult_eq_ok_iff {item : CachedResult} {result : SearchResult} :
  deserializeResult item = .ok result ↔ item = serializeResult result
  := by
  constructor
  · intro h
    obtain ⟨citation, hcitation, hresult⟩ := bind_eq_ok_iff.mp h
    cases hresult
    rw [serializeResult, Citation.construct_eq_ok_iff.mp hcitation]
  · rintro rfl
    apply deserializeResult_serializeResult

theorem deserializeResults_eq_ok_iff {items : List CachedResult} {results : List SearchResult} :
  deserializeResults items = .ok results ↔ items = results.map serializeResult
  := by
  induction items generalizing results with
  | nil =>
      rw [deserializeResults]
      cases results with
      | nil => simp
      | cons result results => simp
  | cons item items ih =>
      rw [deserializeResults, bind_cons_eq_ok_iff]
      simp only [deserializeResult_eq_ok_iff, ih]
      constructor
      · rintro ⟨result, rest, rfl, rfl, rfl⟩
        rfl
      · intro h
        obtain ⟨result, rest, rfl, hresult, hrest⟩ := List.map_eq_cons_iff.mp h.symm
        exact ⟨result, rest, hresult.symm, hrest.symm, rfl⟩

/-- What a payload is read as is what it would be written for. -/
theorem deserialize_eq_ok_iff {payload : CachedExecution} {execution : SearchExecution} :
  deserialize payload = .ok execution ↔ payload = serialize execution
  := by
  rw [deserialize, bind_eq_ok_iff]
  simp only [liftDomain_eq_ok_iff, deserializeResults_eq_ok_iff]
  constructor
  · rintro ⟨results, hresults, h⟩
    cases h
    rw [serialize, ← hresults]
  · rintro rfl
    exact ⟨execution.results, rfl, rfl⟩

/-- `_deserialize` undoes `_serialize`. -/
theorem deserialize_serialize (execution : SearchExecution) :
  deserialize (serialize execution) = .ok execution
  := deserialize_eq_ok_iff.mpr rfl

/-! ### Payloads the domain rejects -/

theorem mem_range_serializeResult_iff {item : CachedResult} :
  item ∈ Set.range serializeResult ↔ item.citation.Proper
  := by
  constructor
  · rintro ⟨result, rfl⟩
    apply result.citation.proper
  · intro hproper
    use ⟨item.score, item.keywordRank, item.vectorRank, item.mediaType, item.citation,
      CitationFields.firstViolation_checks_iff.mpr hproper⟩
    rfl

/-- A payload is read exactly when the constructor accepts all its citations. -/
theorem exists_deserialize_eq_ok_iff {payload : CachedExecution} :
  (∃ execution, deserialize payload = .ok execution)
    ↔ ∀ item ∈ payload.results, item.citation.Proper
  := by
  have hrange : (∀ item ∈ payload.results, item.citation.Proper)
      ↔ payload.results ∈ Set.range (List.map serializeResult) := by
    simp only [Set.range_list_map, Set.mem_ofPred_eq, mem_range_serializeResult_iff]
  simp only [deserialize_eq_ok_iff]
  rw [hrange]
  constructor
  · rintro ⟨execution, rfl⟩
    use execution.results
    rfl
  · rintro ⟨results, hresults⟩
    use ⟨payload.query, payload.mode, results⟩
    rw [serialize, hresults]

/-! ### JSON texts -/

/-- The text of a score. For a whole number it is that of the floating point number, and for another
a text that stands for it. -/
def jsonScore (score : Score) : Text :=
  jsonNumber score.num ++ '.' :: decimalText (score.den - 1)

def CitationFields.json (self : CitationFields) : Text :=
  jsonObject
    [("document_id", jsonString self.documentId.text), ("chunk_id", jsonString self.chunkId.text),
      ("original_filename", jsonString self.originalFilename),
      ("excerpt", jsonString self.excerpt), ("section_path", jsonStrings self.sectionPath),
      ("page_number", jsonOptional self.pageNumber)]

def CachedResult.json (self : CachedResult) : Text :=
  jsonObject
    [("score", jsonScore self.score), ("keyword_rank", jsonOptional self.keywordRank),
      ("vector_rank", jsonOptional self.vectorRank),
      ("media_type", jsonString self.mediaType.value.toList), ("citation", self.citation.json)]

def CachedExecution.json (self : CachedExecution) : Text :=
  jsonObject
    [("query", jsonString self.query), ("mode", jsonString self.mode.value.toList),
      ("results", jsonArray (self.results.map CachedResult.json))]

theorem jsonScore_append {a b : Score} {s t : Text}
    (h : jsonScore a ++ ',' :: s = jsonScore b ++ ',' :: t) :
  a = b ∧ s = t
  := by
  have hnot : ∀ n, ',' ∉ decimalText n := by
    intro n hmem
    have hdigit := isDigit_of_mem_decimalText hmem
    revert hdigit
    decide
  simp only [jsonScore, List.append_assoc, List.cons_append] at h
  obtain ⟨hnum, h⟩ := List.eq_of_append_cons_eq (not_mem_jsonNumber rfl (by decide) _)
    (not_mem_jsonNumber rfl (by decide) _) h
  obtain ⟨hden, hst⟩ := List.eq_of_append_cons_eq (hnot _) (hnot _) h
  have hsub := decimalText_injective hden
  have ha := a.den_pos
  have hb := b.den_pos
  refine ⟨Rat.ext (jsonNumber_injective hnum) (by omega), hst⟩

theorem prefixCode_citation :
  PrefixCode CitationFields.json
  := by
  intro a b s t h
  simp only [CitationFields.json, jsonObject, List.map_cons, List.map_nil,
    List.intercalate_cons_cons, List.intercalate_singleton, List.append_assoc, List.cons.injEq,
    true_and, List.append_cancel_left_eq, List.cons_append, List.nil_append] at h
  obtain ⟨hdocumentId, h⟩ := prefixCode_jsonString h
  simp only [List.append_cancel_left_eq, List.cons.injEq, true_and] at h
  obtain ⟨hchunkId, h⟩ := prefixCode_jsonString h
  simp only [List.append_cancel_left_eq, List.cons.injEq, true_and] at h
  obtain ⟨hfilename, h⟩ := prefixCode_jsonString h
  simp only [List.append_cancel_left_eq, List.cons.injEq, true_and] at h
  obtain ⟨hexcerpt, h⟩ := prefixCode_jsonString h
  simp only [List.append_cancel_left_eq, List.cons.injEq, true_and] at h
  obtain ⟨hsectionPath, h⟩ := prefixCode_jsonStrings h
  simp only [List.append_cancel_left_eq, List.cons.injEq, true_and] at h
  obtain ⟨hpageNumber, hst⟩ := jsonOptional_append rfl (by decide) (by decide) h
  obtain ⟨documentId, chunkId, filename, excerpt, sectionPath, pageNumber⟩ := a
  cases Uuid.text_injective hdocumentId
  cases Uuid.text_injective hchunkId
  cases hfilename
  cases hexcerpt
  cases hsectionPath
  cases hpageNumber
  use rfl, hst

theorem prefixCode_result :
  PrefixCode CachedResult.json
  := by
  intro a b s t h
  simp only [CachedResult.json, jsonObject, List.map_cons, List.map_nil,
    List.intercalate_cons_cons, List.intercalate_singleton, List.append_assoc, List.cons.injEq,
    true_and, List.append_cancel_left_eq, List.cons_append, List.nil_append] at h
  obtain ⟨hscore, h⟩ := jsonScore_append h
  simp only [List.append_cancel_left_eq, List.cons.injEq, true_and] at h
  obtain ⟨hkeywordRank, h⟩ := jsonOptional_append rfl (by decide) (by decide) h
  simp only [List.append_cancel_left_eq, List.cons.injEq, true_and] at h
  obtain ⟨hvectorRank, h⟩ := jsonOptional_append rfl (by decide) (by decide) h
  simp only [List.append_cancel_left_eq, List.cons.injEq, true_and] at h
  obtain ⟨hmediaType, h⟩ := prefixCode_jsonString h
  simp only [List.append_cancel_left_eq, List.cons.injEq, true_and] at h
  obtain ⟨hcitation, hst⟩ := prefixCode_citation h
  obtain ⟨score, keywordRank, vectorRank, mediaType, citation⟩ := a
  cases hscore
  cases hkeywordRank
  cases hvectorRank
  cases mediaTypeText_injective hmediaType
  cases hcitation
  use rfl, (List.cons.inj hst).2

/-- A text is that of one payload. -/
theorem CachedExecution.json_injective :
  Function.Injective CachedExecution.json
  := by
  intro a b h
  simp only [json, jsonObject, List.map_cons, List.map_nil, List.intercalate_cons_cons,
    List.intercalate_singleton, List.append_assoc, List.cons.injEq, true_and,
    List.append_cancel_left_eq, List.cons_append] at h
  obtain ⟨hquery, h⟩ := prefixCode_jsonString h
  simp only [List.append_cancel_left_eq, List.cons.injEq, true_and] at h
  obtain ⟨hmode, h⟩ := prefixCode_jsonString h
  simp only [List.append_cancel_left_eq, List.cons.injEq, true_and] at h
  obtain ⟨hresults, -⟩ := prefixCode_jsonArray prefixCode_result
    (by simp [CachedResult.json, jsonObject]) (by simp [CachedResult.json, jsonObject]) h
  obtain ⟨query, mode, results⟩ := a
  cases hquery
  cases SearchMode.value_injective (String.toList_injective hmode)
  cases hresults
  rfl

/-- The codec of JSON texts. -/
noncomputable def jsonCodec : ExecutionCodec where
  modelDumpJson := CachedExecution.json
  modelValidateJson := Function.partialInv CachedExecution.json

theorem modelValidateJson_modelDumpJson (payload : CachedExecution) :
  jsonCodec.modelValidateJson (jsonCodec.modelDumpJson payload) = some payload
  := Function.partialInv_left CachedExecution.json_injective payload

end KnowledgeSearch

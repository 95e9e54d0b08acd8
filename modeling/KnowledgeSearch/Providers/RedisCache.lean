import KnowledgeSearch.Providers.CachedExecution

/-!
# The search cache in Redis

`RedisSearchResultCache`, which keeps search executions as texts. A call of `get` catches the errors
of Redis and of pydantic, not those of the domain, and `RedisSearchResultCache.get_answers_iff` says
for which texts it comes back.
-/

namespace KnowledgeSearch

/-- The values under the keys of Redis. -/
abbrev Redis := Text → Option Text

structure RedisSearchResultCache where
  codec : ExecutionCodec
  keyPrefix : Text

namespace RedisSearchResultCache

variable (self : RedisSearchResultCache)

/-- The key of Redis for a key of the cache. -/
def redisKey (key : Text) : Text :=
  self.keyPrefix ++ ':' :: key

/-- `RedisSearchResultCache.get`. Redis answers or raises a `RedisError`. -/
def get (redis : Redis) (answers : Bool) (key : Text) : Except AppError (Option SearchExecution) :=
  if !answers then .ok none
  else
    match redis (self.redisKey key) with
    | none => .ok none
    | some value =>
        match self.codec.modelValidateJson value with
        | none => .ok none
        | some payload => (deserialize payload).map some

/-- `RedisSearchResultCache.set`. Redis stores the value or raises a `RedisError`. -/
def set (redis : Redis) (stored : Bool) (key : Text) (execution : SearchExecution) : Redis :=
  if stored then
    Function.update redis (self.redisKey key)
      (some (self.codec.modelDumpJson (serialize execution)))
  else redis

/-- Redis answers with a text in which pydantic finds the payload. -/
def Finds (redis : Redis) (answers : Bool) (key : Text) (payload : CachedExecution) : Prop :=
  answers = true ∧ ∃ value, redis (self.redisKey key) = some value
    ∧ self.codec.modelValidateJson value = some payload

variable {self} {redis : Redis} {answers : Bool} {key : Text}
  {payload : CachedExecution}

theorem get_of_finds (h : self.Finds redis answers key payload) :
  self.get redis answers key = (deserialize payload).map some
  := by
  obtain ⟨rfl, value, hvalue, hpayload⟩ := h
  rw [get, hvalue]
  simp only [hpayload]
  rfl

theorem get_of_not_finds (h : ∀ payload, ¬ self.Finds redis answers key payload) :
  self.get redis answers key = .ok none
  := by
  rw [get]
  cases answers with
  | false => rfl
  | true =>
      cases hvalue : redis (self.redisKey key) with
      | none => rfl
      | some value =>
          cases hpayload : self.codec.modelValidateJson value with
          | none =>
              simp only [hpayload]
              rfl
          | some payload => exact absurd ⟨rfl, value, hvalue, hpayload⟩ (h payload)

/-- Whatever Redis holds under a key, a call of `get` comes back, with nothing or with an execution
all of whose citations are proper, exactly when the citations are proper of what pydantic finds in
the value. -/
theorem get_answers_iff (self : RedisSearchResultCache) (redis : Redis) (answers : Bool)
    (key : Text) :
  (self.get redis answers key = .ok none
      ∨ ∃ execution, self.get redis answers key = .ok (some execution)
        ∧ ∀ result ∈ execution.results, result.citation.Proper)
    ↔ ∀ payload, self.Finds redis answers key payload →
        ∀ item ∈ payload.results, item.citation.Proper
  := by
  constructor
  · intro hanswers payload hfinds
    rw [← exists_deserialize_eq_ok_iff]
    rw [get_of_finds hfinds] at hanswers
    cases hexecution : deserialize payload with
    | ok execution => use execution
    | error e =>
        rw [hexecution] at hanswers
        rcases hanswers with hnone | ⟨execution, hsome, -⟩
        · cases hnone
        · cases hsome
  · intro hproper
    by_cases hfinds : ∃ payload, self.Finds redis answers key payload
    · obtain ⟨payload, hfinds⟩ := hfinds
      obtain ⟨execution, hexecution⟩ := exists_deserialize_eq_ok_iff.mpr (hproper payload hfinds)
      right
      use execution
      rw [get_of_finds hfinds, hexecution]
      exact ⟨rfl, fun result _ => result.citation.proper⟩
    · left
      apply get_of_not_finds (not_exists.mp hfinds)

/-- A payload whose citation is on page zero. -/
def samplePayload : CachedExecution where
  query := "plan".toList
  mode := .keyword
  results := [⟨1, some 1, none, .text, ⟨0, 0, "notes.txt".toList, "The plan.".toList, [], some 0⟩⟩]

/-- The call raises when the JSON text of the payload is found under the key. -/
theorem not_get_answers_sample :
  ¬ ∀ (self : RedisSearchResultCache) (redis : Redis) (answers : Bool) (key : Text),
    self.get redis answers key = .ok none
      ∨ ∃ execution, self.get redis answers key = .ok (some execution)
        ∧ ∀ result ∈ execution.results, result.citation.Proper
  := by
  intro hall
  have hanswers := hall ⟨jsonCodec, "eks:search".toList⟩ (fun _ => some samplePayload.json) true []
  rw [get_answers_iff] at hanswers
  have hfinds : Finds ⟨jsonCodec, "eks:search".toList⟩ (fun _ => some samplePayload.json) true []
      samplePayload :=
    ⟨rfl, samplePayload.json, rfl, modelValidateJson_modelDumpJson samplePayload⟩
  have hproper := hanswers samplePayload hfinds _ List.mem_cons_self
  have hpage := hproper.pageNumber 0 rfl
  revert hpage
  decide

end RedisSearchResultCache

end KnowledgeSearch

import KnowledgeSearch.Application.Search
import KnowledgeSearch.Domain.Json
import Mathlib.Data.List.Perm.Basic

/-!
# Cached search

`CachedSearchService.search` as the sequence of its steps: the reading of the corpus revision,
the look-up in the cache, the reads of `SearchService.search`, and the storing of the result.

The key of a result is the digest of a text that determines the corpus revision and what is
searched for. The digest is a parameter: no function into texts of 64 digits is free of
collisions.
-/

namespace KnowledgeSearch

/-! ### Keys -/

/-- The text a key is the digest of. -/
def canonicalKey (q : SearchQuery) (revision : ℕ) : Text :=
  jsonObject
    [("corpus_revision", jsonNumber revision),
      ("document_ids", jsonStrings
        ((q.filters.documentIds.map Uuid.text).insertionSort fun s t => textLe s t = true)),
      ("limit", jsonNumber q.limit),
      ("media_types", jsonStrings
        ((q.filters.mediaTypes.map fun t => t.value.toList).insertionSort fun s t =>
          textLe s t = true)),
      ("mode", jsonString q.mode.value.toList),
      ("query", jsonString (normalizeQuery q.query))]

/-- `_cache_key`. -/
def cacheKey {κ : Type*} (digest : Text → κ) (q : SearchQuery) (revision : ℕ) : κ :=
  digest (canonicalKey q revision)

/-- Two searches that look for the same. -/
structure SearchQuery.Same (q q' : SearchQuery) : Prop where
  query_eq : normalizeQuery q.query = normalizeQuery q'.query
  mode_eq : q.mode = q'.mode
  limit_eq : q.limit = q'.limit
  admits_eq : q.filters.admits = q'.filters.admits

/-- A text is that of one mode. -/
theorem SearchMode.value_injective :
  Function.Injective SearchMode.value
  := by
  intro m m' h
  cases m <;> cases m' <;> first | rfl | exact absurd h (by decide)

theorem mediaTypeText_injective :
  Function.Injective fun t : DocumentMediaType => t.value.toList
  := by
  intro t t' h
  apply DocumentMediaType.value_injective (String.toList_injective h)

/-- Texts are sorted to one list when they are the same up to their order. -/
theorem sortTexts_eq_iff {α : Type*} {f : α → Text} (hf : Function.Injective f) {l l' : List α} :
  ((l.map f).insertionSort fun s t => textLe s t = true)
      = ((l'.map f).insertionSort fun s t => textLe s t = true)
    ↔ l.Perm l'
  := by
  have : Std.Total fun s t => textLe s t = true := ⟨textLe_total⟩
  have : IsTrans Text fun s t => textLe s t = true := ⟨fun _ _ _ => textLe_trans⟩
  rw [← List.map_perm_map_iff hf]
  constructor
  · intro h
    have hperm := List.perm_insertionSort (fun s t => textLe s t = true) (l.map f)
    rw [h] at hperm
    apply hperm.symm.trans (List.perm_insertionSort _ _)
  · apply List.insertionSort_eq_of_perm
    intro s _ t _ hst hts
    apply textLe_antisymm hst hts

/-- Lists with the same members are empty at once. -/
theorem isEmpty_eq_of_mem_iff {α : Type*} {l l' : List α} (h : ∀ a, a ∈ l ↔ a ∈ l') :
  l.isEmpty = l'.isEmpty
  := by
  cases l with
  | nil =>
      cases l' with
      | nil => rfl
      | cons a l' => exact absurd ((h a).mpr List.mem_cons_self) List.not_mem_nil
  | cons a l =>
      cases l' with
      | nil => exact absurd ((h a).mp List.mem_cons_self) List.not_mem_nil
      | cons b l' => rfl

/-- A key text is that of the normalized query, the mode, the limit, the filters up to their order,
and the revision. -/
theorem canonicalKey_eq_iff {q q' : SearchQuery} {revision revision' : ℕ} :
  canonicalKey q revision = canonicalKey q' revision'
    ↔ normalizeQuery q.query = normalizeQuery q'.query ∧ q.mode = q'.mode ∧ q.limit = q'.limit
      ∧ q.filters.documentIds.Perm q'.filters.documentIds
      ∧ q.filters.mediaTypes.Perm q'.filters.mediaTypes ∧ revision = revision'
  := by
  rw [← sortTexts_eq_iff Uuid.text_injective, ← sortTexts_eq_iff mediaTypeText_injective]
  constructor
  · intro h
    simp only [canonicalKey, jsonObject, List.map_cons, List.map_nil, List.intercalate_cons_cons,
      List.intercalate_singleton, List.append_assoc, List.cons.injEq, true_and,
      List.append_cancel_left_eq, List.cons_append] at h
    obtain ⟨hrevision, h⟩ := jsonNumber_append h
    simp only [List.nil_append, List.append_cancel_left_eq, List.cons.injEq, true_and] at h
    obtain ⟨hdocumentIds, h⟩ := prefixCode_jsonStrings h
    simp only [List.append_cancel_left_eq, List.cons.injEq, true_and] at h
    obtain ⟨hlimit, h⟩ := jsonNumber_append h
    simp only [List.append_cancel_left_eq, List.cons.injEq, true_and] at h
    obtain ⟨hmediaTypes, h⟩ := prefixCode_jsonStrings h
    simp only [List.append_cancel_left_eq, List.cons.injEq, true_and] at h
    obtain ⟨hmode, h⟩ := prefixCode_jsonString h
    simp only [List.append_cancel_left_eq, List.cons.injEq, true_and] at h
    obtain ⟨hquery, -⟩ := prefixCode_jsonString h
    use hquery, SearchMode.value_injective (String.toList_injective hmode), hlimit, hdocumentIds,
      hmediaTypes, Int.ofNat_inj.mp hrevision
  · rintro ⟨hquery, hmode, hlimit, hdocumentIds, hmediaTypes, rfl⟩
    simp only [canonicalKey, hquery, hmode, hlimit, hdocumentIds, hmediaTypes]

/-- A key text determines the revision and what is searched for. -/
theorem canonicalKey_eq {q q' : SearchQuery} {revision revision' : ℕ}
    (h : canonicalKey q revision = canonicalKey q' revision') :
  revision = revision' ∧ q.Same q'
  := by
  obtain ⟨hquery, hmode, hlimit, hdocumentIds, hmediaTypes, hrevision⟩ := canonicalKey_eq_iff.mp h
  use hrevision
  constructor
  · apply hquery
  · apply hmode
  · apply hlimit
  · funext documentId mediaType
    simp only [SearchFilters.admits, isEmpty_eq_of_mem_iff fun _ => hdocumentIds.mem_iff,
      isEmpty_eq_of_mem_iff fun _ => hmediaTypes.mem_iff, List.contains_eq_mem,
      hdocumentIds.mem_iff, hmediaTypes.mem_iff]

/-- Searches that look for the same have the same candidates. -/
theorem SearchQuery.Same.keyword_eq {q q' : SearchQuery} (h : q.Same q') (C : SearchServices)
    (db : Database) :
  C.keyword db q = C.keyword db q'
  := by
  simp only [SearchServices.keyword, SearchServices.candidateLimit, Database.keywordCandidates,
    h.query_eq, h.mode_eq, h.limit_eq, h.admits_eq]

/-- Searches that look for the same are hydrated to the same results. -/
theorem SearchQuery.Same.hydrate_eq {q q' : SearchQuery} (h : q.Same q') (db : Database)
    (ranked : List FusedCandidate) :
  SearchServices.hydrate db q ranked = SearchServices.hydrate db q' ranked
  := by
  simp only [SearchServices.hydrate, h.query_eq, h.mode_eq, h.limit_eq]

/-- Searches that look for the same pass the same checks. -/
theorem SearchQuery.Same.checkQuery_eq {q q' : SearchQuery} (h : q.Same q') :
  checkQuery q = checkQuery q'
  := by
  simp only [checkQuery, h.query_eq, h.limit_eq]

/-! ### The steps of a call -/

/-- Where a call of `CachedSearchService.search` stands. The revision is the one its key was made
with; without a cache there is none. -/
inductive Request where
  | idle
  | begun (query : SearchQuery)
  | keyed (query : SearchQuery) (revision : ℕ)
  | missed (query : SearchQuery) (revision : Option ℕ)
  | matched (query : SearchQuery) (revision : Option ℕ) (keyword : List RetrievalCandidate)
  | ranked (query : SearchQuery) (revision : Option ℕ) (candidates : List FusedCandidate)
  | executed (query : SearchQuery) (revision : ℕ) (execution : SearchExecution)
  | returned (execution : SearchExecution)
  | raised (error : AppError)
  | died
  deriving DecidableEq

/-- The call is under way. -/
def Request.Underway : Request → Bool
  | idle | returned _ | raised _ | died => false
  | _ => true

/-- A step of a call with what it does not determine itself: the error it raises, whether the
cache still has the entry asked for, and whether it stores the one it is given. -/
inductive RequestEvent where
  | begin (query : SearchQuery)
  | readRevision (fault : Option AppError)
  | get (present : Bool)
  | keyword (fault : Option AppError)
  | vector (fault : Option AppError)
  | load (fault : Option AppError)
  | set (stored : Bool)
  | crash

/-- The event begins a call. -/
def RequestEvent.IsBegin : RequestEvent → Prop
  | begin _ => True
  | _ => False

/-- The step raises no error of the database, the embedding model or the vector index. -/
def RequestEvent.Faultless : RequestEvent → Prop
  | readRevision fault | keyword fault | vector fault | load fault => fault = none
  | begin _ | get _ | set _ => True
  | crash => False

/-- The cache: what was last set under each key. -/
abbrev SearchCache (κ : Type) := κ → Option SearchExecution

/-- A step of `CachedSearchService.search`. -/
def Request.step {κ : Type} [DecidableEq κ] (C : SearchServices) (S : Services) (digest : Text → κ)
    (s : Stores) (cache : SearchCache κ) : Request → RequestEvent → Option (SearchCache κ × Request)
  | request, .begin q =>
      if request.Underway then none
      else if C.ttlSeconds = 0 then some (cache, .missed q none)
      else some (cache, .begun q)
  | .begun q, .readRevision fault =>
      match transaction fault (.ok s.db.revision) with
      | .error e => some (cache, .raised e)
      | .ok revision => some (cache, .keyed q revision)
  | .keyed q revision, .get present =>
      match if present then cache (cacheKey digest q revision) else none with
      | some execution => some (cache, .returned execution)
      | none => some (cache, .missed q (some revision))
  | .missed q revision, .keyword fault =>
      match checkQuery q with
      | .error e => some (cache, .raised e)
      | .ok _ =>
          match transaction (if q.mode.usesKeyword then fault else none)
              (.ok (C.keyword s.db q)) with
          | .error e => some (cache, .raised e)
          | .ok keyword => some (cache, .matched q revision keyword)
  | .matched q revision keyword, .vector fault =>
      match if q.mode.usesVector then fault else none with
      | some e => some (cache, .raised e)
      | none =>
          some (cache, .ranked q revision (C.rank q.mode keyword (C.vector S s.index q)))
  | .ranked q revision candidates, .load fault =>
      match transaction (if candidates.isEmpty then none else fault)
          (.ok (SearchServices.hydrate s.db q candidates)), revision with
      | .error e, _ => some (cache, .raised e)
      | .ok execution, none => some (cache, .returned execution)
      | .ok execution, some revision => some (cache, .executed q revision execution)
  | .executed q revision execution, .set stored =>
      some (if stored then
          Function.update cache (cacheKey digest q revision) (some execution)
        else cache, .returned execution)
  | request, .crash => if request.Underway then some (cache, .died) else none
  | _, _ => none

end KnowledgeSearch

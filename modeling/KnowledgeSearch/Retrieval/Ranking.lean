import KnowledgeSearch.Domain.Chunks
import KnowledgeSearch.Foundations.Sorting
import KnowledgeSearch.Foundations.Table
import Mathlib.Data.List.Sort
import Mathlib.Data.Rat.Defs

/-!
# Candidates and their fusion

The values of a retrieval, and `reciprocalRankFusion`, which merges two ranked lists of
candidates into one.

Scores are floating point numbers, and a sum or a quotient of them is the number `round` takes
the exact one to.
-/

namespace KnowledgeSearch

/-- A floating point number, as the rational number it stands for. -/
abbrev Score := ℚ

inductive SearchMode where
  | keyword
  | vector
  | hybrid
  deriving DecidableEq

def SearchMode.value : SearchMode → String
  | keyword => "keyword"
  | vector => "vector"
  | hybrid => "hybrid"

/-- The mode searches the texts of the chunks. -/
def SearchMode.usesKeyword : SearchMode → Bool
  | keyword | hybrid => true
  | vector => false

/-- The mode searches the vector index. -/
def SearchMode.usesVector : SearchMode → Bool
  | vector | hybrid => true
  | keyword => false

structure SearchFilters where
  documentIds : List Uuid
  mediaTypes : List DocumentMediaType
  deriving DecidableEq

/-- An empty list of identifiers, or of media types, admits every document. -/
def SearchFilters.admits (filters : SearchFilters) (documentId : Uuid)
    (mediaType : DocumentMediaType) : Bool :=
  (filters.documentIds.isEmpty || filters.documentIds.contains documentId)
    && (filters.mediaTypes.isEmpty || filters.mediaTypes.contains mediaType)

/-- A candidate with its rank, which is at least one. -/
structure RetrievalCandidate where
  chunkId : Uuid
  rank : ℕ
  score : Score
  valid : 1 ≤ rank
  deriving DecidableEq

structure FusedCandidate where
  chunkId : Uuid
  score : Score
  keywordRank : Option ℕ
  vectorRank : Option ℕ
  deriving DecidableEq

/-- The candidates of scored chunks, ranked from one on. -/
def rankedFrom (n : ℕ) : List (Uuid × Score) → List RetrievalCandidate
  | [] => []
  | r :: rs => ⟨r.1, n + 1, r.2, Nat.le_add_left 1 n⟩ :: rankedFrom (n + 1) rs

/-- Texts in the order of their characters. -/
def textLe : Text → Text → Bool
  | [], _ => true
  | _ :: _, [] => false
  | a :: s, b :: t => a.toNat < b.toNat || (a.toNat = b.toNat && textLe s t)

/-! ### Fusion -/

/-- `scores[chunk_id] += 1.0 / (rrf_k + rank)`, where missing scores are zero. -/
def addReciprocal (round : ℚ → Score) (rrfK : ℕ) (scores : Table (Prod.fst : Uuid × Score → Uuid))
    (candidate : RetrievalCandidate) : Table (Prod.fst : Uuid × Score → Uuid) :=
  let score := ((scores.get candidate.chunkId).map Prod.snd).getD 0
  scores.put (candidate.chunkId, round (score + round (1 / (rrfK + candidate.rank))))

/-- The ranks of candidates, where a later candidate takes precedence. -/
def rankOf (candidates : List RetrievalCandidate) (chunkId : Uuid) : Option ℕ :=
  (candidates.reverse.find? fun candidate => candidate.chunkId = chunkId).map fun candidate =>
    candidate.rank

/-- The order of the fused candidates: by score from the best on, and by the text of the
identifier. -/
def FusedCandidate.Precedes (a b : FusedCandidate) : Prop :=
  b.score < a.score ∨ (b.score = a.score ∧ textLe a.chunkId.text b.chunkId.text = true)

instance : DecidableRel FusedCandidate.Precedes :=
  fun a b => inferInstanceAs (Decidable (b.score < a.score ∨ _))

/-- `reciprocal_rank_fusion`, for a constant that passes its check. -/
def reciprocalRankFusion (round : ℚ → Score) (keyword vector : List RetrievalCandidate)
    (rrfK : ℕ) : List FusedCandidate :=
  let scores := vector.foldl (addReciprocal round rrfK)
    (keyword.foldl (addReciprocal round rrfK) .empty)
  (scores.rows.map fun r =>
    ⟨r.1, r.2, rankOf keyword r.1, rankOf vector r.1⟩).insertionSort FusedCandidate.Precedes

/-! ### Ranks -/

/-- The candidates are those of the scored chunks. -/
theorem map_rankedFrom :
    ∀ (n : ℕ) (rs : List (Uuid × Score)),
      (rankedFrom n rs).map (fun candidate => candidate.chunkId) = rs.map Prod.fst
  | _, [] => rfl
  | n, r :: rs => by
      rw [rankedFrom, List.map_cons, List.map_cons, map_rankedFrom (n + 1) rs]

/-- Ranking keeps the scored chunks in their order. -/
theorem map_scored_rankedFrom (n : ℕ) (rows : List (Uuid × Score)) :
  (rankedFrom n rows).map (fun candidate => (candidate.chunkId, candidate.score)) = rows
  := by
  induction rows generalizing n with
  | nil => rfl
  | cons row rows ih => rw [rankedFrom, List.map_cons, ih]

/-- The ranks go on in the second of two lists where they end in the first. -/
theorem rankedFrom_append (n : ℕ) (rows rows' : List (Uuid × Score)) :
  rankedFrom n (rows ++ rows') = rankedFrom n rows ++ rankedFrom (n + rows.length) rows'
  := by
  induction rows generalizing n with
  | nil => rfl
  | cons row rows ih =>
      rw [List.cons_append, rankedFrom, ih, rankedFrom, List.cons_append, List.length_cons,
        Nat.add_assoc, Nat.add_comm 1]

/-- The ranks start above the number they are counted from. -/
theorem lt_rank_of_mem_rankedFrom {n : ℕ} {rows : List (Uuid × Score)}
    {candidate : RetrievalCandidate} (h : candidate ∈ rankedFrom n rows) :
  n < candidate.rank
  := by
  induction rows generalizing n with
  | nil => cases h
  | cons row rows ih =>
      rcases List.mem_cons.mp h with rfl | h
      · apply Nat.lt_succ_self
      · apply lt_trans (Nat.lt_succ_self n) (ih h)

/-- The candidates of ranked rows are those rows. -/
theorem exists_of_mem_rankedFrom {n : ℕ} {rows : List (Uuid × Score)}
    {candidate : RetrievalCandidate} (h : candidate ∈ rankedFrom n rows) :
  ∃ row ∈ rows, row.1 = candidate.chunkId
  := by
  have hmem : candidate.chunkId ∈ rows.map Prod.fst := by
    rw [← map_rankedFrom n rows]
    apply List.mem_map_of_mem h
  apply List.mem_map.mp hmem

/-- The scores after adding those of candidates are scores of these or old ones. -/
theorem exists_of_mem_foldl_addReciprocal {round : ℚ → Score} {rrfK : ℕ}
    {candidates : List RetrievalCandidate} {scores : Table (Prod.fst : Uuid × Score → Uuid)}
    {entry : Uuid × Score} (h : entry ∈ candidates.foldl (addReciprocal round rrfK) scores) :
  (∃ candidate ∈ candidates, candidate.chunkId = entry.1) ∨ ∃ old ∈ scores, old.1 = entry.1
  := by
  induction candidates generalizing scores with
  | nil => exact Or.inr ⟨entry, h, rfl⟩
  | cons first candidates ih =>
      rcases ih h with ⟨candidate, hcandidate, hid⟩ | ⟨old, hold, hid⟩
      · exact Or.inl ⟨candidate, List.mem_cons_of_mem first hcandidate, hid⟩
      · rcases Table.mem_put.mp hold with rfl | ⟨hold, -⟩
        · exact Or.inl ⟨first, List.mem_cons_self, hid⟩
        · exact Or.inr ⟨old, hold, hid⟩

/-- A fused candidate is one of the candidates of the two lists. -/
theorem exists_of_mem_reciprocalRankFusion {round : ℚ → Score}
    {keyword vector : List RetrievalCandidate} {rrfK : ℕ} {fused : FusedCandidate}
    (h : fused ∈ reciprocalRankFusion round keyword vector rrfK) :
  (∃ candidate ∈ keyword, candidate.chunkId = fused.chunkId)
    ∨ ∃ candidate ∈ vector, candidate.chunkId = fused.chunkId
  := by
  have hsorted := (List.mem_insertionSort _).mp h
  obtain ⟨entry, hentry, rfl⟩ := List.mem_map.mp hsorted
  rcases exists_of_mem_foldl_addReciprocal hentry with hvector | ⟨old, hold, hid⟩
  · exact Or.inr hvector
  · rcases exists_of_mem_foldl_addReciprocal hold with ⟨candidate, hkeyword, hid'⟩ | ⟨none, hnone, -⟩
    · exact Or.inl ⟨candidate, hkeyword, hid'.trans hid⟩
    · exact absurd hnone (Table.not_mem_empty none)

/-! ### The order of the fused candidates -/

theorem textLe_total (s t : Text) :
  textLe s t = true ∨ textLe t s = true
  := by
  induction s generalizing t with
  | nil => exact Or.inl rfl
  | cons a s ih =>
      cases t with
      | nil => exact Or.inr rfl
      | cons b t =>
          simp only [textLe, Bool.or_eq_true, Bool.and_eq_true, decide_eq_true_eq]
          rcases lt_trichotomy a.toNat b.toNat with h | h | h
          · exact Or.inl (Or.inl h)
          · rcases ih t with hst | hts
            · exact Or.inl (Or.inr ⟨h, hst⟩)
            · exact Or.inr (Or.inr ⟨h.symm, hts⟩)
          · exact Or.inr (Or.inl h)

theorem textLe_trans {s t u : Text} (hst : textLe s t = true) (htu : textLe t u = true) :
  textLe s u = true
  := by
  induction s generalizing t u with
  | nil => rfl
  | cons a s ih =>
      cases t with
      | nil => cases hst
      | cons b t =>
          cases u with
          | nil => cases htu
          | cons c u =>
              simp only [textLe, Bool.or_eq_true, Bool.and_eq_true, decide_eq_true_eq] at hst htu ⊢
              rcases hst with hab | ⟨hab, hst⟩
              · left
                rcases htu with hbc | ⟨hbc, -⟩
                · apply lt_trans hab hbc
                · rw [← hbc]
                  apply hab
              · rw [hab]
                rcases htu with hbc | ⟨hbc, htu⟩
                · exact Or.inl hbc
                · exact Or.inr ⟨hbc, ih hst htu⟩

theorem textLe_antisymm {s t : Text} (hst : textLe s t = true) (hts : textLe t s = true) :
  s = t
  := by
  induction s generalizing t with
  | nil =>
      cases t with
      | nil => rfl
      | cons b t => cases hts
  | cons a s ih =>
      cases t with
      | nil => cases hst
      | cons b t =>
          simp only [textLe, Bool.or_eq_true, Bool.and_eq_true, decide_eq_true_eq] at hst hts
          rcases hst with hlt | ⟨heq, hst⟩
          · rcases hts with hgt | ⟨heq, -⟩
            · exact absurd hlt hgt.asymm
            · exact absurd heq hlt.ne'
          · rcases hts with hgt | ⟨-, hts⟩
            · exact absurd heq hgt.ne'
            · rw [Char.toNat_inj.mp heq, ih hst hts]

instance : Std.Total FusedCandidate.Precedes where
  total := by
    intro a b
    simp only [FusedCandidate.Precedes]
    rcases lt_trichotomy a.score b.score with h | h | h
    · exact Or.inr (Or.inl h)
    · rcases textLe_total a.chunkId.text b.chunkId.text with hab | hba
      · exact Or.inl (Or.inr ⟨h.symm, hab⟩)
      · exact Or.inr (Or.inr ⟨h, hba⟩)
    · exact Or.inl (Or.inl h)

instance : IsTrans FusedCandidate FusedCandidate.Precedes where
  trans := by
    intro a b c hab hbc
    simp only [FusedCandidate.Precedes] at hab hbc ⊢
    rcases hab with hab | ⟨hab, htext⟩
    · rcases hbc with hbc | ⟨hbc, -⟩
      · exact Or.inl (lt_trans hbc hab)
      · left
        rw [hbc]
        apply hab
    · rw [← hab]
      rcases hbc with hbc | ⟨hbc, htext'⟩
      · exact Or.inl hbc
      · exact Or.inr ⟨hbc, textLe_trans htext htext'⟩

/-! ### Candidates that do not count -/

section Counting

variable {round : ℚ → Score} {rrfK : ℕ} {p : Uuid → Bool}
  {keyword vector others : List RetrievalCandidate}

/-- The scores of the candidates that count are not touched by those that do not. -/
theorem filter_foldl_addReciprocal (hothers : ∀ candidate ∈ others, p candidate.chunkId = false)
    (scores : Table (Prod.fst : Uuid × Score → Uuid)) :
  ((others.foldl (addReciprocal round rrfK) scores).rows.filter fun entry => p entry.1)
    = scores.rows.filter fun entry => p entry.1
  := by
  induction others generalizing scores with
  | nil => rfl
  | cons candidate others ih =>
      obtain ⟨hcandidate, hothers⟩ := List.forall_mem_cons.mp hothers
      rw [List.foldl_cons, ih hothers]
      apply Table.filter_rows_put
      intro entry hentry
      rw [hentry]
      apply hcandidate

/-- The rank of a candidate that counts. -/
theorem rankOf_append (hothers : ∀ candidate ∈ others, p candidate.chunkId = false) {chunkId : Uuid}
    (h : p chunkId = true) :
  rankOf (vector ++ others) chunkId = rankOf vector chunkId
  := by
  have hnone : (others.reverse.find? fun candidate => candidate.chunkId = chunkId) = none := by
    apply List.find?_eq_none.mpr
    intro candidate hcandidate hid
    have hp := hothers candidate (List.mem_reverse.mp hcandidate)
    rw [of_decide_eq_true hid, h] at hp
    cases hp
  rw [rankOf, List.reverse_append, List.find?_append, hnone, Option.none_or, rankOf]

/-- Candidates that do not count, at the end of one of the lists, leave the fused candidates that
do as they are. -/
theorem filter_reciprocalRankFusion (hkeyword : ∀ candidate ∈ keyword, p candidate.chunkId = true)
    (hvector : ∀ candidate ∈ vector, p candidate.chunkId = true)
    (hothers : ∀ candidate ∈ others, p candidate.chunkId = false) :
  (reciprocalRankFusion round keyword (vector ++ others) rrfK).filter (fun fused => p fused.chunkId)
    = reciprocalRankFusion round keyword vector rrfK
  := by
  set scores := vector.foldl (addReciprocal round rrfK)
    (keyword.foldl (addReciprocal round rrfK) .empty) with hscores
  have hcount : ∀ entry ∈ scores.rows, p entry.1 = true := by
    intro entry hentry
    rcases exists_of_mem_foldl_addReciprocal hentry with ⟨candidate, hcandidate, hid⟩ | ⟨old, hold, hid⟩
    · rw [← hid]
      apply hvector candidate hcandidate
    · rcases exists_of_mem_foldl_addReciprocal hold with ⟨candidate, hcandidate, hid'⟩ | ⟨_, hnone, -⟩
      · rw [← hid, ← hid']
        apply hkeyword candidate hcandidate
      · exact absurd hnone (Table.not_mem_empty _)
  have hrows : (((vector ++ others).foldl (addReciprocal round rrfK)
      (keyword.foldl (addReciprocal round rrfK) .empty)).rows.filter fun entry => p entry.1)
        = scores.rows := by
    rw [List.foldl_append, filter_foldl_addReciprocal hothers, ← hscores]
    apply List.filter_eq_self.mpr hcount
  rw [reciprocalRankFusion, reciprocalRankFusion, List.filter_insertionSort, List.filter_map]
  congr 1
  calc _ = scores.rows.map fun entry =>
        ⟨entry.1, entry.2, rankOf keyword entry.1, rankOf (vector ++ others) entry.1⟩ := by
        rw [← hrows]
        rfl
    _ = _ := by
        apply List.map_congr_left
        intro entry hentry
        rw [rankOf_append hothers (hcount entry hentry)]

end Counting

end KnowledgeSearch

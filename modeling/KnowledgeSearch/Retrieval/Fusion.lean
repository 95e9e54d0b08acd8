import KnowledgeSearch.Retrieval.Ranking
import Mathlib.Algebra.Order.Field.Basic
import Mathlib.Tactic.Positivity

/-!
# What a fusion is

With exact scores, the fusion of two lists of candidates is determined by the ranks the lists give
to the chunks: `fusedOf` is the fused candidate of a chunk, and the fusion the list of these in
their order. It follows that the fusion does not depend on the order of the lists, that exchanging
the lists exchanges the ranks, and that better ranks lead to earlier places.
-/

namespace KnowledgeSearch

/-! ### Ranks -/

/-- What a rank contributes to the score, nothing if there is none. -/
def reciprocal (rrfK : ℕ) : Option ℕ → ℚ
  | none => 0
  | some rank => 1 / (rrfK + rank)

/-- A rank is at least as good as another; any rank is better than none. -/
def RankLe : Option ℕ → Option ℕ → Prop
  | _, none => True
  | none, some _ => False
  | some rank, some rank' => rank ≤ rank'

theorem RankLe.refl (rank : Option ℕ) :
  RankLe rank rank
  := by
  cases rank with
  | none => trivial
  | some rank => exact le_refl rank

/-- A rank is better than another. -/
def RankLt (rank rank' : Option ℕ) : Prop :=
  RankLe rank rank' ∧ rank ≠ rank'

/-- A better rank contributes more. -/
theorem reciprocal_lt {rrfK : ℕ} (hk : 1 ≤ rrfK) {rank rank' : Option ℕ} (h : RankLt rank rank') :
  reciprocal rrfK rank' < reciprocal rrfK rank
  := by
  have hpos : (0 : ℚ) < rrfK := by
    exact_mod_cast hk
  obtain ⟨hle, hne⟩ := h
  cases rank' with
  | none =>
      cases rank with
      | none => exact absurd rfl hne
      | some r =>
          simp only [reciprocal]
          positivity
  | some r' =>
      cases rank with
      | none => cases hle
      | some r =>
          have hlt : r < r' := lt_of_le_of_ne hle fun heq => hne (congrArg some heq)
          simp only [reciprocal]
          apply one_div_lt_one_div_of_lt
          · positivity
          · exact_mod_cast Nat.add_lt_add_left hlt rrfK

theorem reciprocal_le {rrfK : ℕ} (hk : 1 ≤ rrfK) {rank rank' : Option ℕ} (h : RankLe rank rank') :
  reciprocal rrfK rank' ≤ reciprocal rrfK rank
  := by
  by_cases heq : rank = rank'
  · rw [heq]
  · apply (reciprocal_lt hk ⟨h, heq⟩).le

/-- The identifiers of the chunks of candidates. -/
abbrev chunkIds (candidates : List RetrievalCandidate) : List Uuid :=
  candidates.map fun candidate => candidate.chunkId

/-- The chunks of candidates with their ranks. -/
abbrev rankPairs (candidates : List RetrievalCandidate) : List (Uuid × ℕ) :=
  candidates.map fun candidate => (candidate.chunkId, candidate.rank)

section Ranks

variable {candidates : List RetrievalCandidate}

/-- The rank of a chunk is that of its candidate. -/
theorem rankOf_eq_some_iff (hnodup : (chunkIds candidates).Nodup) {id : Uuid} {rank : ℕ} :
  rankOf candidates id = some rank ↔ (id, rank) ∈ rankPairs candidates
  := by
  rw [rankOf, Option.map_eq_some_iff, List.mem_map]
  constructor
  · rintro ⟨candidate, hfind, rfl⟩
    have hid : candidate.chunkId = id := by simpa using List.find?_some hfind
    use candidate, List.mem_reverse.mp (List.mem_of_find?_eq_some hfind)
    rw [hid]
  · rintro ⟨candidate, hmem, hpair⟩
    cases hpair
    cases hfind : candidates.reverse.find? fun c => c.chunkId = candidate.chunkId with
    | none =>
        have hnone := List.find?_eq_none.mp hfind candidate (List.mem_reverse.mpr hmem)
        simp at hnone
    | some found =>
        have hid : found.chunkId = candidate.chunkId := by simpa using List.find?_some hfind
        have hfound := List.mem_reverse.mp (List.mem_of_find?_eq_some hfind)
        use found, rfl
        rw [List.inj_on_of_nodup_map hnodup hfound hmem hid]

theorem rankOf_eq_none_iff {id : Uuid} :
  rankOf candidates id = none ↔ id ∉ chunkIds candidates
  := by
  rw [rankOf, Option.map_eq_none_iff, List.find?_eq_none]
  simp

theorem perm_chunkIds {candidates' : List RetrievalCandidate}
    (h : (rankPairs candidates').Perm (rankPairs candidates)) :
  (chunkIds candidates').Perm (chunkIds candidates)
  := by
  have hfst := h.map Prod.fst
  rw [List.map_map, List.map_map] at hfst
  apply hfst

/-- The ranks depend on the pairs of chunks and ranks only. -/
theorem rankOf_eq_of_perm {candidates' : List RetrievalCandidate}
    (hnodup : (chunkIds candidates).Nodup) (h : (rankPairs candidates').Perm (rankPairs candidates))
    (id : Uuid) :
  rankOf candidates' id = rankOf candidates id
  := by
  have hids : (chunkIds candidates').Perm (chunkIds candidates) := perm_chunkIds h
  have hnodup' : (chunkIds candidates').Nodup := hids.nodup_iff.mpr hnodup
  cases hrank : rankOf candidates id with
  | none =>
      rw [rankOf_eq_none_iff] at hrank ⊢
      rw [hids.mem_iff]
      apply hrank
  | some rank =>
      rw [rankOf_eq_some_iff hnodup] at hrank
      rw [rankOf_eq_some_iff hnodup', h.mem_iff]
      apply hrank

/-- The rank of the first of several candidates. -/
theorem rankOf_cons {candidate : RetrievalCandidate} {id : Uuid}
    (hnodup : (chunkIds (candidate :: candidates)).Nodup) :
  rankOf (candidate :: candidates) id
    = if candidate.chunkId = id then some candidate.rank else rankOf candidates id
  := by
  obtain ⟨hnew, hrest⟩ := List.nodup_cons.mp hnodup
  split
  · rename_i hid
    rw [rankOf_eq_some_iff hnodup, ← hid]
    apply List.mem_cons_self
  · rename_i hid
    cases hrank : rankOf candidates id with
    | none =>
        rw [rankOf_eq_none_iff] at hrank ⊢
        simp only [chunkIds, List.map_cons, List.mem_cons, not_or]
        use Ne.symm hid
    | some rank =>
        rw [rankOf_eq_some_iff hrest] at hrank
        rw [rankOf_eq_some_iff hnodup]
        apply List.mem_cons_of_mem _ hrank

end Ranks

/-! ### Scores -/

/-- The score of a chunk so far. -/
def scoreOf (scores : Table (Prod.fst : Uuid × Score → Uuid)) (id : Uuid) : Score :=
  ((scores.get id).map Prod.snd).getD 0

section Scores

variable {rrfK : ℕ} {candidates : List RetrievalCandidate}

/-- A candidate adds to the score of its chunk. -/
theorem scoreOf_addReciprocal (scores : Table (Prod.fst : Uuid × Score → Uuid))
    (candidate : RetrievalCandidate) (id : Uuid) :
  scoreOf (addReciprocal (fun x => x) rrfK scores candidate) id
    = if id = candidate.chunkId then scoreOf scores id + reciprocal rrfK (some candidate.rank)
      else scoreOf scores id
  := by
  rw [scoreOf, addReciprocal, Table.get_put]
  split
  · rename_i hid
    rw [hid]
    rfl
  · rfl

/-- Candidates of different chunks add what their ranks contribute. -/
theorem scoreOf_foldl (hnodup : (chunkIds candidates).Nodup)
    (scores : Table (Prod.fst : Uuid × Score → Uuid)) (id : Uuid) :
  scoreOf (candidates.foldl (addReciprocal (fun x => x) rrfK) scores) id
    = scoreOf scores id + reciprocal rrfK (rankOf candidates id)
  := by
  induction candidates generalizing scores with
  | nil =>
      exact (add_zero _).symm
  | cons candidate candidates ih =>
      obtain ⟨hnew, hrest⟩ := List.nodup_cons.mp hnodup
      rw [List.foldl_cons, ih hrest, scoreOf_addReciprocal, rankOf_cons hnodup]
      by_cases hid : id = candidate.chunkId
      · have hnone : rankOf candidates id = none := by
          rw [rankOf_eq_none_iff, hid]
          apply hnew
        rw [if_pos hid, if_pos hid.symm, hnone]
        exact add_zero _
      · rw [if_neg hid, if_neg (Ne.symm hid)]

/-- The chunks with a score are those of the candidates and those that had one. -/
theorem mem_keys_foldl {round : ℚ → Score} {id : Uuid}
    {scores : Table (Prod.fst : Uuid × Score → Uuid)} :
  id ∈ (candidates.foldl (addReciprocal round rrfK) scores).rows.map Prod.fst
    ↔ id ∈ chunkIds candidates ∨ id ∈ scores.rows.map Prod.fst
  := by
  induction candidates generalizing scores with
  | nil => simp
  | cons candidate candidates ih =>
      have hput : id ∈ (addReciprocal round rrfK scores candidate).rows.map Prod.fst
          ↔ id = candidate.chunkId ∨ id ∈ scores.rows.map Prod.fst := by
        simp only [addReciprocal, List.mem_map, ← Table.mem_def, Table.mem_put]
        constructor
        · rintro ⟨entry, rfl | ⟨hentry, -⟩, rfl⟩
          · exact Or.inl rfl
          · exact Or.inr ⟨entry, hentry, rfl⟩
        · rintro (rfl | ⟨entry, hentry, rfl⟩)
          · exact ⟨_, Or.inl rfl, rfl⟩
          · by_cases hid : entry.1 = candidate.chunkId
            · exact ⟨_, Or.inl rfl, hid.symm⟩
            · exact ⟨entry, Or.inr ⟨hentry, hid⟩, rfl⟩
      rw [List.foldl_cons, ih, hput]
      simp only [chunkIds, List.map_cons, List.mem_cons]
      rw [or_left_comm, or_assoc]

end Scores

/-! ### The fused candidates -/

/-- The fused candidate of a chunk. -/
def fusedOf (keyword vector : List RetrievalCandidate) (rrfK : ℕ) (id : Uuid) : FusedCandidate where
  chunkId := id
  score := reciprocal rrfK (rankOf keyword id) + reciprocal rrfK (rankOf vector id)
  keywordRank := rankOf keyword id
  vectorRank := rankOf vector id

/-- The same fused candidate of the lists exchanged. -/
def FusedCandidate.swap (fused : FusedCandidate) : FusedCandidate where
  chunkId := fused.chunkId
  score := fused.score
  keywordRank := fused.vectorRank
  vectorRank := fused.keywordRank

theorem swap_fusedOf (keyword vector : List RetrievalCandidate) (rrfK : ℕ) (id : Uuid) :
  (fusedOf keyword vector rrfK id).swap = fusedOf vector keyword rrfK id
  := by
  simp only [fusedOf, FusedCandidate.swap, add_comm]

/-- Fused candidates that precede each other are of the same chunk. -/
theorem FusedCandidate.Precedes.chunkId_eq {a b : FusedCandidate} (hab : a.Precedes b)
    (hba : b.Precedes a) :
  a.score = b.score ∧ a.chunkId = b.chunkId
  := by
  simp only [FusedCandidate.Precedes] at hab hba
  rcases hab with hab | ⟨hscore, hab⟩
  · rcases hba with hba | ⟨hscore, -⟩
    · exact absurd hab (lt_asymm hba)
    · exact absurd hscore hab.ne'
  · rcases hba with hba | ⟨-, hba⟩
    · exact absurd hscore hba.ne'
    · use hscore.symm
      apply Uuid.text_injective (textLe_antisymm hab hba)

/-- The chunks of a fusion in its order. -/
abbrev chunkOrder (keyword vector : List RetrievalCandidate) (rrfK : ℕ) : List Uuid :=
  (reciprocalRankFusion (fun x => x) keyword vector rrfK).map fun fused => fused.chunkId

section Fusion

variable {keyword vector : List RetrievalCandidate} {rrfK : ℕ}

/-- Fused candidates of chunks are told apart by their order. -/
theorem fusedOf_antisymm {ids : List Uuid} :
  ∀ a ∈ ids.map (fusedOf keyword vector rrfK), ∀ b ∈ ids.map (fusedOf keyword vector rrfK),
    a.Precedes b → b.Precedes a → a = b
  := by
  intro a ha b hb hab hba
  obtain ⟨id, -, rfl⟩ := List.mem_map.mp ha
  obtain ⟨id', -, rfl⟩ := List.mem_map.mp hb
  have hid : id = id' := (hab.chunkId_eq hba).2
  rw [hid]

variable (hkeyword : (chunkIds keyword).Nodup) (hvector : (chunkIds vector).Nodup)

include hkeyword hvector

/-- The fusion is the list of the fused candidates of the chunks, in their order. -/
theorem reciprocalRankFusion_eq {ids : List Uuid} (hids : ids.Nodup)
    (hmem : ∀ id, id ∈ ids ↔ id ∈ chunkIds keyword ∨ id ∈ chunkIds vector) :
  reciprocalRankFusion (fun x => x) keyword vector rrfK
    = (ids.map (fusedOf keyword vector rrfK)).insertionSort FusedCandidate.Precedes
  := by
  set scores := vector.foldl (addReciprocal (fun x => x) rrfK)
    (keyword.foldl (addReciprocal (fun x => x) rrfK) .empty) with hscores
  have hscore : ∀ id, scoreOf scores id
      = reciprocal rrfK (rankOf keyword id) + reciprocal rrfK (rankOf vector id) := by
    intro id
    rw [hscores, scoreOf_foldl hvector, scoreOf_foldl hkeyword]
    have hzero : scoreOf .empty id = 0 := rfl
    rw [hzero, zero_add]
  have hentries : (scores.rows.map fun r =>
      (⟨r.1, r.2, rankOf keyword r.1, rankOf vector r.1⟩ : FusedCandidate))
        = (scores.rows.map Prod.fst).map (fusedOf keyword vector rrfK) := by
    rw [List.map_map]
    apply List.map_congr_left
    intro entry hentry
    have hget : scores.get entry.1 = some entry := Table.get_key hentry
    rw [Function.comp_apply, fusedOf, ← hscore, scoreOf, hget]
    rfl
  have hkeys : (scores.rows.map Prod.fst).Perm ids := by
    rw [List.perm_ext_iff_of_nodup scores.nodup hids]
    intro id
    rw [hmem, hscores, mem_keys_foldl, mem_keys_foldl, or_comm]
    have hempty : id ∉ (Table.empty : Table (Prod.fst : Uuid × Score → Uuid)).rows.map Prod.fst :=
      List.not_mem_nil
    rw [or_iff_left hempty]
  rw [reciprocalRankFusion, ← hscores, hentries]
  apply List.insertionSort_eq_of_perm fusedOf_antisymm (hkeys.map _)

omit hkeyword hvector in
/-- The chunks of two lists, without repetitions. -/
theorem exists_ids (keyword vector : List RetrievalCandidate) :
  ∃ ids : List Uuid, ids.Nodup
    ∧ ∀ id, id ∈ ids ↔ id ∈ chunkIds keyword ∨ id ∈ chunkIds vector
  := by
  use (chunkIds keyword ++ chunkIds vector).dedup, List.nodup_dedup _
  intro id
  rw [List.mem_dedup, List.mem_append]

/-- The fusion has the fused candidates of the chunks of either list. -/
theorem mem_reciprocalRankFusion_iff {fused : FusedCandidate} :
  fused ∈ reciprocalRankFusion (fun x => x) keyword vector rrfK
    ↔ (fused.chunkId ∈ chunkIds keyword ∨ fused.chunkId ∈ chunkIds vector)
      ∧ fused = fusedOf keyword vector rrfK fused.chunkId
  := by
  obtain ⟨ids, hids, hmem⟩ := exists_ids keyword vector
  rw [reciprocalRankFusion_eq hkeyword hvector hids hmem, List.mem_insertionSort, List.mem_map]
  constructor
  · rintro ⟨id, hid, rfl⟩
    use (hmem id).mp hid
    rfl
  · rintro ⟨hid, hfused⟩
    use fused.chunkId, (hmem _).mpr hid, hfused.symm

/-- The fusion has each chunk once. -/
theorem nodup_reciprocalRankFusion :
  ((reciprocalRankFusion (fun x => x) keyword vector rrfK).map fun fused => fused.chunkId).Nodup
  := by
  obtain ⟨ids, hids, hmem⟩ := exists_ids keyword vector
  rw [reciprocalRankFusion_eq hkeyword hvector hids hmem]
  have hperm := (List.perm_insertionSort FusedCandidate.Precedes
    (ids.map (fusedOf keyword vector rrfK))).map fun fused => fused.chunkId
  rw [hperm.nodup_iff, List.map_map]
  have hid : ((fun fused => fused.chunkId) ∘ fusedOf keyword vector rrfK) = id := rfl
  rw [hid, List.map_id]
  apply hids

/-- A chunk comes before another in the fusion when its fused candidate precedes the other. -/
theorem pair_sublist_reciprocalRankFusion_iff {a b : Uuid} :
  [a, b].Sublist ((reciprocalRankFusion (fun x => x) keyword vector rrfK).map fun fused =>
      fused.chunkId)
    ↔ (a ∈ chunkIds keyword ∨ a ∈ chunkIds vector) ∧ (b ∈ chunkIds keyword ∨ b ∈ chunkIds vector)
      ∧ a ≠ b ∧ (fusedOf keyword vector rrfK a).Precedes (fusedOf keyword vector rrfK b)
  := by
  obtain ⟨ids, hids, hmem⟩ := exists_ids keyword vector
  have hinjective : Function.Injective (fusedOf keyword vector rrfK) :=
    fun _ _ h => congrArg FusedCandidate.chunkId h
  have hpair : [a, b].Sublist ((reciprocalRankFusion (fun x => x) keyword vector rrfK).map
        fun fused => fused.chunkId)
      ↔ [fusedOf keyword vector rrfK a, fusedOf keyword vector rrfK b].Sublist
        (reciprocalRankFusion (fun x => x) keyword vector rrfK) := by
    have hfused : ((reciprocalRankFusion (fun x => x) keyword vector rrfK).map fun fused =>
          fused.chunkId).map (fusedOf keyword vector rrfK)
        = reciprocalRankFusion (fun x => x) keyword vector rrfK := by
      rw [List.map_map]
      apply (List.map_congr_left _).trans (List.map_id _)
      intro fused hmem
      apply ((mem_reciprocalRankFusion_iff hkeyword hvector).mp hmem).2.symm
    constructor
    · intro h
      rw [← hfused]
      apply h.map (fusedOf keyword vector rrfK)
    · intro h
      apply h.map fun fused => fused.chunkId
  rw [hpair, reciprocalRankFusion_eq hkeyword hvector hids hmem,
    List.pair_sublist_insertionSort_iff (hids.map hinjective) fusedOf_antisymm,
    List.mem_map_of_injective hinjective, List.mem_map_of_injective hinjective, hmem, hmem,
    hinjective.ne_iff]

/-- The fusion depends on the pairs of chunks and ranks only. -/
theorem reciprocalRankFusion_eq_of_perm {keyword' vector' : List RetrievalCandidate}
    (hkeywords : (rankPairs keyword').Perm (rankPairs keyword))
    (hvectors : (rankPairs vector').Perm (rankPairs vector)) :
  reciprocalRankFusion (fun x => x) keyword' vector' rrfK
    = reciprocalRankFusion (fun x => x) keyword vector rrfK
  := by
  obtain ⟨ids, hids, hmem⟩ := exists_ids keyword vector
  have hkeyword' : (chunkIds keyword').Nodup := (perm_chunkIds hkeywords).nodup_iff.mpr hkeyword
  have hvector' : (chunkIds vector').Nodup := (perm_chunkIds hvectors).nodup_iff.mpr hvector
  have hmem' : ∀ id, id ∈ ids ↔ id ∈ chunkIds keyword' ∨ id ∈ chunkIds vector' := by
    intro id
    rw [hmem, (perm_chunkIds hkeywords).mem_iff, (perm_chunkIds hvectors).mem_iff]
  have hfused : fusedOf keyword' vector' rrfK = fusedOf keyword vector rrfK := by
    funext id
    simp only [fusedOf, rankOf_eq_of_perm hkeyword hkeywords, rankOf_eq_of_perm hvector hvectors]
  rw [reciprocalRankFusion_eq hkeyword hvector hids hmem,
    reciprocalRankFusion_eq hkeyword' hvector' hids hmem', hfused]

/-- Exchanging the lists exchanges the ranks. -/
theorem map_swap_reciprocalRankFusion :
  (reciprocalRankFusion (fun x => x) keyword vector rrfK).map FusedCandidate.swap
    = reciprocalRankFusion (fun x => x) vector keyword rrfK
  := by
  obtain ⟨ids, hids, hmem⟩ := exists_ids keyword vector
  have hmem' : ∀ id, id ∈ ids ↔ id ∈ chunkIds vector ∨ id ∈ chunkIds keyword := by
    intro id
    rw [hmem, or_comm]
  rw [reciprocalRankFusion_eq hkeyword hvector hids hmem,
    reciprocalRankFusion_eq hvector hkeyword hids hmem',
    List.map_insertionSort FusedCandidate.Precedes FusedCandidate.Precedes]
  · rw [List.map_map]
    congr 1
    apply List.map_congr_left
    intro id _
    apply swap_fusedOf
  · intro a _ b _
    rfl

end Fusion

/-! ### Better ranks -/

/-- A chunk is a candidate when its rank is at least as good as that of one that is. -/
theorem mem_chunkIds_of_rankLe {candidates candidates' : List RetrievalCandidate} {a b : Uuid}
    (h : RankLe (rankOf candidates' a) (rankOf candidates b)) (hb : b ∈ chunkIds candidates) :
  a ∈ chunkIds candidates'
  := by
  by_contra ha
  rw [rankOf_eq_none_iff.mpr ha] at h
  cases hrank : rankOf candidates b with
  | none => exact absurd hb (rankOf_eq_none_iff.mp hrank)
  | some rank =>
      rw [hrank] at h
      cases h

section Dominance

variable {keyword vector keyword' vector' : List RetrievalCandidate} {rrfK : ℕ} {a b : Uuid}

/-- A chunk whose ranks are at least as good scores at least as much. -/
theorem score_fusedOf_le (hk : 1 ≤ rrfK) (hkeyword : RankLe (rankOf keyword' a) (rankOf keyword b))
    (hvector : RankLe (rankOf vector' a) (rankOf vector b)) :
  (fusedOf keyword vector rrfK b).score ≤ (fusedOf keyword' vector' rrfK a).score
  := add_le_add (reciprocal_le hk hkeyword) (reciprocal_le hk hvector)

/-- A chunk whose ranks are at least as good, and one of which is better, scores more. -/
theorem score_fusedOf_lt (hk : 1 ≤ rrfK) (hkeyword : RankLe (rankOf keyword a) (rankOf keyword b))
    (hvector : RankLe (rankOf vector a) (rankOf vector b))
    (hlt : RankLt (rankOf keyword a) (rankOf keyword b)
      ∨ RankLt (rankOf vector a) (rankOf vector b)) :
  (fusedOf keyword vector rrfK b).score < (fusedOf keyword vector rrfK a).score
  := by
  rcases hlt with hlt | hlt
  · apply add_lt_add_of_lt_of_le (reciprocal_lt hk hlt) (reciprocal_le hk hvector)
  · apply add_lt_add_of_le_of_lt (reciprocal_le hk hkeyword) (reciprocal_lt hk hlt)

/-- A chunk comes before one whose ranks are no better, and one of them worse. -/
theorem pair_sublist_of_rankLt (hk : 1 ≤ rrfK) (hnodup : (chunkIds keyword).Nodup)
    (hnodup' : (chunkIds vector).Nodup) (hb : b ∈ chunkIds keyword ∨ b ∈ chunkIds vector)
    (hkeyword : RankLe (rankOf keyword a) (rankOf keyword b))
    (hvector : RankLe (rankOf vector a) (rankOf vector b))
    (hlt : RankLt (rankOf keyword a) (rankOf keyword b)
      ∨ RankLt (rankOf vector a) (rankOf vector b)) :
  [a, b].Sublist (chunkOrder keyword vector rrfK)
  := by
  have hscore := score_fusedOf_lt hk hkeyword hvector hlt
  apply (pair_sublist_reciprocalRankFusion_iff hnodup hnodup').mpr
  refine ⟨?_, hb, ?_, Or.inl hscore⟩
  · apply hb.imp (mem_chunkIds_of_rankLe hkeyword) (mem_chunkIds_of_rankLe hvector)
  · rintro rfl
    exact lt_irrefl _ hscore

/-- A chunk stays before another when its ranks get better and those of the other remain. -/
theorem pair_sublist_of_rankLe (hk : 1 ≤ rrfK) (hnodup : (chunkIds keyword).Nodup)
    (hnodup' : (chunkIds vector).Nodup) (hnodups : (chunkIds keyword').Nodup)
    (hnodups' : (chunkIds vector').Nodup)
    (hkeyword : RankLe (rankOf keyword' a) (rankOf keyword a))
    (hvector : RankLe (rankOf vector' a) (rankOf vector a))
    (hkept : ∀ id ≠ a, rankOf keyword' id = rankOf keyword id ∧ rankOf vector' id = rankOf vector id)
    (h : [a, b].Sublist (chunkOrder keyword vector rrfK)) :
  [a, b].Sublist (chunkOrder keyword' vector' rrfK)
  := by
  obtain ⟨ha, hb, hne, hprecedes⟩ := (pair_sublist_reciprocalRankFusion_iff hnodup hnodup').mp h
  obtain ⟨hkeywordb, hvectorb⟩ := hkept b hne.symm
  have hfusedb : fusedOf keyword' vector' rrfK b = fusedOf keyword vector rrfK b := by
    simp only [fusedOf, hkeywordb, hvectorb]
  have hscore := score_fusedOf_le hk hkeyword hvector
  apply (pair_sublist_reciprocalRankFusion_iff hnodups hnodups').mpr
  refine ⟨?_, ?_, hne, ?_⟩
  · apply ha.imp (mem_chunkIds_of_rankLe hkeyword) (mem_chunkIds_of_rankLe hvector)
  · apply hb.imp <;> apply mem_chunkIds_of_rankLe
    · rw [hkeywordb]
      apply RankLe.refl
    · rw [hvectorb]
      apply RankLe.refl
  · rw [hfusedb]
    rcases hscore.lt_or_eq with hlt | heq
    · rcases hprecedes with hbefore | ⟨hsame, -⟩
      · exact Or.inl (hbefore.trans hlt)
      · exact Or.inl (hsame.trans_lt hlt)
    · rcases hprecedes with hbefore | ⟨hsame, htext⟩
      · exact Or.inl (hbefore.trans_eq heq)
      · exact Or.inr ⟨hsame.trans heq, htext⟩

end Dominance

/-! ### One list -/

/-- The ranks go up along ranked rows. -/
theorem pairwise_rankedFrom (n : ℕ) (rows : List (Uuid × Score)) :
  (rankedFrom n rows).Pairwise fun candidate candidate' => candidate.rank < candidate'.rank
  := by
  induction rows generalizing n with
  | nil => apply List.Pairwise.nil
  | cons row rows ih =>
      apply List.Pairwise.cons _ (ih (n + 1))
      intro candidate hcandidate
      apply lt_rank_of_mem_rankedFrom hcandidate

/-- The fusion of candidates with none is these, in the order of their ranks. -/
theorem reciprocalRankFusion_nil {candidates : List RetrievalCandidate} {rrfK : ℕ}
    (hk : 1 ≤ rrfK) (hnodup : (chunkIds candidates).Nodup)
    (hranks : candidates.Pairwise fun candidate candidate' => candidate.rank < candidate'.rank) :
  reciprocalRankFusion (fun x => x) candidates [] rrfK
    = candidates.map fun candidate =>
        ⟨candidate.chunkId, reciprocal rrfK (some candidate.rank), some candidate.rank, none⟩
  := by
  have hfused : (chunkIds candidates).map (fusedOf candidates [] rrfK)
      = candidates.map fun candidate =>
        ⟨candidate.chunkId, reciprocal rrfK (some candidate.rank), some candidate.rank, none⟩ := by
    rw [List.map_map]
    apply List.map_congr_left
    intro candidate hcandidate
    have hrank : rankOf candidates candidate.chunkId = some candidate.rank := by
      apply (rankOf_eq_some_iff hnodup).mpr
      apply List.mem_map_of_mem hcandidate
    have hnone : rankOf [] candidate.chunkId = none := rfl
    rw [Function.comp_apply, fusedOf, hrank, hnone]
    congr 1
    apply add_zero
  have hmem : ∀ id, id ∈ chunkIds candidates ↔ id ∈ chunkIds candidates ∨ id ∈ chunkIds [] := by
    intro id
    simp
  have hnil : (chunkIds []).Nodup := List.nodup_nil
  rw [reciprocalRankFusion_eq hnodup hnil hnodup hmem, hfused]
  apply List.Pairwise.insertionSort_eq
  apply List.pairwise_map.mpr
  apply hranks.imp
  intro candidate candidate' hlt
  apply Or.inl
  apply reciprocal_lt hk
  use hlt.le
  exact fun heq => hlt.ne (Option.some.inj heq)

/-- With exact scores a fusion has each chunk of either list once, with its two ranks and the sum of
what they contribute, strictly in order; it depends on the pairs of chunks and ranks only; and
exchanging the lists exchanges the ranks. -/
theorem fusion_of_ranks {keyword vector : List RetrievalCandidate} {rrfK : ℕ}
    (hkeyword : (chunkIds keyword).Nodup) (hvector : (chunkIds vector).Nodup) :
  let fusion := reciprocalRankFusion (fun x => x) keyword vector rrfK
  (fusion.map fun fused => fused.chunkId).Nodup
    ∧ (∀ id, id ∈ fusion.map (fun fused => fused.chunkId)
      ↔ id ∈ chunkIds keyword ∨ id ∈ chunkIds vector)
    ∧ (∀ fused ∈ fusion,
      (∀ rank, fused.keywordRank = some rank ↔ (fused.chunkId, rank) ∈ rankPairs keyword)
        ∧ (∀ rank, fused.vectorRank = some rank ↔ (fused.chunkId, rank) ∈ rankPairs vector)
        ∧ fused.score = reciprocal rrfK fused.keywordRank + reciprocal rrfK fused.vectorRank)
    ∧ fusion.Pairwise (fun a b => b.score < a.score
      ∨ b.score = a.score ∧ textLe a.chunkId.text b.chunkId.text = true
        ∧ a.chunkId.text ≠ b.chunkId.text)
    ∧ (∀ keyword' vector', (rankPairs keyword').Perm (rankPairs keyword) →
      (rankPairs vector').Perm (rankPairs vector) →
        reciprocalRankFusion (fun x => x) keyword' vector' rrfK = fusion)
    ∧ reciprocalRankFusion (fun x => x) vector keyword rrfK = fusion.map FusedCandidate.swap
  := by
  intro fusion
  have hnodup : (fusion.map fun fused => fused.chunkId).Nodup :=
    nodup_reciprocalRankFusion hkeyword hvector
  refine ⟨hnodup, ?_, ?_, ?_, ?_, ?_⟩
  · intro id
    constructor
    · intro h
      obtain ⟨fused, hfused, rfl⟩ := List.mem_map.mp h
      apply ((mem_reciprocalRankFusion_iff hkeyword hvector).mp hfused).1
    · intro h
      apply List.mem_map.mpr
      use fusedOf keyword vector rrfK id
      use (mem_reciprocalRankFusion_iff hkeyword hvector).mpr ⟨h, rfl⟩
      rfl
  · intro fused hfused
    obtain ⟨-, hfields⟩ := (mem_reciprocalRankFusion_iff hkeyword hvector).mp hfused
    rw [hfields]
    use fun rank => rankOf_eq_some_iff hkeyword, fun rank => rankOf_eq_some_iff hvector
    rfl
  · have hsorted : fusion.Pairwise FusedCandidate.Precedes := List.pairwise_insertionSort _ _
    have hdistinct := List.pairwise_map.mp hnodup
    apply (hsorted.and hdistinct).imp
    rintro a b ⟨hlt | ⟨hscore, htext⟩, hne⟩
    · exact Or.inl hlt
    · exact Or.inr ⟨hscore, htext, fun heq => hne (Uuid.text_injective heq)⟩
  · intro keyword' vector' hkeywords hvectors
    apply reciprocalRankFusion_eq_of_perm hkeyword hvector hkeywords hvectors
  · apply (map_swap_reciprocalRankFusion hkeyword hvector).symm

/-- Two candidates of the keyword search, the second of which the vector search finds too. -/
def sampleKeywords : List RetrievalCandidate :=
  [⟨1, 1, 0, Nat.le_refl 1⟩, ⟨2, 2, 0, Nat.le_succ 1⟩]

def sampleVectors : List RetrievalCandidate :=
  [⟨2, 1, 0, Nat.le_refl 1⟩]

/-- The fusion of the candidates exchanged. -/
theorem fusion_of_ranks_sample :
  reciprocalRankFusion (fun x => x) sampleVectors sampleKeywords 60
    = (reciprocalRankFusion (fun x => x) sampleKeywords sampleVectors 60).map FusedCandidate.swap
  := by
  obtain ⟨-, -, -, -, -, hswap⟩ :=
    @fusion_of_ranks sampleKeywords sampleVectors 60 (by decide) (by decide)
  apply hswap

end KnowledgeSearch

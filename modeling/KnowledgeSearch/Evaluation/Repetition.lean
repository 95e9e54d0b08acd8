import KnowledgeSearch.Evaluation.Metrics
import Mathlib.Data.List.InsertIdx

/-!
# Repeated locations

A location that is repeated in a ranking gets the relevance zero and puts off those after it. So
the relevances of the ranking are those without it, with a zero inserted, and no metric goes up.
-/

namespace KnowledgeSearch

/-! ### Insertions -/

/-- The first members of a list, one of which was inserted. -/
theorem List.take_insertIdx {α : Type*} {l : List α} {p k : ℕ} (a : α) (h : p ≤ k) :
  (l.insertIdx p a).take (k + 1) = (l.take k).insertIdx p a
  := by
  induction l generalizing p k with
  | nil =>
      cases p with
      | zero => simp
      | succ p => simp
  | cons b l ih =>
      cases p with
      | zero => rfl
      | succ p =>
          cases k with
          | zero => omega
          | succ k =>
              rw [List.insertIdx_succ_cons, List.take_succ_cons, ih (by omega),
                List.take_succ_cons, List.insertIdx_succ_cons]

/-- Where a member of the list is inserted after itself, the first members are as before. -/
theorem List.mem_take_insertIdx_iff {α : Type*} {l : List α} {p k : ℕ} {a b : α}
    (ha : a ∈ l.take p) (h : p ≤ k) :
  b ∈ (l.insertIdx p a).take (k + 1) ↔ b ∈ l.take k
  := by
  rw [List.take_insertIdx a h]
  constructor
  · intro hb
    rcases List.eq_or_mem_of_mem_insertIdx hb with rfl | hb
    · apply (List.take_subset_take_left l h) ha
    · apply hb
  · intro hb
    apply List.subset_insertIdx _ _ _ hb

section Zero

variable {K : Type*} [AddCommMonoid K] [PartialOrder K] [IsOrderedAddMonoid K] {f : ℤ → K}

/-- With a zero inserted, the first members have no greater values in sum. -/
theorem sum_take_insertIdx_le (hf : f 0 = 0) (p k : ℕ) {l : List ℤ} (hl : ∀ x ∈ l, 0 ≤ f x) :
  (((l.insertIdx p 0).take k).map f).sum ≤ ((l.take k).map f).sum
  := by
  induction l generalizing p k with
  | nil =>
      cases p with
      | zero =>
          cases k with
          | zero => exact le_refl 0
          | succ k => simp [hf]
      | succ p => exact le_refl _
  | cons x l ih =>
      obtain ⟨hx, hrest⟩ := List.forall_mem_cons.mp hl
      cases k with
      | zero => exact le_refl 0
      | succ k =>
          cases p with
          | zero =>
              -- The zero comes first, and the last of the members falls away.
              rw [List.insertIdx_zero, List.take_succ_cons, List.map_cons, List.sum_cons, hf,
                zero_add]
              apply List.Sublist.sum_le_sum
              · apply (List.take_prefix_take_left k.le_succ).sublist.map f
              · intro y hy
                obtain ⟨z, hz, rfl⟩ := List.mem_map.mp hy
                apply hl z (List.mem_of_mem_take hz)
          | succ p =>
              rw [List.insertIdx_succ_cons, List.take_succ_cons, List.take_succ_cons, List.map_cons,
                List.map_cons, List.sum_cons, List.sum_cons]
              exact add_le_add_right (ih p k hrest) (f x)

end Zero

/-- With a zero inserted, a positive number is no earlier. -/
theorem exists_getD_pos_of_insertIdx (p : ℕ) {l : List ℤ} {i : ℕ}
    (h : 0 < (l.insertIdx p 0).getD i 0) :
  ∃ j ≤ i, 0 < l.getD j 0
  := by
  rw [List.getD_eq_getElem?_getD, List.getElem?_insertIdx] at h
  split at h
  · use i, le_refl i
    rw [List.getD_eq_getElem?_getD]
    apply h
  · split at h
    · split at h
      · cases h
      · cases h
    · use i - 1, Nat.sub_le i 1
      rw [List.getD_eq_getElem?_getD]
      apply h

/-! ### Grades of a ranking with a repetition -/

/-- A repeated location gets the grade zero, and the others keep theirs. -/
theorem grades_insertIdx {κ : Type*} [DecidableEq κ] (grade : κ → ℤ) {p : ℕ} {ranking : List κ}
    {location : κ} (h : location ∈ ranking.take p) :
  grades grade (ranking.insertIdx p location) = (grades grade ranking).insertIdx p 0
  := by
  apply List.ext_getElem?
  intro i
  rw [getElem?_grades, List.getElem?_insertIdx, List.getElem?_insertIdx, length_grades]
  split
  · rename_i hlt
    rw [getElem?_grades, List.take_insertIdx_eq_take_of_le ranking location i p hlt.le]
  · split
    · rename_i heq
      rw [List.take_insertIdx_eq_take_of_le ranking location i p heq.le]
      split
      · rw [Option.map_some, if_pos (heq ▸ h)]
      · rfl
    · rename_i hle hne
      obtain ⟨k, rfl⟩ : ∃ k, i = k + 1 := ⟨i - 1, by omega⟩
      rw [getElem?_grades, Nat.add_sub_cancel]
      simp only [List.mem_take_insertIdx_iff h (by omega : p ≤ k)]

/-! ### The first relevant rank -/

theorem getD_pos_of_firstRelevant {relevances : List ℤ} {rank : ℕ}
    (h : firstRelevant relevances = some rank) :
  0 < relevances.getD (rank - 1) 0
  := by
  rw [firstRelevant, Option.map_eq_some_iff] at h
  obtain ⟨⟨relevance, place⟩, hfind, rfl⟩ := h
  have hpos : 0 < relevance := by simpa using List.find?_some hfind
  obtain ⟨hle, hlt, hget⟩ := List.mem_zipIdx (List.mem_of_find?_eq_some hfind)
  rw [List.getD_eq_getElem _ _ (by omega), ← hget]
  apply hpos

/-- The first relevant rank is no later than that of any relevant location. -/
theorem exists_firstRelevant_le {relevances : List ℤ} {i : ℕ} (h : 0 < relevances.getD i 0) :
  ∃ rank ≤ i + 1, firstRelevant relevances = some rank
  := by
  have hfrom : ∀ (l : List ℤ) (first i : ℕ), 0 < l.getD i 0 →
      ∃ rank ≤ i + first, ((l.zipIdx first).find? fun entry => 0 < entry.1).map Prod.snd
        = some rank := by
    intro l
    induction l with
    | nil =>
        intro first i h
        cases h
    | cons x l ih =>
        intro first i h
        rw [List.zipIdx_cons, List.find?_cons]
        by_cases hx : 0 < x
        · use first, Nat.le_add_left first i
          simp [hx]
        · cases i with
          | zero => exact absurd h hx
          | succ i =>
              obtain ⟨rank, hle, hfind⟩ := ih (first + 1) i h
              use rank, by omega
              simpa [hx] using hfind
  apply hfrom relevances 1 i h

/-- With a zero inserted, the first relevant rank among the first ones is no earlier. -/
theorem exists_firstRelevant_of_insertIdx {p k rank : ℕ} {relevances : List ℤ}
    (h : firstRelevant ((relevances.insertIdx p 0).take k) = some rank) :
  ∃ rank' ≤ rank, firstRelevant (relevances.take k) = some rank'
  := by
  have hone := one_le_of_firstRelevant h
  have hpos := getD_pos_of_firstRelevant h
  have hlt : rank - 1 < k := by
    by_contra hle
    rw [List.getD_eq_default] at hpos
    · cases hpos
    · rw [List.length_take]
      omega
  rw [List.getD_eq_getElem?_getD, List.getElem?_take_of_lt hlt, ← List.getD_eq_getElem?_getD] at hpos
  obtain ⟨j, hj, hpos⟩ := exists_getD_pos_of_insertIdx p hpos
  have htake : 0 < (relevances.take k).getD j 0 := by
    rw [List.getD_eq_getElem?_getD, List.getElem?_take_of_lt (by omega), ← List.getD_eq_getElem?_getD]
    apply hpos
  obtain ⟨rank', hle, hfirst⟩ := exists_firstRelevant_le htake
  use rank', by omega

/-! ### The scores -/

section Scores

variable {K : Type*} [Field K] [LinearOrder K] [IsStrictOrderedRing K]

/-- The share of the locations found, which is zero when none is judged. -/
theorem recallScore_eq (relevances : Table (Prod.fst : LocationKey × ℤ → LocationKey))
    (seen : Finset LocationKey) :
  recallScore K relevances seen
    = .ok ((seen.filter fun location => (relevances.get location).isSome).card
      / relevances.rows.length)
  := by
  rw [recallScore]
  by_cases h : relevances.rows = []
  · rw [if_neg (not_not.mpr h), h, List.length_nil, Nat.cast_zero, div_zero]
  · rw [if_pos h, divide, if_neg]
    exact Nat.cast_ne_zero.mpr (List.length_pos_iff.mpr h).ne'

/-- The reciprocal of the first relevant rank, zero when there is none. -/
theorem reciprocalRank_eq (relevances : List ℤ) :
  reciprocalRank K relevances
    = .ok (((firstRelevant relevances).map fun rank : ℕ => (1 / rank : K)).getD 0)
  := by
  rw [reciprocalRank]
  cases h : firstRelevant relevances with
  | none => rfl
  | some rank =>
      have hrank : (rank : K) ≠ 0 := by
        have hone := one_le_of_firstRelevant h
        exact Nat.cast_ne_zero.mpr (by omega)
      exact if_neg hrank

omit [IsStrictOrderedRing K] in
theorem ndcg_eq (dcg idealDcg : K) :
  ndcg dcg idealDcg = .ok (dcg / idealDcg)
  := by
  rw [ndcg]
  by_cases h : idealDcg = 0
  · rw [if_neg (not_not.mpr h), h, div_zero]
  · rw [if_pos h, divide, if_neg h]

/-- The metrics of a ranking. -/
theorem evaluateRanking_eq (discount : ℕ → K) (ranked : List RankedLocation)
    (relevant : List RelevantLocation) {limit : ℤ} (hlimit : 1 ≤ limit) :
  let locations := (ranked.take limit.toNat).map RankedLocation.key
  let relevances := grades (judgedRelevance relevant) locations
  evaluateRanking discount ranked relevant limit
    = .ok ⟨(locations.toFinset.filter fun location =>
          ((relevanceByLocation relevant).get location).isSome).card
        / (relevanceByLocation relevant).rows.length,
      ((firstRelevant relevances).map fun rank : ℕ => (1 / rank : K)).getD 0,
      discountedGain discount relevances
        / discountedGain discount
          (idealGrades (judgedRelevance relevant) (judgedLocations relevant) limit)⟩
  := by
  intro locations relevances
  rw [evaluateRanking, if_neg (not_lt.mpr hlimit)]
  dsimp only
  rw [retrieve_eq, recallScore_eq, reciprocalRank_eq, idealRelevances_eq, ndcg_eq]
  rfl

/-- With a zero inserted, the first relevances have no greater gain. -/
theorem discountedGain_insertIdx_le {discount : ℕ → K} (hdiscount : IsDiscount discount)
    (p k : ℕ) {relevances : List ℤ} (h : ∀ relevance ∈ relevances, 0 ≤ relevance) :
  discountedGain discount ((relevances.insertIdx p 0).take k)
    ≤ discountedGain discount (relevances.take k)
  := by
  have hgain : ∀ relevance ∈ relevances, 0 ≤ gain K relevance := by
    intro relevance hmem
    rw [← gain_zero (K := K)]
    apply gain_strictMono.monotone (h relevance hmem)
  have hdominated : Dominated k (fun i => gain K (((relevances.insertIdx p 0).take k).getD i 0))
      (fun i => gain K ((relevances.take k).getD i 0)) := by
    intro m hm
    rw [sum_range_getD gain_zero, sum_range_getD gain_zero, List.take_take, List.take_take,
      min_eq_left hm]
    apply sum_take_insertIdx_le gain_zero p m hgain
  have hweight : Antitone fun i => discount (i + 1) := by
    intro i j hij
    apply hdiscount.strictAnti.antitoneOn (Set.mem_Ici.mpr i.succ_pos) (Set.mem_Ici.mpr j.succ_pos)
    apply Nat.succ_le_succ hij
  rw [discountedGain_eq discount (List.length_take_le k _),
    discountedGain_eq discount (List.length_take_le k _)]
  apply hdominated.sum_mul_le hweight
  exact (hdiscount.pos _ (Nat.succ_pos _)).le

/-- The locations among the first of a ranking with a repetition are among the first without it. -/
theorem take_insertIdx_subset {κ : Type*} {ranking : List κ} {p k : ℕ} {location : κ}
    (h : location ∈ ranking.take p) :
  (ranking.insertIdx p location).take k ⊆ ranking.take k
  := by
  intro key hkey
  rcases le_or_gt k p with hle | hlt
  · rw [List.take_insertIdx_eq_take_of_le ranking location k p hle] at hkey
    apply hkey
  · obtain ⟨k, rfl⟩ : ∃ m, k = m + 1 := ⟨k - 1, by omega⟩
    rw [List.mem_take_insertIdx_iff h (by omega : p ≤ k)] at hkey
    apply (List.take_subset_take_left ranking k.le_succ) hkey

/-- Whatever the judgements, a location that is inserted after itself makes none of the metrics
greater. -/
theorem evaluateRanking_insertIdx_le {discount : ℕ → K} (hdiscount : IsDiscount discount)
    {ranked : List RankedLocation} (relevant : List RelevantLocation) {limit : ℤ}
    (hlimit : 1 ≤ limit) {p : ℕ} {location : RankedLocation} (h : location ∈ ranked.take p) :
  ∃ metrics repeated, evaluateRanking discount ranked relevant limit = .ok metrics
    ∧ evaluateRanking discount (ranked.insertIdx p location) relevant limit = .ok repeated
    ∧ repeated.recallAtK ≤ metrics.recallAtK
    ∧ repeated.reciprocalRank ≤ metrics.reciprocalRank
    ∧ repeated.ndcgAtK ≤ metrics.ndcgAtK
  := by
  set keys := ranked.map RankedLocation.key with hkeys
  have hgrading := isGrading_judgedRelevance relevant
  have hrepeated : location.key ∈ keys.take p := by
    rw [hkeys, ← List.map_take]
    apply List.mem_map_of_mem h
  have hlocations : ((ranked.insertIdx p location).take limit.toNat).map RankedLocation.key
      = (keys.insertIdx p location.key).take limit.toNat := by
    rw [List.map_take, List.map_insertIdx]
  have hgrades : grades (judgedRelevance relevant)
      ((keys.insertIdx p location.key).take limit.toNat)
        = ((grades (judgedRelevance relevant) keys).insertIdx p 0).take limit.toNat := by
    rw [← take_grades, grades_insertIdx _ hrepeated]
  have hnonneg : ∀ relevance ∈ grades (judgedRelevance relevant) keys, 0 ≤ relevance := by
    intro relevance hmem
    obtain ⟨i, hi, rfl⟩ := List.getElem_of_mem hmem
    rw [← List.getD_eq_getElem _ 0 hi]
    apply hgrading.getD_grades_nonneg
  refine ⟨_, _, evaluateRanking_eq discount ranked relevant hlimit,
    evaluateRanking_eq discount _ relevant hlimit, ?_, ?_, ?_⟩
  · dsimp only
    rw [hlocations, List.map_take, ← hkeys]
    apply div_le_div_of_nonneg_right _ (Nat.cast_nonneg _)
    apply Nat.cast_le.mpr
    apply Finset.card_le_card
    apply Finset.filter_subset_filter
    intro key hkey
    rw [List.mem_toFinset] at hkey ⊢
    apply take_insertIdx_subset hrepeated hkey
  · dsimp only
    rw [hlocations, hgrades, List.map_take, ← hkeys, ← take_grades]
    cases hfirst : firstRelevant (((grades (judgedRelevance relevant) keys).insertIdx p 0).take
        limit.toNat) with
    | none =>
        obtain ⟨score, hscore, hrank⟩ := exists_reciprocalRank (K := K)
          ((grades (judgedRelevance relevant) keys).take limit.toNat)
        rw [reciprocalRank_eq, Except.ok.injEq] at hrank
        rw [hrank]
        apply hscore.1
    | some rank =>
        obtain ⟨rank', hle, hfirst'⟩ := exists_firstRelevant_of_insertIdx hfirst
        have hone := one_le_of_firstRelevant hfirst'
        rw [hfirst']
        apply one_div_le_one_div_of_le
        · exact Nat.cast_pos.mpr hone
        · exact Nat.cast_le.mpr hle
  · dsimp only
    rw [hlocations, hgrades, List.map_take, ← hkeys, ← take_grades]
    apply div_le_div_of_nonneg_right (discountedGain_insertIdx_le hdiscount p _ hnonneg)
    have hlen : ([] : List LocationKey).length ≤ limit.toNat := Nat.zero_le _
    apply le_trans _ (hgrading.discountedGain_le hdiscount hlen).1
    apply hgrading.discountedGain_nonneg hdiscount

end Scores

/-- A ranking whose only hit is repeated before another. -/
theorem evaluateRanking_insertIdx_le_sample :
  ∃ metrics repeated : EvaluationMetrics ℚ,
    evaluateRanking (fun rank => (1 / rank : ℚ)) sampleRanking sampleJudgements 3 = .ok metrics
      ∧ evaluateRanking (fun rank => (1 / rank : ℚ))
        (sampleRanking.insertIdx 2 ⟨"b.md".toList, [], none⟩) sampleJudgements 3 = .ok repeated
      ∧ repeated.ndcgAtK ≤ metrics.ndcgAtK
  := by
  have hmem : ⟨"b.md".toList, [], none⟩ ∈ sampleRanking.take 2 := by
    rw [sampleRanking]
    simp
  obtain ⟨metrics, repeated, hmetrics, hrepeated, -, -, hndcg⟩ :=
    evaluateRanking_insertIdx_le isDiscount_sample sampleJudgements (by decide : (1 : ℤ) ≤ 3) hmem
  use metrics, repeated

end KnowledgeSearch

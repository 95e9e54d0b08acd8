import KnowledgeSearch.Domain.Text
import KnowledgeSearch.Foundations.Majorization
import KnowledgeSearch.Foundations.Sorting
import KnowledgeSearch.Foundations.Table
import Mathlib.Algebra.Order.BigOperators.Group.Finset
import Mathlib.Algebra.Order.Field.Basic
import Mathlib.Algebra.Order.Field.Power
import Mathlib.Data.Finset.Basic
import Mathlib.Data.Int.ConditionallyCompleteOrder
import Mathlib.Data.List.GetD
import Mathlib.Tactic.NormNum

/-!
# Evaluation metrics

`evaluateRanking` scores a ranking against judged locations by recall, reciprocal rank and
normalised discounted cumulative gain. The arithmetic is exact, over an ordered field, and a
positive decreasing `discount` stands for the reciprocal of the logarithm of the rank.

`grades` says what the relevances of a ranking are in terms of the judgements, and `idealGrades`
what they are at best. The loop of `evaluateRanking` computes them, and `evaluateRanking_proper`
compares them.
-/

namespace KnowledgeSearch

/-- The exceptions of the evaluation. -/
inductive EvaluationError where
  | value (message : String)
  | zeroDivision
  deriving DecidableEq

/-- What locations are compared by. -/
abbrev LocationKey := Text × List Text × Option ℤ

/-- The key of a location. -/
def locationKey (filename : Text) (sectionPath : List Text) (pageNumber : Option ℤ) : LocationKey :=
  (filename, sectionPath, pageNumber)

/-- A location judged to be relevant. -/
structure RelevantLocation where
  filename : Text
  sectionPath : List Text
  pageNumber : Option ℤ
  relevance : ℤ
  valid : ¬relevance < 1

/-- The constructor of `RelevantLocation`. -/
def RelevantLocation.construct (filename : Text) (sectionPath : List Text)
    (pageNumber : Option ℤ) (relevance : ℤ) : Except EvaluationError RelevantLocation :=
  if h : relevance < 1 then .error (.value "relevance must be greater than zero")
  else .ok ⟨filename, sectionPath, pageNumber, relevance, h⟩

/-- A location of a ranking. -/
structure RankedLocation where
  filename : Text
  sectionPath : List Text
  pageNumber : Option ℤ

/-- The key of a judged location. -/
def RelevantLocation.key (item : RelevantLocation) : LocationKey :=
  locationKey item.filename item.sectionPath item.pageNumber

/-- The key of a ranked location. -/
def RankedLocation.key (item : RankedLocation) : LocationKey :=
  locationKey item.filename item.sectionPath item.pageNumber

structure EvaluationMetrics (K : Type*) where
  recallAtK : K
  reciprocalRank : K
  ndcgAtK : K
  deriving DecidableEq

/-! ### The computation -/

/-- The dictionary of the relevances, a later judgement of a location in place of an earlier. -/
def relevanceByLocation (relevant : List RelevantLocation) :
    Table (Prod.fst : LocationKey × ℤ → LocationKey) :=
  Table.empty.putAll (relevant.map fun item => (item.key, item.relevance))

/-- The state of the loop over the retrieved locations. -/
structure Retrieved where
  seen : Finset LocationKey
  relevances : List ℤ

/-- One round of the loop. -/
def Retrieved.add (relevances : Table (Prod.fst : LocationKey × ℤ → LocationKey))
    (state : Retrieved) (location : LocationKey) : Retrieved where
  seen := insert location state.seen
  relevances := state.relevances
    ++ [if location ∉ state.seen then ((relevances.get location).map Prod.snd).getD 0 else 0]

/-- The loop over the retrieved locations. -/
def retrieve (relevances : Table (Prod.fst : LocationKey × ℤ → LocationKey))
    (locations : List LocationKey) : Retrieved :=
  locations.foldl (Retrieved.add relevances) ⟨∅, []⟩

/-- The first rank with a relevant location. -/
def firstRelevant (relevances : List ℤ) : Option ℕ :=
  ((relevances.zipIdx 1).find? fun entry => 0 < entry.1).map Prod.snd

/-- The relevances of the best ranking. -/
def idealRelevances (relevances : Table (Prod.fst : LocationKey × ℤ → LocationKey)) (limit : ℤ) :
    List ℤ :=
  ((relevances.rows.map Prod.snd).insertionSort (· ≥ ·)).take limit.toNat

section Gain

variable {K : Type*} [Field K] [LinearOrder K]

/-- Division, which raises on a zero divisor. -/
def divide (x y : K) : Except EvaluationError K :=
  if y = 0 then .error .zeroDivision else .ok (x / y)

/-- The gain of a relevance. -/
def gain (K : Type*) [Field K] (relevance : ℤ) : K :=
  2 ^ relevance - 1

/-- The discounted gain of a list of relevances. -/
def discountedGain (discount : ℕ → K) (relevances : List ℤ) : K :=
  (relevances.zipIdx 1).foldl (fun total entry => total + gain K entry.1 * discount entry.2) 0

/-- The share of the judged locations that were found. -/
def recallScore (K : Type*) [Field K] [LinearOrder K]
    (relevances : Table (Prod.fst : LocationKey × ℤ → LocationKey)) (seen : Finset LocationKey) :
    Except EvaluationError K :=
  let found := (seen.filter fun location => (relevances.get location).isSome).card
  if relevances.rows ≠ [] then divide (found : K) (relevances.rows.length : K) else .ok 0

/-- The reciprocal of the first rank with a relevant location. -/
def reciprocalRank (K : Type*) [Field K] [LinearOrder K] (relevances : List ℤ) :
    Except EvaluationError K :=
  match firstRelevant relevances with
  | some rank => divide 1 (rank : K)
  | none => .ok 0

/-- The discounted gain in relation to the ideal one. -/
def ndcg (dcg idealDcg : K) : Except EvaluationError K :=
  if idealDcg ≠ 0 then divide dcg idealDcg else .ok 0

/-- The metrics of the first `limit` locations of a ranking. -/
def evaluateRanking (discount : ℕ → K) (ranked : List RankedLocation)
    (relevant : List RelevantLocation) (limit : ℤ) :
    Except EvaluationError (EvaluationMetrics K) := do
  if limit < 1 then
    throw (.value "evaluation limit must be greater than zero")
  let relevances := relevanceByLocation relevant
  let retrievedKeys := (ranked.take limit.toNat).map RankedLocation.key
  let retrieved := retrieve relevances retrievedKeys
  let recallAtK ← recallScore K relevances retrieved.seen
  let reciprocalRank ← reciprocalRank K retrieved.relevances
  let dcg := discountedGain discount retrieved.relevances
  let idealDcg := discountedGain discount (idealRelevances relevances limit)
  let ndcgAtK ← ndcg dcg idealDcg
  return ⟨recallAtK, reciprocalRank, ndcgAtK⟩

end Gain

/-! ### Grades -/

section Grades

variable {κ : Type*} [DecidableEq κ] {grade : κ → ℤ} {judged : List κ}

/-- The relevances of a ranking when a location counts where it occurs first. -/
def grades (grade : κ → ℤ) (ranking : List κ) : List ℤ :=
  ranking.mapIdx fun i location => if location ∈ ranking.take i then 0 else grade location

/-- The `limit` greatest grades of the judged locations, in decreasing order. -/
def idealGrades (grade : κ → ℤ) (judged : List κ) (limit : ℤ) : List ℤ :=
  ((judged.map grade).insertionSort (· ≥ ·)).take limit.toNat

@[simp]
theorem length_grades (grade : κ → ℤ) (ranking : List κ) :
  (grades grade ranking).length = ranking.length
  := List.length_mapIdx

theorem getElem?_grades (grade : κ → ℤ) (ranking : List κ) (i : ℕ) :
  (grades grade ranking)[i]?
    = ranking[i]?.map fun location => if location ∈ ranking.take i then 0 else grade location
  := List.getElem?_mapIdx

theorem grades_concat (grade : κ → ℤ) (ranking : List κ) (location : κ) :
  grades grade (ranking ++ [location])
    = grades grade ranking ++ [if location ∈ ranking then 0 else grade location]
  := by
  rw [grades, List.mapIdx_concat, List.take_left]
  congr 1
  rw [grades, List.mapIdx_eq_mapIdx_iff]
  intro i hi
  rw [List.take_append_of_le_length hi.le]

theorem take_grades (grade : κ → ℤ) (ranking : List κ) (k : ℕ) :
  (grades grade ranking).take k = grades grade (ranking.take k)
  := by
  apply List.ext_getElem?
  intro i
  rw [getElem?_grades, List.getElem?_take, List.getElem?_take]
  split
  · rename_i hi
    rw [getElem?_grades, List.take_take, min_eq_left hi.le]
  · rfl

/-- The gains of a ranking are those of the locations in it. -/
theorem sum_gain_grades {K : Type*} [AddCommMonoid K] {f : ℤ → K} (hf : f 0 = 0)
    (ranking : List κ) :
  ((grades grade ranking).map f).sum = ∑ location ∈ ranking.toFinset, f (grade location)
  := by
  induction ranking using List.reverseRecOn with
  | nil => rfl
  | append_singleton ranking location ih =>
      have hset : (ranking ++ [location]).toFinset = insert location ranking.toFinset := by
        ext key
        simp
      rw [grades_concat, List.map_append, List.sum_append, ih, List.map_singleton,
        List.sum_singleton, hset]
      split
      · rename_i h
        rw [hf, add_zero, Finset.insert_eq_of_mem (List.mem_toFinset.mpr h)]
      · rename_i h
        rw [Finset.sum_insert (fun hmem => h (List.mem_toFinset.mp hmem)), add_comm]

/-- The gains of a ranking are at most those of as many best judged locations. -/
theorem sum_gain_grades_le {K : Type*} [AddCommMonoid K] [LinearOrder K] [IsOrderedAddMonoid K]
    {f : ℤ → K} (hf : f 0 = 0) (hmono : Monotone f) (hpos : ∀ key ∈ judged, 0 ≤ grade key)
    (hout : ∀ key ∉ judged, grade key = 0) {ranking : List κ} {k : ℕ} (hlen : ranking.length ≤ k) :
  ((grades grade ranking).map f).sum
    ≤ ((((judged.map grade).insertionSort (· ≥ ·)).take k).map f).sum
  := by
  have hsort := List.perm_insertionSort (· ≥ ·) (judged.map grade)
  have hsub : ((ranking.toFinset.filter (· ∈ judged)).toList.map grade).Subperm
      ((judged.map grade).insertionSort (· ≥ ·)) := by
    apply List.Subperm.trans _ hsort.symm.subperm
    apply List.Subperm.image
    apply List.subperm_of_subset (Finset.nodup_toList _)
    intro key hkey
    exact (Finset.mem_filter.mp (Finset.mem_toList.mp hkey)).2
  calc ((grades grade ranking).map f).sum
      = ∑ location ∈ ranking.toFinset, f (grade location) := sum_gain_grades hf ranking
    _ = ∑ location ∈ ranking.toFinset.filter (· ∈ judged), f (grade location) := by
        symm
        apply Finset.sum_filter_of_ne
        intro key _ hne
        by_contra hkey
        rw [hout key hkey] at hne
        exact hne hf
    _ = (((ranking.toFinset.filter (· ∈ judged)).toList.map grade).map f).sum := by
        rw [List.map_map, ← Finset.sum_map_toList]
        rfl
    _ ≤ ((((judged.map grade).insertionSort (· ≥ ·)).map f).take k).sum := by
        apply List.Subperm.sum_le_sum_take (hsub.image f)
        · rw [List.length_map, List.length_map, Finset.length_toList]
          apply (Finset.card_filter_le _ _).trans ((List.toFinset_card_le ranking).trans hlen)
        · rw [List.pairwise_map]
          apply (List.pairwise_insertionSort (· ≥ ·) (judged.map grade)).imp
          intro a b hab
          apply hmono hab
        · intro x hx
          obtain ⟨relevance, hmem, rfl⟩ := List.mem_map.mp hx
          obtain ⟨key, hkey, rfl⟩ := List.mem_map.mp (hsort.mem_iff.mp hmem)
          rw [← hf]
          apply hmono (hpos key hkey)
    _ = ((((judged.map grade).insertionSort (· ≥ ·)).take k).map f).sum := by
        rw [List.map_take]

end Grades

/-! ### What the computation computes -/

/-- The relevance a location was last judged to have, zero for a location that was not judged. -/
def judgedRelevance (relevant : List RelevantLocation) (location : LocationKey) : ℤ :=
  ((relevant.reverse.find? fun item => item.key = location).map RelevantLocation.relevance).getD 0

/-- The judged locations. -/
def judgedLocations (relevant : List RelevantLocation) : List LocationKey :=
  (relevant.map RelevantLocation.key).dedup

theorem get_relevanceByLocation (relevant : List RelevantLocation) (location : LocationKey) :
  ((relevanceByLocation relevant).get location).map Prod.snd
    = (relevant.reverse.find? fun item => item.key = location).map RelevantLocation.relevance
  := by
  rw [relevanceByLocation, Table.get_putAll, Table.get_empty, Option.or_none, ← List.map_reverse,
    List.find?_map, Option.map_map]
  rfl

theorem mem_judgedLocations_iff {relevant : List RelevantLocation} {location : LocationKey} :
  location ∈ judgedLocations relevant ↔ ∃ item ∈ relevant, item.key = location
  := by
  rw [judgedLocations, List.mem_dedup, List.mem_map]

theorem one_le_judgedRelevance {relevant : List RelevantLocation} {location : LocationKey}
    (h : location ∈ judgedLocations relevant) :
  1 ≤ judgedRelevance relevant location
  := by
  obtain ⟨item, hitem, hkey⟩ := mem_judgedLocations_iff.mp h
  rw [judgedRelevance]
  cases hfind : relevant.reverse.find? fun item => item.key = location with
  | none =>
      have hnone := List.find?_eq_none.mp hfind item (List.mem_reverse.mpr hitem)
      exact absurd hkey (by simpa using hnone)
  | some last => exact not_lt.mp last.valid

theorem judgedRelevance_eq_zero {relevant : List RelevantLocation} {location : LocationKey}
    (h : location ∉ judgedLocations relevant) :
  judgedRelevance relevant location = 0
  := by
  have hfind : (relevant.reverse.find? fun item => item.key = location) = none := by
    rw [List.find?_eq_none]
    intro item hitem hkey
    apply h
    rw [mem_judgedLocations_iff]
    use item, List.mem_reverse.mp hitem
    simpa using hkey
  rw [judgedRelevance, hfind]
  rfl

/-- The keys of the dictionary are the judged locations. -/
theorem perm_judgedLocations (relevant : List RelevantLocation) :
  ((relevanceByLocation relevant).rows.map Prod.fst).Perm (judgedLocations relevant)
  := by
  have hnodup : (judgedLocations relevant).Nodup := List.nodup_dedup _
  rw [List.perm_ext_iff_of_nodup (relevanceByLocation relevant).nodup hnodup]
  intro location
  rw [List.mem_map]
  constructor
  · rintro ⟨entry, hentry, rfl⟩
    rcases Table.mem_of_mem_putAll hentry with hmem | hmem
    · obtain ⟨item, hitem, rfl⟩ := List.mem_map.mp hmem
      apply mem_judgedLocations_iff.mpr ⟨item, hitem, rfl⟩
    · exact absurd hmem (Table.not_mem_empty entry)
  · intro hmem
    obtain ⟨item, hitem, rfl⟩ := mem_judgedLocations_iff.mp hmem
    apply Table.exists_mem_putAll
    left
    use (item.key, item.relevance), List.mem_map_of_mem hitem

/-- The values of the dictionary are the relevances of its keys. -/
theorem values_relevanceByLocation (relevant : List RelevantLocation) :
  (relevanceByLocation relevant).rows.map Prod.snd
    = ((relevanceByLocation relevant).rows.map Prod.fst).map (judgedRelevance relevant)
  := by
  rw [List.map_map]
  apply List.map_congr_left
  intro entry hentry
  have hget := get_relevanceByLocation relevant entry.1
  rw [Table.get_key (show entry ∈ relevanceByLocation relevant from hentry), Option.map_some] at hget
  rw [Function.comp_apply, judgedRelevance, ← hget, Option.getD_some]

theorem idealRelevances_eq (relevant : List RelevantLocation) (limit : ℤ) :
  idealRelevances (relevanceByLocation relevant) limit
    = idealGrades (judgedRelevance relevant) (judgedLocations relevant) limit
  := by
  rw [idealRelevances, idealGrades, values_relevanceByLocation]
  congr 1
  apply List.insertionSort_eq_of_perm
  · intro a _ b _ hab hba
    exact le_antisymm hba hab
  · apply (perm_judgedLocations relevant).map

/-- The loop collects the locations and grades them. -/
theorem retrieve_eq (relevant : List RelevantLocation) (locations : List LocationKey) :
  retrieve (relevanceByLocation relevant) locations
    = ⟨locations.toFinset, grades (judgedRelevance relevant) locations⟩
  := by
  induction locations using List.reverseRecOn with
  | nil => rfl
  | append_singleton locations location ih =>
      rw [retrieve, List.foldl_append, ← retrieve, ih, List.foldl_cons, List.foldl_nil,
        Retrieved.add, get_relevanceByLocation, grades_concat, ← judgedRelevance]
      congr 1
      · ext key
        simp
      · by_cases h : location ∈ locations
        · simp [h]
        · simp [h]

/-! ### Sums of gains -/

section Gain

variable {K : Type*} [Field K]

/-- The sum of the values of the first members of a list, read at their indices. -/
theorem sum_range_getD {f : ℤ → K} (hf : f 0 = 0) (l : List ℤ) (k : ℕ) :
  ∑ i ∈ Finset.range k, f (l.getD i 0) = ((l.take k).map f).sum
  := by
  induction l generalizing k with
  | nil => simp [hf]
  | cons x l ih =>
      cases k with
      | zero => rfl
      | succ k =>
          rw [Finset.sum_range_succ', List.take_succ_cons, List.map_cons, List.sum_cons,
            add_comm, ← ih]
          rfl

theorem gain_zero :
  gain K 0 = 0
  := by
  rw [gain, zpow_zero, sub_self]

/-- The discounted gain as a sum over the indices below any bound on the length. -/
theorem discountedGain_eq (discount : ℕ → K) {l : List ℤ} {n : ℕ} (h : l.length ≤ n) :
  discountedGain discount l = ∑ i ∈ Finset.range n, gain K (l.getD i 0) * discount (i + 1)
  := by
  have hfrom : ∀ (l : List ℤ) (first n : ℕ) (total : K), l.length ≤ n →
      (l.zipIdx first).foldl (fun total entry => total + gain K entry.1 * discount entry.2) total
        = total + ∑ i ∈ Finset.range n, gain K (l.getD i 0) * discount (i + first) := by
    intro l
    induction l with
    | nil =>
        intro first n total _
        simp [gain_zero]
    | cons x l ih =>
        intro first n total hn
        cases n with
        | zero => cases hn
        | succ n =>
            rw [List.zipIdx_cons, List.foldl_cons, ih (first + 1) n _ (Nat.le_of_succ_le_succ hn),
              Finset.sum_range_succ', add_assoc, add_comm (gain K x * discount first), zero_add]
            congr 2
            apply Finset.sum_congr rfl
            intro i _
            rw [List.getD_cons_succ, Nat.add_right_comm, Nat.add_assoc]
  rw [discountedGain, hfrom l 1 n 0 h, zero_add]

variable [LinearOrder K] [IsStrictOrderedRing K]

theorem gain_strictMono :
  StrictMono (gain K)
  := by
  intro a b hab
  apply sub_lt_sub_right
  apply zpow_lt_zpow_right₀ one_lt_two hab

/-- The gains of a ranking are dominated by the ideal gains. -/
theorem dominated_grades {κ : Type*} [DecidableEq κ] {grade : κ → ℤ} {judged : List κ}
    (hpos : ∀ key ∈ judged, 0 ≤ grade key) (hout : ∀ key ∉ judged, grade key = 0)
    (ranking : List κ) (limit : ℤ) :
  Dominated limit.toNat (fun i => gain K ((grades grade ranking).getD i 0))
    (fun i => gain K ((idealGrades grade judged limit).getD i 0))
  := by
  intro k hk
  rw [sum_range_getD gain_zero, sum_range_getD gain_zero, idealGrades, List.take_take,
    min_eq_left hk, take_grades]
  apply sum_gain_grades_le gain_zero gain_strictMono.monotone hpos hout
  apply List.length_take_le

/-- A list of relevances above zero has a gain above zero. -/
theorem discountedGain_pos {discount : ℕ → K} (hdiscount : ∀ rank, 1 ≤ rank → 0 < discount rank)
    {l : List ℤ} (hne : l ≠ []) (hl : ∀ relevance ∈ l, 1 ≤ relevance) :
  0 < discountedGain discount l
  := by
  rw [discountedGain_eq discount le_rfl]
  apply Finset.sum_pos
  · intro i hi
    have hlt := Finset.mem_range.mp hi
    apply mul_pos _ (hdiscount (i + 1) i.succ_pos)
    rw [List.getD_eq_getElem _ _ hlt, ← gain_zero (K := K)]
    apply gain_strictMono (hl _ (List.getElem_mem hlt))
  · rw [Finset.nonempty_range_iff, Ne, List.length_eq_zero_iff]
    apply hne

end Gain

/-! ### The scores -/

/-- A rank found is one of the ranks from one on. -/
theorem one_le_of_firstRelevant {relevances : List ℤ} {rank : ℕ}
    (h : firstRelevant relevances = some rank) :
  1 ≤ rank
  := by
  rw [firstRelevant, Option.map_eq_some_iff] at h
  obtain ⟨⟨relevance, place⟩, hfind, rfl⟩ := h
  apply List.le_snd_of_mem_zipIdx (List.mem_of_find?_eq_some hfind)

/-- The judged locations found are among the judged locations. -/
theorem card_found_le (relevances : Table (Prod.fst : LocationKey × ℤ → LocationKey))
    (seen : Finset LocationKey) :
  (seen.filter fun location => (relevances.get location).isSome).card ≤ relevances.rows.length
  := by
  rw [← List.length_map Prod.fst, ← List.toFinset_card_of_nodup relevances.nodup]
  apply Finset.card_le_card
  intro location hlocation
  obtain ⟨entry, hentry⟩ := Option.isSome_iff_exists.mp (Finset.mem_filter.mp hlocation).2
  rw [List.mem_toFinset, List.mem_map]
  use entry, Table.mem_of_get hentry, Table.key_of_get hentry

section Scores

variable {K : Type*} [Field K] [LinearOrder K] [IsStrictOrderedRing K]

/-- A quotient of two numbers neither of which is negative, the first at most the second. -/
theorem divide_spec {x y : K} (hx : 0 ≤ x) (hxy : x ≤ y) (hy : 0 < y) :
  divide x y = .ok (x / y) ∧ x / y ∈ Set.Icc 0 1
  := by
  refine ⟨if_neg hy.ne', div_nonneg hx hy.le, ?_⟩
  rw [div_le_one hy]
  apply hxy

theorem exists_recall (relevances : Table (Prod.fst : LocationKey × ℤ → LocationKey))
    (seen : Finset LocationKey) :
  ∃ score ∈ Set.Icc 0 1, recallScore K relevances seen = .ok score
  := by
  rw [recallScore]
  by_cases h : relevances.rows = []
  · rw [if_neg (not_not.mpr h)]
    use 0, Set.left_mem_Icc.mpr zero_le_one
  · rw [if_pos h]
    obtain ⟨hdivide, hscore⟩ := divide_spec (Nat.cast_nonneg (α := K) _)
      (Nat.cast_le.mpr (card_found_le relevances seen))
      (Nat.cast_pos.mpr (List.length_pos_iff.mpr h))
    exact ⟨_, hscore, hdivide⟩

theorem exists_reciprocalRank (relevances : List ℤ) :
  ∃ score ∈ Set.Icc 0 1, reciprocalRank K relevances = .ok score
  := by
  rw [reciprocalRank]
  cases h : firstRelevant relevances with
  | none => use 0, Set.left_mem_Icc.mpr zero_le_one
  | some rank =>
      have hrank : (1 : K) ≤ rank := Nat.one_le_cast.mpr (one_le_of_firstRelevant h)
      obtain ⟨hdivide, hscore⟩ := divide_spec zero_le_one hrank (zero_lt_one.trans_le hrank)
      exact ⟨_, hscore, hdivide⟩

/-- The normalised gain is a score, and it is one when the gain is the ideal one. -/
theorem exists_ndcg {dcg idealDcg : K} (hnonneg : 0 ≤ dcg) (hle : dcg ≤ idealDcg) :
  ∃ score ∈ Set.Icc 0 1, ndcg dcg idealDcg = .ok score
    ∧ (0 < idealDcg → (score = 1 ↔ dcg = idealDcg))
  := by
  rw [ndcg]
  by_cases h : idealDcg = 0
  · rw [if_neg (not_not.mpr h)]
    refine ⟨0, Set.left_mem_Icc.mpr zero_le_one, rfl, ?_⟩
    intro hpos
    exact absurd h hpos.ne'
  · rw [if_pos h]
    have hpos : 0 < idealDcg := lt_of_le_of_ne (hnonneg.trans hle) (Ne.symm h)
    obtain ⟨hdivide, hscore⟩ := divide_spec hnonneg hle hpos
    refine ⟨_, hscore, hdivide, ?_⟩
    intro _
    apply div_eq_one_iff_eq h

/-- What a discount must satisfy: it is positive and strictly decreasing from the first rank on. -/
structure IsDiscount (discount : ℕ → K) : Prop where
  pos : ∀ rank, 1 ≤ rank → 0 < discount rank
  strictAnti : StrictAntiOn discount (Set.Ici 1)

/-- What grades must satisfy: those of the judged keys are positive, all others zero. -/
structure IsGrading {κ : Type*} (grade : κ → ℤ) (judged : List κ) : Prop where
  pos : ∀ key ∈ judged, 1 ≤ grade key
  zero : ∀ key ∉ judged, grade key = 0

theorem isGrading_judgedRelevance (relevant : List RelevantLocation) :
  IsGrading (judgedRelevance relevant) (judgedLocations relevant)
  := ⟨fun _ h => one_le_judgedRelevance h, fun _ h => judgedRelevance_eq_zero h⟩

variable {discount : ℕ → K} {κ : Type*} [DecidableEq κ] {grade : κ → ℤ} {judged : List κ}

theorem IsGrading.getD_grades_nonneg (h : IsGrading grade judged) (ranking : List κ) (i : ℕ) :
  0 ≤ (grades grade ranking).getD i 0
  := by
  have hgrade : ∀ key, 0 ≤ grade key := by
    intro key
    by_cases hkey : key ∈ judged
    · exact zero_le_one.trans (h.pos key hkey)
    · exact (h.zero key hkey).ge
  rw [List.getD_eq_getElem?_getD, getElem?_grades]
  cases ranking[i]? with
  | none => exact le_rfl
  | some location =>
      rw [Option.map_some, Option.getD_some]
      split
      · exact le_rfl
      · apply hgrade

omit [DecidableEq κ] in
theorem IsGrading.one_le_of_mem_idealGrades (h : IsGrading grade judged) {limit relevance : ℤ}
    (hmem : relevance ∈ idealGrades grade judged limit) :
  1 ≤ relevance
  := by
  have hsort := (List.mem_insertionSort _).mp (List.mem_of_mem_take hmem)
  obtain ⟨key, hkey, rfl⟩ := List.mem_map.mp hsort
  apply h.pos key hkey

/-- The gain of a ranking of at most `limit` locations is at most the ideal gain, and reaches it
only when the ranking begins with the ideal grades. -/
theorem IsGrading.discountedGain_le (h : IsGrading grade judged) (hdiscount : IsDiscount discount)
    {ranking : List κ} {limit : ℤ} (hlen : ranking.length ≤ limit.toNat) :
  discountedGain discount (grades grade ranking)
      ≤ discountedGain discount (idealGrades grade judged limit)
    ∧ (discountedGain discount (grades grade ranking)
        = discountedGain discount (idealGrades grade judged limit)
      ↔ idealGrades grade judged limit <+: grades grade ranking)
  := by
  have hideal : (idealGrades grade judged limit).length ≤ limit.toNat := List.length_take_le ..
  have hweight : StrictAnti fun i => discount (i + 1) := by
    intro i j hij
    apply hdiscount.strictAnti (Set.mem_Ici.mpr i.succ_pos) (Set.mem_Ici.mpr j.succ_pos)
    apply Nat.succ_lt_succ hij
  have hpos : ∀ i, 0 < discount (i + 1) := fun i => hdiscount.pos (i + 1) i.succ_pos
  have hdom := dominated_grades (K := K) (fun key hkey => zero_le_one.trans (h.pos key hkey))
    h.zero ranking limit
  have hle := hdom.sum_mul_le hweight.antitone (hpos _).le
  have heq := hdom.sum_mul_eq_iff hweight (hpos _).le
  rw [discountedGain_eq discount (length_grades grade ranking ▸ hlen),
    discountedGain_eq discount hideal]
  refine ⟨hle, ?_⟩
  constructor
  · intro hgains
    rw [List.prefix_iff_getElem?]
    intro i hi
    have hsame := gain_strictMono.injective (heq.mp hgains i (hi.trans_le hideal))
    rw [List.getD_eq_getElem _ _ hi] at hsame
    have hone := h.one_le_of_mem_idealGrades (List.getElem_mem hi)
    rw [List.getD_eq_getElem?_getD] at hsame
    cases hget : (grades grade ranking)[i]? with
    | none =>
        rw [hget, Option.getD_none] at hsame
        rw [← hsame] at hone
        exact absurd hone (by decide)
    | some relevance =>
        rw [hget, Option.getD_some] at hsame
        rw [hsame]
  · intro hprefix
    apply le_antisymm hle
    apply Finset.sum_le_sum
    intro i _
    apply mul_le_mul_of_nonneg_right _ (hpos i).le
    by_cases hi : i < (idealGrades grade judged limit).length
    · rw [List.getD_eq_getElem _ _ hi, List.getD_eq_getElem?_getD,
        List.prefix_iff_getElem?.mp hprefix i hi, Option.getD_some]
    · rw [List.getD_eq_default _ _ (not_lt.mp hi)]
      apply gain_strictMono.monotone (h.getD_grades_nonneg ranking i)

theorem IsGrading.discountedGain_nonneg (h : IsGrading grade judged)
    (hdiscount : IsDiscount discount) (ranking : List κ) :
  0 ≤ discountedGain discount (grades grade ranking)
  := by
  rw [discountedGain_eq discount le_rfl]
  apply Finset.sum_nonneg
  intro i _
  apply mul_nonneg _ (hdiscount.pos (i + 1) i.succ_pos).le
  rw [← gain_zero (K := K)]
  apply gain_strictMono.monotone (h.getD_grades_nonneg ranking i)

omit [DecidableEq κ] in
/-- The ideal gain is positive when there is a judged location. -/
theorem IsGrading.idealGain_pos (h : IsGrading grade judged) (hdiscount : IsDiscount discount)
    {limit : ℤ} (hlimit : 1 ≤ limit) (hne : judged ≠ []) :
  0 < discountedGain discount (idealGrades grade judged limit)
  := by
  apply discountedGain_pos hdiscount.pos
  · rw [← List.length_pos_iff, idealGrades, List.length_take, List.length_insertionSort,
      List.length_map]
    have hjudged := List.length_pos_iff.mpr hne
    omega
  · intro relevance hmem
    apply h.one_le_of_mem_idealGrades hmem

/-- Whatever the ranking and the judgements, the metrics are proper scores. -/
theorem evaluateRanking_proper (hdiscount : IsDiscount discount) (ranked : List RankedLocation)
    (relevant : List RelevantLocation) {limit : ℤ} (hlimit : 1 ≤ limit) :
  ∃ metrics, evaluateRanking discount ranked relevant limit = .ok metrics
    ∧ metrics.recallAtK ∈ Set.Icc 0 1
    ∧ metrics.reciprocalRank ∈ Set.Icc 0 1
    ∧ metrics.ndcgAtK ∈ Set.Icc 0 1
    ∧ (relevant ≠ [] →
      (metrics.ndcgAtK = 1
        ↔ idealGrades (judgedRelevance relevant) (judgedLocations relevant) limit
          <+: grades (judgedRelevance relevant)
            ((ranked.take limit.toNat).map RankedLocation.key)))
  := by
  set locations := (ranked.take limit.toNat).map RankedLocation.key with hlocations
  have hlen : locations.length ≤ limit.toNat := by
    rw [hlocations, List.length_map]
    apply List.length_take_le
  have hgrading := isGrading_judgedRelevance relevant
  obtain ⟨hle, heq⟩ := hgrading.discountedGain_le hdiscount hlen
  obtain ⟨recallAtK, hrecall, hrecallOk⟩ :=
    exists_recall (K := K) (relevanceByLocation relevant) locations.toFinset
  obtain ⟨rank, hrank, hrankOk⟩ :=
    exists_reciprocalRank (K := K) (grades (judgedRelevance relevant) locations)
  obtain ⟨ndcgAtK, hndcg, hndcgOk, hone⟩ :=
    exists_ndcg (hgrading.discountedGain_nonneg hdiscount locations) hle
  refine ⟨⟨recallAtK, rank, ndcgAtK⟩, ?_, hrecall, hrank, hndcg, ?_⟩
  · rw [evaluateRanking, if_neg (not_lt.mpr hlimit)]
    dsimp only
    rw [retrieve_eq, hrecallOk, hrankOk, idealRelevances_eq, hndcgOk]
    rfl
  · intro hne
    rw [hone, heq]
    apply hgrading.idealGain_pos hdiscount hlimit
    obtain ⟨item, hitem⟩ := List.exists_mem_of_ne_nil relevant hne
    apply List.ne_nil_of_mem (mem_judgedLocations_iff.mpr ⟨item, hitem, rfl⟩)

end Scores

/-- The reciprocal of the rank is a discount. -/
theorem isDiscount_sample :
  IsDiscount fun rank : ℕ => (1 / rank : ℚ)
  := by
  constructor
  · intro rank hrank
    apply one_div_pos.mpr (Nat.cast_pos.mpr hrank)
  · intro rank hrank rank' _ hlt
    apply one_div_lt_one_div_of_lt (Nat.cast_pos.mpr hrank) (Nat.cast_lt.mpr hlt)

/-- A ranking that repeats its only hit. -/
def sampleRanking : List RankedLocation :=
  [⟨"a.md".toList, [], none⟩, ⟨"b.md".toList, [], none⟩, ⟨"b.md".toList, [], none⟩]

/-- Judgements the first of which is overruled by the second. -/
def sampleJudgements : List RelevantLocation :=
  [⟨"b.md".toList, [], none, 1, by decide⟩, ⟨"b.md".toList, [], none, 3, by decide⟩,
    ⟨"c.md".toList, [], some 2, 2, by decide⟩]

theorem evaluateRanking_proper_sample :
  ∃ metrics : EvaluationMetrics ℚ,
    evaluateRanking (fun rank => (1 / rank : ℚ)) sampleRanking sampleJudgements 3 = .ok metrics
      ∧ metrics.ndcgAtK ∈ Set.Icc 0 1
  := by
  obtain ⟨metrics, hmetrics, -, -, hndcg, -⟩ :=
    evaluateRanking_proper isDiscount_sample sampleRanking sampleJudgements
      (show (1 : ℤ) ≤ 3 by decide)
  use metrics, hmetrics

example :
  evaluateRanking (fun rank => (1 / rank : ℚ)) sampleRanking sampleJudgements 3
    = .ok ⟨1 / 2, 1 / 2, 7 / 17⟩
  := by decide +kernel

end KnowledgeSearch

import Mathlib.Data.List.Nodup
import Mathlib.Tactic.Common

/-!
# Keyed tables

A table is a list of rows no two of which have the same key. The order of the rows is the
order in which their keys were first inserted.

* `Table.get` looks a row up by its key, `Table.insert?` adds a row under a new key,
  `Table.replace` overwrites the row of an existing key, `Table.put` does the one or the
  other, and `Table.discard` deletes the rows that satisfy a predicate.
* `Table.insertAll?` and `Table.putAll` do so for a list of rows.

Each operation has a lemma on `Table.get` and one on membership of a row.
-/

/-- The rows of a table, no two of which have the same key. -/
structure Table {κ ρ : Type*} (key : ρ → κ) where
  rows : List ρ
  nodup : (rows.map key).Nodup

namespace Table

variable {κ ρ : Type*} {key : ρ → κ}

instance : Membership ρ (Table key) := ⟨fun t r => r ∈ t.rows⟩

theorem mem_def {t : Table key} {r : ρ} :
  r ∈ t ↔ r ∈ t.rows
  := Iff.rfl

instance decidableForallMem {t : Table key} {p : ρ → Prop} [∀ r, Decidable (p r)] :
    Decidable (∀ r ∈ t, p r) :=
  inferInstanceAs (Decidable (∀ r ∈ t.rows, p r))

/-- The table without rows. -/
def empty : Table key := ⟨[], List.nodup_nil⟩

@[simp]
theorem not_mem_empty (r : ρ) :
  r ∉ (empty : Table key)
  := List.not_mem_nil

/-- A key determines its row. -/
theorem eq_of_key_eq {t : Table key} {r s : ρ} (hr : r ∈ t) (hs : s ∈ t) (h : key r = key s) :
  r = s
  := List.inj_on_of_nodup_map t.nodup hr hs h

/-- Tables with the same rows are equal. -/
theorem ext_rows {t t' : Table key} (h : t.rows = t'.rows) :
  t = t'
  := by
  cases t
  cases t'
  cases h
  rfl

variable [DecidableEq κ]

/-- The row with key `k`. -/
def get (t : Table key) (k : κ) : Option ρ :=
  t.rows.find? fun r => key r = k

theorem get_eq_some_iff {t : Table key} {k : κ} {r : ρ} :
  t.get k = some r ↔ r ∈ t ∧ key r = k
  := by
  constructor
  · intro h
    use List.mem_of_find?_eq_some h
    have hk := List.find?_some h
    simpa using hk
  · rintro ⟨hr, rfl⟩
    cases h : t.get (key r) with
    | none =>
        have hnone := List.find?_eq_none.mp h r hr
        simp at hnone
    | some s =>
        have hs := List.find?_some h
        congr 1
        apply eq_of_key_eq (List.mem_of_find?_eq_some h) hr
        simpa using hs

theorem get_eq_none_iff {t : Table key} {k : κ} :
  t.get k = none ↔ ∀ r ∈ t, key r ≠ k
  := by
  simp [get, mem_def]

theorem get_key {t : Table key} {r : ρ} (h : r ∈ t) :
  t.get (key r) = some r
  := get_eq_some_iff.mpr ⟨h, rfl⟩

theorem mem_of_get {t : Table key} {k : κ} {r : ρ} (h : t.get k = some r) :
  r ∈ t
  := (get_eq_some_iff.mp h).1

theorem key_of_get {t : Table key} {k : κ} {r : ρ} (h : t.get k = some r) :
  key r = k
  := (get_eq_some_iff.mp h).2

@[simp]
theorem get_empty (k : κ) :
  (empty : Table key).get k = none
  := rfl

/-- Two tables with the same members look up the same rows. -/
theorem get_congr {t t' : Table key} {k : κ} (h : ∀ r, key r = k → (r ∈ t ↔ r ∈ t')) :
  t.get k = t'.get k
  := by
  apply Option.ext
  intro r
  rw [get_eq_some_iff, get_eq_some_iff]
  constructor
  · rintro ⟨hr, hk⟩
    use (h r hk).mp hr
  · rintro ⟨hr, hk⟩
    use (h r hk).mpr hr

/-! ### Replacing and inserting a row -/

/-- The table with the row that has the key of `r` replaced by `r`, if there is one. -/
def replace (t : Table key) (r : ρ) : Table key where
  rows := t.rows.map fun s => if key s = key r then r else s
  nodup := by
    have h : key ∘ (fun s => if key s = key r then r else s) = key := by
      funext s
      by_cases hs : key s = key r
      · simp [hs]
      · simp [hs]
    rw [List.map_map, h]
    apply t.nodup

theorem rows_replace (t : Table key) (r : ρ) :
  (t.replace r).rows = t.rows.map fun s => if key s = key r then r else s
  := rfl

theorem mem_replace {t : Table key} {r s : ρ} :
  s ∈ t.replace r ↔ (s = r ∧ ∃ q ∈ t, key q = key r) ∨ (s ∈ t ∧ key s ≠ key r)
  := by
  simp only [mem_def, replace, List.mem_map]
  constructor
  · rintro ⟨q, hq, rfl⟩
    by_cases h : key q = key r
    · left
      simp only [h, if_true, true_and]
      use q, hq
    · right
      simp only [h, if_false]
      use hq, h
  · rintro (⟨rfl, q, hq, h⟩ | ⟨hs, h⟩)
    · use q, hq
      simp [h]
    · use s, hs
      simp [h]

/-- The row that replaced another is found under their key. -/
theorem get_replace {t : Table key} {r s : ρ} {k : κ} (hkey : key r = k) (h : t.get k = some s) :
  (t.replace r).get k = some r
  := by
  apply get_eq_some_iff.mpr
  rw [mem_replace]
  refine ⟨Or.inl ⟨rfl, s, mem_of_get h, ?_⟩, hkey⟩
  rw [key_of_get h, hkey]

/-- Replacing a row by itself changes nothing. -/
theorem replace_self {t : Table key} {r : ρ} (hr : r ∈ t) :
  t.replace r = t
  := by
  apply ext_rows
  have h : ∀ s ∈ t.rows, (if key s = key r then r else s) = s := by
    intro s hs
    by_cases hk : key s = key r
    · rw [if_pos hk, eq_of_key_eq hs hr hk]
    · rw [if_neg hk]
  calc (t.replace r).rows = t.rows.map fun s => s := List.map_congr_left h
    _ = t.rows := List.map_id' t.rows

/-- The table with the row `r` added, unless its key is taken. -/
def insert? (t : Table key) (r : ρ) : Option (Table key) :=
  if h : t.get (key r) = none then
    some
      { rows := t.rows ++ [r]
        nodup := by
          rw [List.map_append, List.nodup_append]
          use t.nodup
          constructor
          · simp
          · intro k hk k' hk' hkk'
            obtain ⟨s, hs, rfl⟩ := List.mem_map.mp hk
            apply get_eq_none_iff.mp h s hs
            simpa [hkk'] using hk' }
  else none

theorem insert?_eq_some_iff {t t' : Table key} {r : ρ} :
  t.insert? r = some t' ↔ t.get (key r) = none ∧ t'.rows = t.rows ++ [r]
  := by
  unfold insert?
  split
  · rename_i h
    constructor
    · intro ht
      obtain rfl := Option.some.inj ht
      use h
    · rintro ⟨-, ht⟩
      congr 1
      cases t'
      subst ht
      rfl
  · rename_i h
    constructor
    · intro ht
      cases ht
    · rintro ⟨ht, -⟩
      exact absurd ht h

theorem mem_insert? {t t' : Table key} {r s : ρ} (h : t.insert? r = some t') :
  s ∈ t' ↔ s ∈ t ∨ s = r
  := by
  rw [mem_def, (insert?_eq_some_iff.mp h).2]
  simp [mem_def]

theorem get_insert? {t t' : Table key} {r : ρ} (h : t.insert? r = some t') (k : κ) :
  t'.get k = if k = key r then some r else t.get k
  := by
  by_cases hk : k = key r
  · rw [if_pos hk, get_eq_some_iff, mem_insert? h]
    use Or.inr rfl, hk.symm
  · rw [if_neg hk]
    apply get_congr
    rintro s rfl
    rw [mem_insert? h]
    constructor
    · rintro (hs | rfl)
      · apply hs
      · exact absurd rfl hk
    · apply Or.inl

/-- The table with the row `r` under its key, replacing the row that had that key. -/
def put (t : Table key) (r : ρ) : Table key :=
  (t.insert? r).getD (t.replace r)

theorem mem_put {t : Table key} {r s : ρ} :
  s ∈ t.put r ↔ s = r ∨ (s ∈ t ∧ key s ≠ key r)
  := by
  unfold put
  cases h : t.insert? r with
  | none =>
      have hget : t.get (key r) ≠ none := by
        intro hnone
        simp [insert?, hnone] at h
      obtain ⟨q, hq⟩ := Option.ne_none_iff_exists'.mp hget
      rw [Option.getD_none, mem_replace]
      constructor
      · rintro (⟨rfl, -⟩ | hs)
        · apply Or.inl rfl
        · apply Or.inr hs
      · rintro (rfl | hs)
        · left
          use rfl, q, mem_of_get hq, key_of_get hq
        · apply Or.inr hs
  | some t' =>
      rw [Option.getD_some, mem_insert? h]
      have hnone := get_eq_none_iff.mp (insert?_eq_some_iff.mp h).1
      constructor
      · rintro (hs | rfl)
        · right
          use hs, hnone s hs
        · apply Or.inl rfl
      · rintro (rfl | ⟨hs, -⟩)
        · apply Or.inr rfl
        · apply Or.inl hs

theorem get_put {t : Table key} {r : ρ} (k : κ) :
  (t.put r).get k = if k = key r then some r else t.get k
  := by
  by_cases hk : k = key r
  · rw [if_pos hk, get_eq_some_iff, mem_put]
    use Or.inl rfl, hk.symm
  · rw [if_neg hk]
    apply get_congr
    rintro s rfl
    rw [mem_put]
    constructor
    · rintro (rfl | ⟨hs, -⟩)
      · exact absurd rfl hk
      · apply hs
    · intro hs
      right
      use hs, hk

/-- A row with a new key comes last. -/
theorem rows_put {t : Table key} {r : ρ} (h : t.get (key r) = none) :
  (t.put r).rows = t.rows ++ [r]
  := by
  rw [put, insert?, dif_pos h]
  rfl

/-- A row with a new key and then another with that key. -/
theorem put_put {t : Table key} {r r' : ρ} (h : t.get (key r) = none) (hkey : key r' = key r) :
  (t.put r).put r' = t.put r'
  := by
  have h' : t.get (key r') = none := by
    rw [hkey]
    apply h
  have hget : (t.put r).get (key r') ≠ none := by
    rw [get_put, if_pos hkey]
    exact Option.some_ne_none r
  have hreplace : (t.put r).put r' = (t.put r).replace r' := by
    rw [put, insert?, dif_neg hget, Option.getD_none]
  have hrows : ∀ s ∈ t.rows, (if key s = key r' then r' else s) = s := by
    intro s hs
    apply if_neg
    apply get_eq_none_iff.mp h' s hs
  apply ext_rows
  rw [hreplace, rows_put h']
  show (t.put r).rows.map _ = _
  rw [rows_put h, List.map_append, List.map_congr_left hrows, List.map_id', List.map_singleton,
    if_pos hkey.symm]

/-- The rows that satisfy a predicate stay when a row that does not is put under a key of rows that
do not. -/
theorem filter_rows_put {t : Table key} {r : ρ} {p : ρ → Bool}
    (h : ∀ s, key s = key r → p s = false) :
  (t.put r).rows.filter p = t.rows.filter p
  := by
  unfold put
  cases hinsert : t.insert? r with
  | none =>
      rw [Option.getD_none]
      simp only [replace]
      induction t.rows with
      | nil => rfl
      | cons s rows ih =>
          by_cases hs : key s = key r
          · rw [List.map_cons, if_pos hs, List.filter_cons_of_neg (by simp [h r rfl]),
              List.filter_cons_of_neg (by simp [h s hs]), ih]
          · rw [List.map_cons, if_neg hs, List.filter_cons, List.filter_cons, ih]
  | some t' =>
      rw [Option.getD_some, (insert?_eq_some_iff.mp hinsert).2, List.filter_append,
        List.filter_cons_of_neg (by simp [h r rfl]), List.filter_nil, List.append_nil]

/-! ### Lists of rows -/

/-- The table with all the rows added, unless one of their keys is taken or repeated. -/
def insertAll? (t : Table key) : List ρ → Option (Table key)
  | [] => some t
  | r :: rs => (t.insert? r).bind fun t' => insertAll? t' rs

theorem rows_insertAll? :
    ∀ {t t' : Table key} {rs : List ρ}, t.insertAll? rs = some t' → t'.rows = t.rows ++ rs
  | _, _, [], h => by
      obtain rfl := Option.some.inj h
      simp
  | t, t', r :: rs, h => by
      obtain ⟨u, hu, h⟩ := Option.bind_eq_some_iff.mp h
      rw [rows_insertAll? h, (insert?_eq_some_iff.mp hu).2]
      simp

theorem mem_insertAll? {t t' : Table key} {rs : List ρ} (h : t.insertAll? rs = some t') {s : ρ} :
  s ∈ t' ↔ s ∈ t ∨ s ∈ rs
  := by
  rw [mem_def, rows_insertAll? h, List.mem_append, mem_def]

/-- Rows can be added to a table when their keys are new and distinct. -/
theorem insertAll?_isSome :
    ∀ {t : Table key} {rs : List ρ}, (∀ r ∈ rs, t.get (key r) = none) → (rs.map key).Nodup →
      ∃ t', t.insertAll? rs = some t'
  | t, [], _, _ => ⟨t, rfl⟩
  | t, r :: rs, hnew, hrs => by
      rw [List.map_cons, List.nodup_cons] at hrs
      have hu : ∃ u, t.insert? r = some u := by
        simp [insert?, hnew r List.mem_cons_self]
      obtain ⟨u, hu⟩ := hu
      obtain ⟨t', ht'⟩ := insertAll?_isSome (t := u)
        (by
          intro s hs
          rw [get_insert? hu, if_neg, hnew s (List.mem_cons_of_mem _ hs)]
          intro hk
          apply hrs.1
          rw [← hk]
          apply List.mem_map_of_mem hs)
        hrs.2
      use t'
      rw [insertAll?, hu]
      apply ht'

/-- The table with each row of a list put under its key. -/
def putAll (t : Table key) (rs : List ρ) : Table key :=
  rs.foldl put t

@[simp]
theorem putAll_nil (t : Table key) :
  t.putAll [] = t
  := rfl

theorem putAll_cons (t : Table key) (r : ρ) (rs : List ρ) :
  t.putAll (r :: rs) = (t.put r).putAll rs
  := rfl

/-- The row under a key after `putAll` is the last one put under it. -/
theorem get_putAll {t : Table key} {rs : List ρ} (k : κ) :
  (t.putAll rs).get k = (rs.reverse.find? fun r => key r = k).or (t.get k)
  := by
  induction rs generalizing t with
  | nil => rfl
  | cons r rs ih =>
      rw [putAll_cons, ih, get_put, List.reverse_cons, List.find?_append, Option.or_assoc]
      congr 1
      by_cases hk : key r = k
      · rw [if_pos hk.symm, List.find?_cons_of_pos (by simpa using hk), Option.some_or]
      · rw [if_neg (Ne.symm hk), List.find?_cons_of_neg (by simpa using hk)]
        rfl

/-- The keys after `putAll` are those of the rows put and of the old rows. -/
theorem exists_mem_putAll :
    ∀ {t : Table key} {rs : List ρ} {k : κ}, (∃ r ∈ rs, key r = k) ∨ (∃ r ∈ t, key r = k) →
      ∃ s ∈ t.putAll rs, key s = k
  | t, [], k, h => by
      rcases h with ⟨r, hr, -⟩ | h
      · cases hr
      · apply h
  | t, r :: rs, k, h => by
      rw [putAll_cons]
      apply exists_mem_putAll
      by_cases hk : key r = k
      · right
        use r, mem_put.mpr (Or.inl rfl)
      · rcases h with ⟨s, hs, hsk⟩ | ⟨s, hs, hsk⟩
        · rcases List.mem_cons.mp hs with rfl | hs
          · exact absurd hsk hk
          · left
            use s, hs
        · right
          use s, mem_put.mpr (Or.inr ⟨hs, fun hsr => hk (hsr.symm.trans hsk)⟩)

/-- A row of the table after `putAll` is one of the rows put or an old row. -/
theorem mem_of_mem_putAll :
    ∀ {t : Table key} {rs : List ρ} {s : ρ}, s ∈ t.putAll rs → s ∈ rs ∨ s ∈ t
  | _, [], _, h => Or.inr h
  | t, r :: rs, s, h => by
      rw [putAll_cons] at h
      rcases mem_of_mem_putAll h with hs | hs
      · apply Or.inl (List.mem_cons_of_mem _ hs)
      · rcases mem_put.mp hs with rfl | ⟨hs, -⟩
        · apply Or.inl List.mem_cons_self
        · apply Or.inr hs

/-- An old row whose key is not put stays. -/
theorem mem_putAll_of_mem :
    ∀ {t : Table key} {rs : List ρ} {s : ρ}, s ∈ t → (∀ r ∈ rs, key s ≠ key r) → s ∈ t.putAll rs
  | _, [], _, h, _ => h
  | _, r :: _, _, h, hne => by
      rw [putAll_cons]
      apply mem_putAll_of_mem
      · apply mem_put.mpr
        right
        use h, hne r List.mem_cons_self
      · intro q hq
        apply hne q (List.mem_cons_of_mem _ hq)

/-- A row put is there at the end when every row put under its key is that row. -/
theorem mem_putAll_of_mem_rows :
    ∀ {t : Table key} {rs : List ρ} {s : ρ}, s ∈ rs → (∀ r ∈ rs, key r = key s → r = s) →
      s ∈ t.putAll rs
  | t, r :: rs, s, h, huniq => by
      by_cases hs : s ∈ rs
      · apply mem_putAll_of_mem_rows hs
        intro q hq
        apply huniq q (List.mem_cons_of_mem _ hq)
      · obtain rfl : s = r := by
          rcases List.mem_cons.mp h with h | h
          · apply h
          · exact absurd h hs
        rw [putAll_cons]
        apply mem_putAll_of_mem
        · apply mem_put.mpr (Or.inl rfl)
        · intro q hq hk
          apply hs
          rw [← huniq q (List.mem_cons_of_mem _ hq) hk.symm]
          apply hq

/-! ### Deleting rows -/

/-- The table without the rows that satisfy `p`. -/
def discard (t : Table key) (p : ρ → Bool) : Table key where
  rows := t.rows.filter fun r => !p r
  nodup := t.nodup.sublist (List.filter_sublist.map key)

omit [DecidableEq κ] in
theorem mem_discard {t : Table key} {p : ρ → Bool} {r : ρ} :
  r ∈ t.discard p ↔ r ∈ t ∧ p r = false
  := by
  simp [discard, mem_def]

theorem get_discard {t : Table key} {p : ρ → Bool} {k : κ} (h : ∀ r, key r = k → p r = false) :
  (t.discard p).get k = t.get k
  := by
  apply get_congr
  intro r hr
  rw [mem_discard]
  constructor
  · rintro ⟨hr, -⟩
    apply hr
  · intro ht
    use ht, h r hr

/-- The table without the row of key `k`. -/
def erase (t : Table key) (k : κ) : Table key :=
  t.discard fun r => key r = k

theorem mem_erase {t : Table key} {k : κ} {r : ρ} :
  r ∈ t.erase k ↔ r ∈ t ∧ key r ≠ k
  := by
  simp [erase, mem_discard]

theorem erase_of_get_eq_none {t : Table key} {k : κ} (h : t.get k = none) :
  t.erase k = t
  := by
  apply ext_rows
  apply List.filter_eq_self.mpr
  intro s hs
  simpa using get_eq_none_iff.mp h s hs

/-- A row with a new key is put and erased. -/
theorem erase_put {t : Table key} {r : ρ} (h : t.get (key r) = none) :
  (t.put r).erase (key r) = t
  := by
  apply ext_rows
  have hrows : t.rows.filter (fun s => !decide (key s = key r)) = t.rows :=
    congrArg rows (erase_of_get_eq_none h)
  show (t.put r).rows.filter _ = _
  rw [rows_put h, List.filter_append, hrows]
  simp

theorem get_erase (t : Table key) (k k' : κ) :
  (t.erase k).get k' = if k' = k then none else t.get k'
  := by
  by_cases hk : k' = k
  · rw [if_pos hk, get_eq_none_iff]
    intro r hr hrk
    apply (mem_erase.mp hr).2
    rw [hrk, hk]
  · rw [if_neg hk]
    apply get_discard
    rintro r rfl
    simpa using hk

end Table

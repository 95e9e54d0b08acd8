import KnowledgeSearch.Foundations.Machine
import KnowledgeSearch.Foundations.Table

/-!
# Values kept as rows

A mapper keeps values as the rows of a table. It saves a value by assigning columns of its row. A
row with a changed column is updated, and then the store sets a column of its own, unless this one
is among the changed.

* `Mapper.get_add_iff` and `Mapper.get_save_iff` say when the value that was added or saved is got.
* `Mapper.Change` is a change of values, and `Mapper.Change.history` the machine that reads,
  changes and saves a value. `Mapper.Change.forall_prefix_get_iff` says in which of its histories
  the value saved last is got all the time.
* `Mapper.save_replace` and `Mapper.exists_save_replace` say when saving is the replacement of a value.
-/

/-- A column of a row, by how it is read and written. -/
structure Column (ρ τ : Type*) where
  get : ρ → τ
  set : τ → ρ → ρ
  get_set : ∀ t r, get (set t r) = t
  set_get : ∀ r, set (get r) r = r

namespace Column

variable {ρ τ : Type*} {self : Column ρ τ}

/-- The row of an update: the assigned one, with the default in a column that is not changed. -/
def update [DecidableEq τ] (self : Column ρ τ) (stored assigned : ρ) (default : τ) : ρ :=
  if self.get assigned = self.get stored then self.set default assigned else assigned

/-- An update writes the assigned row when it does not set the column, or sets it to what the row
has there. -/
theorem update_eq_iff [DecidableEq τ] {stored r r' : ρ} {default : τ} (h : self.get r = self.get r') :
  self.update stored r default = r'
    ↔ r = r' ∧ (self.get r' ≠ self.get stored ∨ default = self.get r')
  := by
  unfold update
  rw [h]
  by_cases hstored : self.get r' = self.get stored
  · rw [if_pos hstored]
    constructor
    · intro hset
      have hdefault : default = self.get r' := by rw [← hset, self.get_set]
      rw [hdefault, ← h, self.set_get] at hset
      use hset, Or.inr hdefault
    · rintro ⟨rfl, hdefault⟩
      rw [hdefault.resolve_left (not_not.mpr hstored), self.set_get]
  · rw [if_neg hstored]
    simp only [ne_eq, hstored, not_false_eq_true, true_or, and_true]

end Column

/-- How values are kept as rows. -/
structure Mapper (α ρ ι κ τ β : Type*) where
  id : α → ι
  key : ρ → ι
  toRecord : α → ρ
  toValue : ρ → Except β α
  /-- What saving a value does not assign. -/
  fixed : α → κ
  assign : α → ρ → ρ
  /-- The column the store sets in an update. -/
  column : Column ρ τ
  /-- The row as the store keeps it, in a table. -/
  store : Table key → ρ → Except β ρ
  missing : α → β
  duplicate : β
  toValue_eq_ok_iff : ∀ {r a}, toValue r = .ok a ↔ r = toRecord a
  key_toRecord : ∀ a, key (toRecord a) = id a
  id_eq : ∀ {a b}, fixed a = fixed b → id a = id b
  assign_toRecord : ∀ {a b}, fixed a = fixed b → assign a (toRecord b) = toRecord a
  key_set : ∀ t r, key (column.set t r) = key r
  store_set : ∀ rows t r, store rows (column.set t r) = (store rows r).map (column.set t)
  get_of_store : ∀ {rows r r'}, store rows r = .ok r' → column.get r' = column.get r
  key_of_store : ∀ {rows r r'}, store rows r = .ok r' → key r' = key r

namespace Mapper

variable {α ρ ι κ τ β : Type*} {M : Mapper α ρ ι κ τ β}

theorem toRecord_injective :
  Function.Injective M.toRecord
  := by
  intro a b h
  apply Except.ok.inj (ε := β)
  rw [← M.toValue_eq_ok_iff.mpr rfl, ← M.toValue_eq_ok_iff.mpr h]

/-- What a value has in the column the store sets. -/
def stamp (M : Mapper α ρ ι κ τ β) (a : α) : τ :=
  M.column.get (M.toRecord a)

/-- What the store keeps of an update is the update of what it keeps. -/
theorem store_update [DecidableEq τ] (rows : Table M.key) (stored r : ρ) (now : τ) :
  M.store rows (M.column.update stored r now)
    = (M.store rows r).map fun r => M.column.update stored r now
  := by
  have hset := M.store_set rows now r
  unfold Column.update
  cases hstore : M.store rows r with
  | error e =>
      rw [hstore] at hset
      split
      · apply hset
      · apply hstore
  | ok r' =>
      rw [hstore] at hset
      rw [Except.map, M.get_of_store hstore]
      split
      · apply hset
      · apply hstore

/-- The update of what the store keeps of a value has the key of the value. -/
theorem key_update [DecidableEq τ] {rows : Table M.key} {a : α} {r : ρ} (stored : ρ) (now : τ)
    (hstore : M.store rows (M.toRecord a) = .ok r) :
  M.key (M.column.update stored r now) = M.id a
  := by
  rw [← M.key_toRecord, ← M.key_of_store hstore, Column.update]
  split
  · apply M.key_set
  · rfl

variable [DecidableEq ι]

/-- The value under an identifier. -/
def get (M : Mapper α ρ ι κ τ β) (rows : Table M.key) (id : ι) : Except β (Option α) :=
  match rows.get id with
  | none => .ok none
  | some row => (M.toValue row).map some

/-- Adding a value inserts its row. -/
def add (M : Mapper α ρ ι κ τ β) (rows : Table M.key) (a : α) :
    Except β (Table M.key) :=
  match M.store rows (M.toRecord a) with
  | .error e => .error e
  | .ok row =>
      match rows.insert? row with
      | none => .error M.duplicate
      | some rows => .ok rows

/-- A value is got when its row is there. -/
theorem get_eq_iff {rows : Table M.key} {a : α} :
  M.get rows (M.id a) = .ok (some a) ↔ rows.get (M.id a) = some (M.toRecord a)
  := by
  unfold get
  cases rows.get (M.id a) with
  | none => simp
  | some row =>
      rw [Option.some.injEq, ← M.toValue_eq_ok_iff]
      cases hvalue : M.toValue row with
      | ok b => simp [hvalue, Except.map]
      | error e => simp [hvalue, Except.map]

/-! ### What is got after a save -/

/-- A value that was added is got when the store keeps its row as it is. -/
theorem get_add_iff {rows rows' : Table M.key} {a : α} (h : M.add rows a = .ok rows') :
  M.get rows' (M.id a) = .ok (some a)
    ↔ M.store rows (M.toRecord a) = .ok (M.toRecord a)
  := by
  unfold add at h
  cases hstore : M.store rows (M.toRecord a) with
  | error e =>
      rw [hstore] at h
      cases h
  | ok row =>
      simp only [hstore] at h
      cases hinsert : rows.insert? row with
      | none =>
          rw [hinsert] at h
          cases h
      | some rows'' =>
          rw [hinsert] at h
          obtain rfl := Except.ok.inj h
          have hkey : M.key row = M.id a := by
            rw [M.key_of_store hstore, M.key_toRecord]
          rw [get_eq_iff, Table.get_insert? hinsert, if_pos hkey.symm, Option.some.injEq,
            Except.ok.injEq]

variable [DecidableEq ρ] [DecidableEq τ]

/-- Saving a value updates its row when an assigned column changes. The store takes `now` for its
own column. -/
def save (M : Mapper α ρ ι κ τ β) (rows : Table M.key) (a : α) (now : τ) :
    Except β (Table M.key) :=
  match rows.get (M.id a) with
  | none => .error (M.missing a)
  | some stored =>
      if M.assign a stored = stored then .ok rows
      else
        match M.store rows (M.column.update stored (M.assign a stored) now) with
        | .error e => .error e
        | .ok row => .ok (rows.replace row)

/-- A save of `a` in the place of `b` writes nothing, when they are equal, or the update of what the
store keeps. -/
theorem save_eq_ok {rows rows' : Table M.key} {a b : α} {now : τ}
    (hget : rows.get (M.id b) = some (M.toRecord b)) (hfixed : M.fixed a = M.fixed b)
    (h : M.save rows a now = .ok rows') :
  (a = b ∧ rows' = rows)
    ∨ (a ≠ b ∧ ∃ r, M.store rows (M.toRecord a) = .ok r
        ∧ rows' = rows.replace (M.column.update (M.toRecord b) r now))
  := by
  unfold save at h
  rw [M.id_eq hfixed, hget] at h
  simp only [M.assign_toRecord hfixed, store_update] at h
  by_cases hab : a = b
  · rw [if_pos (congrArg M.toRecord hab)] at h
    left
    use hab, (Except.ok.inj h).symm
  · rw [if_neg (M.toRecord_injective.ne hab)] at h
    right
    use hab
    cases hstore : M.store rows (M.toRecord a) with
    | error e =>
        rw [hstore] at h
        cases h
    | ok r =>
        rw [hstore] at h
        use r, rfl, (Except.ok.inj h).symm

/-- A save raises when the store rejects the row. -/
theorem save_eq_error {rows : Table M.key} {a b : α} {now : τ} {e : β}
    (hget : rows.get (M.id b) = some (M.toRecord b)) (hfixed : M.fixed a = M.fixed b)
    (h : M.save rows a now = .error e) :
  M.store rows (M.toRecord a) = .error e
  := by
  unfold save at h
  rw [M.id_eq hfixed, hget] at h
  simp only [M.assign_toRecord hfixed, store_update] at h
  split at h
  · cases h
  · cases hstore : M.store rows (M.toRecord a) with
    | error e' =>
        rw [hstore] at h
        apply congrArg Except.error (Except.error.inj h)
    | ok r =>
        rw [hstore] at h
        cases h

/-- After a save of `a` in the place of `b` the value `a` is got when nothing is updated, or when
the store keeps the row of `a` as it is, and `a` changes the column of the store or has there what
the store sets. -/
theorem get_save_iff {rows rows' : Table M.key} {a b : α} {now : τ}
    (hget : rows.get (M.id b) = some (M.toRecord b)) (hfixed : M.fixed a = M.fixed b)
    (h : M.save rows a now = .ok rows') :
  M.get rows' (M.id a) = .ok (some a)
    ↔ ∀ r, M.store rows (M.toRecord a) = .ok r →
      a = b ∨ (r = M.toRecord a ∧ (M.stamp a ≠ M.stamp b ∨ now = M.stamp a))
  := by
  rw [get_eq_iff]
  rcases save_eq_ok hget hfixed h with ⟨rfl, rfl⟩ | ⟨hab, r, hstore, rfl⟩
  · simp [hget]
  · have hstamp := M.get_of_store hstore
    have hkey := key_update (M.toRecord b) now hstore
    rw [M.id_eq hfixed, Table.get_replace (hkey.trans (M.id_eq hfixed)) hget, Option.some.injEq,
      Column.update_eq_iff hstamp]
    simp only [hstore, Except.ok.injEq, forall_eq', hab, false_or, stamp]

omit [DecidableEq ρ] [DecidableEq τ] in
/-- The row of a value that the table keeps. -/
theorem get_of_rows {rows : Table M.key} {values : Table M.id} {a : α}
    (hrows : rows.rows = values.rows.map M.toRecord) (hget : values.get (M.id a) = some a) :
  rows.get (M.id a) = some (M.toRecord a)
  := by
  apply Table.get_eq_some_iff.mpr
  refine ⟨?_, M.key_toRecord a⟩
  rw [Table.mem_def, hrows]
  apply List.mem_map_of_mem (Table.mem_of_get hget)

/-- In a table that keeps the rows of some values, a save after which the value is got replaces this
one of the values. -/
theorem save_replace {rows rows' : Table M.key} {values : Table M.id} {a b : α} {now : τ}
    (hrows : rows.rows = values.rows.map M.toRecord) (hget : values.get (M.id b) = some b)
    (hfixed : M.fixed a = M.fixed b) (hsave : M.save rows a now = .ok rows')
    (hgot : M.get rows' (M.id a) = .ok (some a)) :
  rows'.rows = (values.replace a).rows.map M.toRecord
  := by
  have hrow := get_of_rows hrows hget
  rcases save_eq_ok hrow hfixed hsave with ⟨rfl, rfl⟩ | ⟨-, r, hstore, rfl⟩
  · rw [Table.replace_self (Table.mem_of_get hget), hrows]
  · have hkey := key_update (M.toRecord b) now hstore
    rw [get_eq_iff, M.id_eq hfixed, Table.get_replace (hkey.trans (M.id_eq hfixed)) hrow,
      Option.some.injEq] at hgot
    rw [hgot, Table.rows_replace, Table.rows_replace, hrows, List.map_map, List.map_map]
    apply List.map_congr_left
    intro value _
    simp only [Function.comp_apply, M.key_toRecord]
    split
    · rfl
    · rfl

/-- In such a table, a save of a value the store keeps as it is replaces a value with another stamp,
whatever the store takes for its own column. -/
theorem exists_save_replace {rows : Table M.key} {values : Table M.id} {a b : α}
    (hrows : rows.rows = values.rows.map M.toRecord) (hget : values.get (M.id b) = some b)
    (hfixed : M.fixed a = M.fixed b) (hstore : M.store rows (M.toRecord a) = .ok (M.toRecord a))
    (hstamp : a = b ∨ M.stamp a ≠ M.stamp b) (now : τ) :
  ∃ rows', M.save rows a now = .ok rows' ∧ rows'.rows = (values.replace a).rows.map M.toRecord
  := by
  have hrow := get_of_rows hrows hget
  cases hsave : M.save rows a now with
  | error e =>
      have hrejected := save_eq_error hrow hfixed hsave
      rw [hstore] at hrejected
      cases hrejected
  | ok rows' =>
      have hgot : M.get rows' (M.id a) = .ok (some a) := by
        apply (get_save_iff hrow hfixed hsave).mpr
        intro r hr
        rw [hstore] at hr
        obtain rfl := Except.ok.inj hr
        apply hstamp.imp_right fun hne => ⟨rfl, Or.inl hne⟩
      exact ⟨rows', rfl, save_replace hrows hget hfixed hsave hgot⟩

/-! ### Histories -/

/-- The table, the value in memory and the value that was saved last. -/
structure Session (M : Mapper α ρ ι κ τ β) where
  rows : Table M.key
  current : α
  saved : α

/-- What is done with a value: it is read, or it is changed and then saved when the clock of the
store shows `now`. -/
inductive Action (ε τ : Type*) where
  | read
  | change (e : ε) (now : τ)

/-- A change of values: it may raise, leaves what saving does not assign, and gives the value a time
of its own in the column of the store. -/
structure Change (M : Mapper α ρ ι κ τ β) (ε γ : Type*) where
  apply : α → ε → Except γ α
  time : ε → τ
  fixed_eq : ∀ {a b e}, apply a e = .ok b → M.fixed b = M.fixed a
  stamp_eq : ∀ {a b e}, apply a e = .ok b → M.stamp b = time e

namespace Change

variable {ε γ : Type*} (C : M.Change ε γ)

/-- Reading takes the value from the table, when it is got. A change that raises leaves the value as
it is, and a save that raises leaves the table. -/
def act (s : M.Session) : Action ε τ → M.Session
  | .read =>
      match M.get s.rows (M.id s.saved) with
      | .ok (some a) => { s with current := a }
      | _ => s
  | .change e now =>
      match C.apply s.current e with
      | .error _ => s
      | .ok a =>
          match M.save s.rows a now with
          | .error _ => { s with current := a }
          | .ok rows => ⟨rows, a, a⟩

/-- The histories of a value, from a table where it is got. -/
def history : Machine M.Session (Action ε τ) where
  Start s := M.get s.rows (M.id s.saved) = .ok (some s.saved) ∧ s.current = s.saved
  step s e := some (C.act s e)

/-- A save that goes through leads back to the value saved last, or the store keeps its row as it
is, and the time of the change is not that of the value saved last or is that of the clock. -/
def Timely (s : M.Session) : Action ε τ → Prop
  | .read => True
  | .change e now =>
      ∀ a, C.apply s.current e = .ok a → ∀ r, M.store s.rows (M.toRecord a) = .ok r →
        a = s.saved ∨ (r = M.toRecord a ∧ (C.time e ≠ M.stamp s.saved ∨ now = C.time e))

/-- What holds of the result of a computation, when there is one, is decided by computing it. -/
instance decidableOfOk {δ ω : Type*} {x : Except δ ω} {P : ω → Prop} [∀ a, Decidable (P a)] :
    Decidable (∀ a, x = .ok a → P a) :=
  match x with
  | .error _ => .isTrue (by rintro a ⟨⟩)
  | .ok a => decidable_of_iff (P a) (by simp)

instance decidableTimely [DecidableEq α] (s : M.Session) (e : Action ε τ) :
    Decidable (C.Timely s e) :=
  match e with
  | .read => .isTrue trivial
  | .change e now =>
      inferInstanceAs (Decidable (∀ a, C.apply s.current e = .ok a → ∀ r,
        M.store s.rows (M.toRecord a) = .ok r →
          a = s.saved ∨ (r = M.toRecord a ∧ (C.time e ≠ M.stamp s.saved ∨ now = C.time e))))

/-- After an action on a value that is got, the value saved last is got exactly when the action was
timely. -/
theorem get_act_iff {s : M.Session} (e : Action ε τ)
    (hfixed : M.fixed s.current = M.fixed s.saved)
    (hget : M.get s.rows (M.id s.saved) = .ok (some s.saved)) :
  M.fixed (C.act s e).current = M.fixed (C.act s e).saved
    ∧ (M.get (C.act s e).rows (M.id (C.act s e).saved) = .ok (some (C.act s e).saved)
      ↔ C.Timely s e)
  := by
  have hrow := get_eq_iff.mp hget
  cases e with
  | read => simp [act, hget, Timely]
  | change e now =>
      unfold act Timely
      cases happly : C.apply s.current e with
      | error _ => simp [happly, hfixed, hget]
      | ok a =>
          have ha : M.fixed a = M.fixed s.saved := (C.fixed_eq happly).trans hfixed
          cases hsave : M.save s.rows a now with
          | error e =>
              have hstore := save_eq_error hrow ha hsave
              simp [happly, hsave, ha, hget, hstore]
          | ok rows =>
              simp only [happly, hsave, Except.ok.injEq, forall_eq', true_and,
                ← C.stamp_eq happly]
              apply get_save_iff hrow ha hsave

/-- Every list of actions is a history. -/
theorem run_history (s : M.Session) (es : List (Action ε τ)) :
  ∃ t, C.history.run s es = some t
  := by
  induction es generalizing s with
  | nil => exact ⟨s, rfl⟩
  | cons e es ih =>
      obtain ⟨t, ht⟩ := ih (C.act s e)
      use t
      apply (Machine.run_cons_iff _).mpr ⟨C.act s e, rfl, ht⟩

/-- The value saved last is got throughout a history exactly when all its actions are timely. -/
theorem forall_prefix_get_iff {s : M.Session} {es : List (Action ε τ)} (h : C.history.Start s) :
  (∀ fs, fs <+: es → ∀ t, C.history.run s fs = some t →
      M.get t.rows (M.id t.saved) = .ok (some t.saved))
    ↔ C.history.Meets C.Timely s es
  := by
  obtain ⟨hget, hcurrent⟩ := h
  obtain ⟨t, ht⟩ := C.run_history s es
  apply Machine.forall_prefix_iff_meets _ (I := fun s => M.fixed s.current = M.fixed s.saved)
    (P := fun s => M.get s.rows (M.id s.saved) = .ok (some s.saved)) _ (congrArg M.fixed hcurrent)
    hget ht
  intro s e s' hfixed hget hs'
  obtain rfl := Option.some.inj hs'
  apply C.get_act_iff e hfixed hget

end Change

end Mapper

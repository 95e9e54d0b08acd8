import KnowledgeSearch.Domain.Text

/-!
# Reading identifiers

`UUID(value)` reads the text of an identifier in a number of notations: with or without the hyphens, in
braces, as a uniform resource name, in letters of either case, and whatever else `int` accepts as a number
to the base 16. `Uuid.parse_text` says that it reads the canonical text of an identifier back.

The decimal digits of other scripts are those of `decimal`, the value Python's table of characters gives.
-/

namespace KnowledgeSearch

/-! ### Numbers to the base 16 -/

/-- The white space of C. -/
def isCSpace (c : Char) : Bool :=
  (9 ≤ c.toNat && c.toNat ≤ 13) || c.toNat == 32

/-- A character as `int` reads it. -/
def asciiChar (decimal : Char → Option ℕ) (c : Char) : Char :=
  if c.toNat < 127 then c
  else if isSpace c then ' '
  else
    match decimal c with
    | some digit => Char.ofNat (48 + digit)
    | none => '?'

/-- The value of a hexadecimal digit. -/
def hexValue (c : Char) : Option ℕ :=
  if '0' ≤ c ∧ c ≤ '9' then some (c.toNat - 48)
  else if 'a' ≤ c ∧ c ≤ 'f' then some (c.toNat - 87)
  else if 'A' ≤ c ∧ c ≤ 'F' then some (c.toNat - 55)
  else none

/-- The number of the digits, which single underscores may separate and white space may follow. The flag is
set where an underscore is not allowed: at the beginning and after another. -/
def readDigits (underscore : Bool) (value : ℕ) : Text → Option ℕ
  | [] => if underscore then none else some value
  | c :: s =>
      if c = '_' then if underscore then none else readDigits true value s
      else
        match hexValue c with
        | some digit => readDigits false (16 * value + digit) s
        | none => if !underscore && (c :: s).all isCSpace then some value else none

/-- The digits after the prefix `0x`, when it is there. -/
def dropBasePrefix : Text → Text
  | '0' :: 'x' :: '_' :: s | '0' :: 'X' :: '_' :: s | '0' :: 'x' :: s | '0' :: 'X' :: s => s
  | s => s

/-- `int(value, 16)`. -/
def intBase16 (decimal : Char → Option ℕ) (value : Text) : Option ℤ :=
  match (value.map (asciiChar decimal)).dropWhile isCSpace with
  | '-' :: s => (readDigits true 0 (dropBasePrefix s)).map fun n => -(n : ℤ)
  | '+' :: s => (readDigits true 0 (dropBasePrefix s)).map fun n => (n : ℤ)
  | s => (readDigits true 0 (dropBasePrefix s)).map fun n => (n : ℤ)

/-! ### Identifiers -/

/-- `value.replace(pattern, "")`, with some characters of an occurrence still to leave out. -/
def removeOccurrences (pattern : Text) : ℕ → Text → Text
  | _, [] => []
  | n + 1, _ :: s => removeOccurrences pattern n s
  | 0, c :: s =>
      if pattern.isPrefixOf (c :: s) then removeOccurrences pattern (pattern.length - 1) s
      else c :: removeOccurrences pattern 0 s

/-- `value.strip("{}")`. -/
def stripBraces (value : Text) : Text :=
  (value.dropWhile fun c => c = '{' || c = '}').rdropWhile fun c => c = '{' || c = '}'

/-- `UUID(value)`, unless it raises. -/
def Uuid.parse (decimal : Char → Option ℕ) (value : Text) : Option Uuid :=
  let value := removeOccurrences "uuid:".toList 0 (removeOccurrences "urn:".toList 0 value)
  let value := (stripBraces value).filter (· ≠ '-')
  if value.length ≠ 32 then none
  else
    match intBase16 decimal value with
    | some n => if 0 ≤ n ∧ n < 2 ^ 128 then some (BitVec.ofInt 128 n) else none
    | none => none

/-! ### Canonical texts -/

/-- The characters of canonical texts. -/
def IsHexDigit (c : Char) : Prop :=
  ∃ n < 16, c = hexDigit n

theorem isHexDigit_of_mem_hexDigits {c : Char} :
    ∀ {n v : ℕ}, c ∈ hexDigits n v → IsHexDigit c
  | n + 1, v, h => by
      rcases List.mem_append.mp h with h | h
      · apply isHexDigit_of_mem_hexDigits h
      · exact ⟨v % 16, Nat.mod_lt _ (by norm_num), List.mem_singleton.mp h⟩

/-- What reading relies on about a digit. -/
theorem hexDigit_spec :
  ∀ n < 16, hexValue (hexDigit n) = some n ∧ (hexDigit n).toNat < 127
    ∧ isCSpace (hexDigit n) = false
    ∧ hexDigit n ∉ ['-', '+', '_', 'x', 'X', 'u', '{', '}']
  := by decide

/-- The number of a text of digits. -/
def hexNumber (value : ℕ) (s : Text) : ℕ :=
  s.foldl (fun value c => 16 * value + (hexValue c).getD 0) value

/-- Digits that come with nothing else are read as their number. -/
theorem readDigits_eq {s : Text} (hs : ∀ c ∈ s, IsHexDigit c) {underscore : Bool} {value : ℕ}
    (hbegun : s = [] → underscore = false) :
  readDigits underscore value s = some (hexNumber value s)
  := by
  induction s generalizing underscore value with
  | nil =>
      rw [hbegun rfl]
      rfl
  | cons c s ih =>
      obtain ⟨n, hn, rfl⟩ := hs c List.mem_cons_self
      obtain ⟨hvalue, -, -, hother⟩ := hexDigit_spec n hn
      have hne : hexDigit n ≠ '_' := by
        intro heq
        apply hother
        rw [heq]
        decide
      have hrest : readDigits false (16 * value + n) s = some (hexNumber (16 * value + n) s) :=
        ih (fun c hc => hs c (List.mem_cons_of_mem _ hc)) fun _ => rfl
      rw [readDigits, if_neg hne, hvalue]
      simp only [hrest, hexNumber, List.foldl_cons, hvalue, Option.getD_some]

theorem hexNumber_hexDigits :
    ∀ n v, hexNumber 0 (hexDigits n v) = v % 16 ^ n
  | 0, v => by simp [hexNumber, hexDigits, Nat.mod_one]
  | n + 1, v => by
      have hdigit := (hexDigit_spec (v % 16) (Nat.mod_lt _ (by norm_num))).1
      have hrest := hexNumber_hexDigits n (v / 16)
      rw [hexNumber] at hrest ⊢
      rw [hexDigits, List.foldl_append, hrest, List.foldl_cons, List.foldl_nil, hdigit,
        Option.getD_some, Nat.pow_succ', Nat.mod_mul, Nat.add_comm]

/-- A text of digits is a number. -/
theorem intBase16_eq {decimal : Char → Option ℕ} {s : Text} (hs : ∀ c ∈ s, IsHexDigit c)
    (hne : s ≠ []) :
  intBase16 decimal s = some (hexNumber 0 s : ℤ)
  := by
  have hspec : ∀ c ∈ s, c.toNat < 127 ∧ isCSpace c = false
      ∧ c ∉ ['-', '+', '_', 'x', 'X', 'u', '{', '}'] := by
    intro c hc
    obtain ⟨n, hn, rfl⟩ := hs c hc
    apply (hexDigit_spec n hn).2
  have hascii : s.map (asciiChar decimal) = s := by
    have hid : ∀ c ∈ s, asciiChar decimal c = id c := by
      intro c hc
      rw [asciiChar, if_pos (hspec c hc).1, id]
    rw [List.map_congr_left hid, List.map_id]
  have hbase : dropBasePrefix s = s := by
    have hx : ∀ t, '0' :: 'x' :: t ≠ s ∧ '0' :: 'X' :: t ≠ s := by
      intro t
      constructor
      · rintro rfl
        apply (hspec 'x' (by simp)).2.2
        decide
      · rintro rfl
        apply (hspec 'X' (by simp)).2.2
        decide
    unfold dropBasePrefix
    split
    · exact absurd rfl (hx _).1
    · exact absurd rfl (hx _).2
    · exact absurd rfl (hx _).1
    · exact absurd rfl (hx _).2
    · rfl
  have hdrop : s.dropWhile isCSpace = s := by
    cases s with
    | nil => rfl
    | cons c s =>
        apply List.dropWhile_cons_of_neg
        rw [(hspec c List.mem_cons_self).2.1]
        exact Bool.false_ne_true
  have hread : readDigits true 0 s = some (hexNumber 0 s) := by
    apply readDigits_eq hs
    intro hnil
    exact absurd hnil hne
  rw [intBase16, hascii, hdrop]
  split
  · apply absurd _ (hspec '-' List.mem_cons_self).2.2
    decide
  · apply absurd _ (hspec '+' List.mem_cons_self).2.2
    decide
  · rw [hbase, hread]
    rfl

/-- A text without the first character of a pattern has no occurrence of it. -/
theorem removeOccurrences_eq_self {p : Char} {pattern s : Text} (h : p ∉ s) :
  removeOccurrences (p :: pattern) 0 s = s
  := by
  induction s with
  | nil => rfl
  | cons c s ih =>
      have hne : p ≠ c := fun heq => h (heq ▸ List.mem_cons_self)
      rw [removeOccurrences, ih fun hmem => h (List.mem_cons_of_mem c hmem)]
      simp [List.isPrefixOf, hne]

/-- Grouping adds nothing but hyphens. -/
theorem filter_hyphenated {s : Text} (h : '-' ∉ s) (ns : List ℕ) :
  (hyphenated ns s).filter (· ≠ '-') = s
  := by
  induction ns generalizing s with
  | nil =>
      rw [hyphenated, List.filter_eq_self]
      intro c hc
      apply decide_eq_true
      rintro rfl
      apply h hc
  | cons n ns ih =>
      have htake : (s.take n).filter (· ≠ '-') = s.take n := by
        rw [List.filter_eq_self]
        intro c hc
        apply decide_eq_true
        rintro rfl
        apply h (List.mem_of_mem_take hc)
      rw [hyphenated, List.filter_append, htake, List.filter_cons_of_neg (by simp),
        ih fun hmem => h (List.mem_of_mem_drop hmem), List.take_append_drop]

/-- A text without braces stays as it is. -/
theorem stripBraces_eq_self {s : Text} (hopen : '{' ∉ s) (hclose : '}' ∉ s) :
  stripBraces s = s
  := by
  have hbrace : ∀ c ∈ s, ¬ (c = '{' || c = '}') = true := by
    intro c hc hbrace
    simp only [Bool.or_eq_true, decide_eq_true_eq] at hbrace
    rcases hbrace with rfl | rfl
    · apply hopen hc
    · apply hclose hc
  have hdrop : (s.dropWhile fun c => c = '{' || c = '}') = s := by
    cases s with
    | nil => rfl
    | cons c s => exact List.dropWhile_cons_of_neg (hbrace c List.mem_cons_self)
  rw [stripBraces, hdrop, List.rdropWhile_eq_self_iff]
  intro hne
  apply hbrace _ (List.getLast_mem hne)

/-- The canonical text of an identifier is read back. -/
theorem Uuid.parse_text (decimal : Char → Option ℕ) (id : Uuid) :
  Uuid.parse decimal id.text = some id
  := by
  set digits := hexDigits 32 id.toNat with hdef
  have hdigits : ∀ c ∈ digits, IsHexDigit c := fun c hc => isHexDigit_of_mem_hexDigits hc
  have hother : ∀ c ∈ ['-', '+', '_', 'x', 'X', 'u', '{', '}'], c ∉ digits := by
    intro c hc hmem
    obtain ⟨n, hn, rfl⟩ := hdigits c hmem
    apply (hexDigit_spec n hn).2.2.2 hc
  have hfilter : id.text.filter (· ≠ '-') = digits := filter_hyphenated (hother '-' (by simp)) _
  have hnot : ∀ c ∈ ['u', '{', '}'], c ∉ id.text := by
    intro c hc hmem
    have hdigit : c ∈ digits := by
      rw [← hfilter]
      apply List.mem_filter.mpr ⟨hmem, _⟩
      apply decide_eq_true
      rintro rfl
      revert hc
      decide
    have hsub : ['u', '{', '}'] ⊆ ['-', '+', '_', 'x', 'X', 'u', '{', '}'] := by decide
    apply hother c (hsub hc) hdigit
  have hlength : digits.length = 32 := length_hexDigits 32 id.toNat
  have hnumber : hexNumber 0 digits = id.toNat := by
    rw [hdef, hexNumber_hexDigits]
    apply Nat.mod_eq_of_lt
    apply lt_of_lt_of_eq id.isLt
    norm_num
  have hint : intBase16 decimal digits = some (id.toNat : ℤ) := by
    rw [intBase16_eq hdigits, hnumber]
    rintro hnil
    rw [hnil] at hlength
    cases hlength
  have hrange : 0 ≤ (id.toNat : ℤ) ∧ (id.toNat : ℤ) < 2 ^ 128 := by
    have hlt := id.isLt
    omega
  have hurn : removeOccurrences "urn:".toList 0 id.text = id.text :=
    removeOccurrences_eq_self (hnot 'u' (by simp))
  have huuid : removeOccurrences "uuid:".toList 0 id.text = id.text :=
    removeOccurrences_eq_self (hnot 'u' (by simp))
  simp only [parse, hurn, huuid, stripBraces_eq_self (hnot '{' (by simp)) (hnot '}' (by simp)),
    hfilter, hlength, hint, hrange]
  simp

end KnowledgeSearch

import Mathlib.Data.List.DropRight
import Mathlib.Tactic.NormNum

/-!
# Strings and identifiers

A string is the list of its characters. `isSpace` is the class of characters `str.isspace`
accepts and `str.strip` removes, and `Uuid.text` is the canonical text of an identifier,
32 hexadecimal digits in groups of 8, 4, 4, 4 and 12.
-/

namespace KnowledgeSearch

/-- A string, as the list of its characters. -/
abbrev Text := List Char

/-- The characters Python counts as white space. -/
def isSpace (c : Char) : Bool :=
  (9 ≤ c.toNat && c.toNat ≤ 13) || (28 ≤ c.toNat && c.toNat ≤ 32) || c.toNat == 0x85
    || c.toNat == 0xa0 || c.toNat == 0x1680 || (0x2000 ≤ c.toNat && c.toNat ≤ 0x200a)
    || c.toNat == 0x2028 || c.toNat == 0x2029 || c.toNat == 0x202f || c.toNat == 0x205f
    || c.toNat == 0x3000

/-- A string without the white space at its ends. -/
def strip (s : Text) : Text :=
  (s.dropWhile isSpace).rdropWhile isSpace

/-- A string nothing of which is left by `strip`. -/
def blank (s : Text) : Bool :=
  (strip s).isEmpty

/-- A string is blank when all its characters are white space. -/
theorem blank_iff {s : Text} :
  blank s = true ↔ ∀ c ∈ s, isSpace c = true
  := by
  rw [blank, strip, List.isEmpty_iff, List.rdropWhile_eq_nil_iff]
  constructor
  · intro h c hc
    rw [← List.takeWhile_append_dropWhile (p := isSpace) (l := s), List.mem_append] at hc
    rcases hc with hc | hc
    · apply List.mem_takeWhile_imp hc
    · apply h c hc
  · intro h c hc
    apply h c ((List.dropWhile_sublist isSpace).subset hc)

theorem blank_eq_false_iff {s : Text} :
  blank s = false ↔ ∃ c ∈ s, isSpace c = false
  := by
  rw [← Bool.not_eq_true, blank_iff]
  push Not
  simp only [ne_eq, Bool.not_eq_true]

/-- A string is blank when its parts are. -/
@[simp]
theorem blank_append (s t : Text) :
  blank (s ++ t) = (blank s && blank t)
  := by
  rw [Bool.eq_iff_iff, Bool.and_eq_true, blank_iff, blank_iff, blank_iff, List.forall_mem_append]

@[simp]
theorem blank_cons (c : Char) (s : Text) :
  blank (c :: s) = (isSpace c && blank s)
  := by
  rw [Bool.eq_iff_iff, Bool.and_eq_true, blank_iff, blank_iff, List.forall_mem_cons]

/-- `strip` leaves nothing of a blank string only. -/
theorem strip_eq_nil_iff {s : Text} :
  strip s = [] ↔ blank s = true
  := List.isEmpty_iff.symm

/-- A string with no white space at its ends is left as it is. -/
theorem strip_eq_self {s : Text} (hhead : ∀ c ∈ s.head?, isSpace c = false)
    (hlast : ∀ c ∈ s.getLast?, isSpace c = false) :
  strip s = s
  := by
  have hdrop : s.dropWhile isSpace = s := by
    cases s with
    | nil => rfl
    | cons c s =>
        apply List.dropWhile_cons_of_neg
        rw [hhead c rfl]
        exact Bool.false_ne_true
  rw [strip, hdrop, List.rdropWhile_eq_self_iff]
  intro hne
  rw [hlast _ (List.getLast?_eq_some_getLast hne)]
  exact Bool.false_ne_true

/-- What `strip` leaves starts with no white space. -/
theorem isSpace_head?_strip {s : Text} {c : Char} (h : c ∈ (strip s).head?) :
  isSpace c = false
  := by
  obtain ⟨t, ht⟩ := List.rdropWhile_prefix isSpace (s.dropWhile isSpace)
  rw [strip] at h
  have hhead : c ∈ (s.dropWhile isSpace).head? := by
    rw [← ht]
    apply List.mem_head?_append_of_mem_head? h
  have hnot := List.head?_dropWhile_not isSpace s
  rw [hhead] at hnot
  simpa using hnot

/-- What `strip` leaves ends with no white space. -/
theorem isSpace_getLast?_strip {s : Text} {c : Char} (h : c ∈ (strip s).getLast?) :
  isSpace c = false
  := by
  rw [Option.mem_def, List.getLast?_eq_some_iff] at h
  obtain ⟨t, ht⟩ := h
  have hne : strip s ≠ [] := by
    rw [ht]
    simp
  have hnot := List.rdropWhile_last_not isSpace (s.dropWhile isSpace) hne
  rw [Bool.not_eq_true] at hnot
  rw [← hnot]
  congr 1
  simp only [strip] at ht
  simp [ht]

@[simp]
theorem strip_strip (s : Text) :
  strip (strip s) = strip s
  := by
  apply strip_eq_self
  · intro c hc
    apply isSpace_head?_strip hc
  · intro c hc
    apply isSpace_getLast?_strip hc

/-! ### Slices -/

/-- `text[first:last]`: the characters from `first` on and before `last`. -/
def sliceText (text : Text) (first last : ℕ) : Text :=
  (text.take last).drop first

theorem getElem?_sliceText {text : Text} {first last i : ℕ} (h : first + i < last) :
  (sliceText text first last)[i]? = text[first + i]?
  := by
  rw [sliceText, List.getElem?_drop, List.getElem?_take_of_lt h]

/-- The characters of a slice are those between its ends. -/
theorem mem_sliceText {text : Text} {first last : ℕ} {c : Char} :
  c ∈ sliceText text first last ↔ ∃ i, first ≤ i ∧ i < last ∧ text[i]? = some c
  := by
  rw [sliceText, List.mem_iff_getElem?]
  constructor
  · rintro ⟨i, hi⟩
    rw [List.getElem?_drop, List.getElem?_take] at hi
    split at hi
    · exact ⟨first + i, by omega, by assumption, hi⟩
    · cases hi
  · rintro ⟨i, hfirst, hlast, hi⟩
    use i - first
    rw [List.getElem?_drop, Nat.add_sub_cancel' hfirst, List.getElem?_take_of_lt hlast, hi]

theorem length_sliceText {text : Text} {first last : ℕ} (h : last ≤ text.length) :
  (sliceText text first last).length = last - first
  := by
  rw [sliceText, List.length_drop, List.length_take, min_eq_left h]

theorem head?_sliceText {text : Text} {first last : ℕ} (h : first < last) :
  (sliceText text first last).head? = text[first]?
  := by
  rw [List.head?_eq_getElem?, getElem?_sliceText h, Nat.add_zero]

theorem getLast?_sliceText {text : Text} {first last : ℕ} (h : first < last)
    (hlast : last ≤ text.length) :
  (sliceText text first last).getLast? = text[last - 1]?
  := by
  rw [List.getLast?_eq_getElem?, length_sliceText hlast, getElem?_sliceText (by omega)]
  congr 1
  omega

/-! ### Identifiers -/

/-- A 128-bit identifier. -/
abbrev Uuid := BitVec 128

/-- The hexadecimal digit of value `n`. -/
def hexDigit (n : ℕ) : Char :=
  if n < 10 then Char.ofNat (48 + n) else Char.ofNat (87 + n)

/-- The last `n` hexadecimal digits of `v`. -/
def hexDigits : ℕ → ℕ → Text
  | 0, _ => []
  | n + 1, v => hexDigits n (v / 16) ++ [hexDigit (v % 16)]

@[simp]
theorem length_hexDigits :
    ∀ n v, (hexDigits n v).length = n
  | 0, _ => rfl
  | n + 1, v => by simp [hexDigits, length_hexDigits n]

theorem hexDigit_injective :
  ∀ a < 16, ∀ b < 16, hexDigit a = hexDigit b → a = b
  := by decide

/-- Numbers of at most `n` hexadecimal digits are equal when their digits are. -/
theorem hexDigits_injective :
    ∀ {n a b : ℕ}, a < 16 ^ n → b < 16 ^ n → hexDigits n a = hexDigits n b → a = b
  | 0, a, b, ha, hb, _ => by omega
  | n + 1, a, b, ha, hb, h => by
      obtain ⟨hhigh, hlow⟩ := List.append_inj' h rfl
      have hlast := hexDigit_injective (a % 16) (by omega) (b % 16) (by omega) (by simpa using hlow)
      have hrest := hexDigits_injective (n := n) (a := a / 16) (b := b / 16) (by omega) (by omega)
        hhigh
      omega

/-- A string cut into groups of the given lengths and a last one with what is left,
separated by hyphens. -/
def hyphenated : List ℕ → Text → Text
  | [], s => s
  | n :: ns, s => s.take n ++ '-' :: hyphenated ns (s.drop n)

@[simp]
theorem length_hyphenated :
    ∀ (ns : List ℕ) (s : Text), (hyphenated ns s).length = s.length + ns.length
  | [], _ => rfl
  | n :: ns, s => by
      simp only [hyphenated, List.length_append, List.length_cons, length_hyphenated ns,
        List.length_take, List.length_drop]
      omega

/-- Strings of one length are equal when they agree in groups. -/
theorem hyphenated_injective :
    ∀ {ns : List ℕ} {s t : Text}, s.length = t.length → hyphenated ns s = hyphenated ns t → s = t
  | [], _, _, _, h => h
  | n :: ns, s, t, hlen, h => by
      obtain ⟨htake, hrest⟩ := List.append_inj h (by simp [hlen])
      have hdrop := hyphenated_injective (by simp [hlen]) (List.cons.inj hrest).2
      rw [← List.take_append_drop n s, htake, hdrop, List.take_append_drop]

/-- The text of an identifier. -/
def Uuid.text (id : Uuid) : Text :=
  hyphenated [8, 4, 4, 4] (hexDigits 32 id.toNat)

@[simp]
theorem Uuid.length_text (id : Uuid) :
  id.text.length = 36
  := by
  rw [Uuid.text, length_hyphenated, length_hexDigits]
  rfl

/-- Identifiers with the same text are equal. -/
theorem Uuid.text_injective :
  Function.Injective Uuid.text
  := by
  intro a b h
  unfold Uuid.text at h
  apply BitVec.eq_of_toNat_eq
  apply hexDigits_injective (n := 32) (a := a.toNat) (b := b.toNat)
  · apply lt_of_lt_of_eq a.isLt
    norm_num
  · apply lt_of_lt_of_eq b.isLt
    norm_num
  · apply hyphenated_injective _ h
    rw [length_hexDigits, length_hexDigits]

end KnowledgeSearch

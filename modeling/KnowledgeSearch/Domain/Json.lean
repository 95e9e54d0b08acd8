import KnowledgeSearch.Domain.Chunks
import KnowledgeSearch.Foundations.PrefixCode

/-!
# JSON texts

The texts `json.dumps` makes of numbers, strings and lists of strings, and of objects whose
members are already texts, with separators without spaces. Characters outside of the printable
ones of ASCII are escaped.

A text is read off the front of what it begins, so that it determines what it was made of.
-/

namespace KnowledgeSearch

/-- The characters with a short escape, and the letter of the escape. -/
def shortEscapes : List (Char × Char) :=
  [('"', '"'), ('\\', '\\'), ('\x08', 'b'), ('\t', 't'), ('\n', 'n'), ('\x0c', 'f'), ('\r', 'r')]

/-- The escape of a code unit. -/
def unicodeEscape (n : ℕ) : Text :=
  '\\' :: 'u' :: hexDigits 4 n

/-- A character in a JSON string. A character outside of the basic plane is escaped as a pair of
surrogates. -/
def jsonEscape (c : Char) : Text :=
  match shortEscapes.lookup c with
  | some d => ['\\', d]
  | none =>
      if 32 ≤ c.toNat ∧ c.toNat ≤ 126 then [c]
      else if c.toNat < 0x10000 then unicodeEscape c.toNat
      else
        unicodeEscape (0xd800 + (c.toNat - 0x10000) / 0x400)
          ++ unicodeEscape (0xdc00 + (c.toNat - 0x10000) % 0x400)

/-- `json.dumps` of a string. -/
def jsonString (s : Text) : Text :=
  '"' :: (s.flatMap jsonEscape ++ ['"'])

/-- `json.dumps` of a number. -/
def jsonNumber (n : ℤ) : Text :=
  if n < 0 then '-' :: decimalText n.natAbs else decimalText n.natAbs

/-- `json.dumps` of a number that may be missing. -/
def jsonOptional : Option ℤ → Text
  | none => "null".toList
  | some n => jsonNumber n

/-- `json.dumps` of a list, given the texts of its members. -/
def jsonArray (members : List Text) : Text :=
  '[' :: ([','].intercalate members ++ [']'])

/-- `json.dumps` of a list of strings. -/
def jsonStrings (l : List Text) : Text :=
  jsonArray (l.map jsonString)

/-- `json.dumps` of an object, given the texts of its members. -/
def jsonObject (members : List (String × Text)) : Text :=
  '{' :: ([','].intercalate (members.map fun m => jsonString m.1.toList ++ ':' :: m.2) ++ ['}'])

/-! ### Strings -/

/-- The ways a character is escaped. -/
inductive Escaped (c : Char) : Text → Prop
  | short {d : Char} (h : (c, d) ∈ shortEscapes) : Escaped c ['\\', d]
  | plain (hquote : c ≠ '"') (hbackslash : c ≠ '\\') : Escaped c [c]
  | unit (h : c.toNat < 0xd800 ∨ 0xdfff < c.toNat ∧ c.toNat < 0x10000) :
      Escaped c (unicodeEscape c.toNat)
  | pair (hlow : 0x10000 ≤ c.toNat) (hhigh : c.toNat < 0x110000) :
      Escaped c (unicodeEscape (0xd800 + (c.toNat - 0x10000) / 0x400)
        ++ unicodeEscape (0xdc00 + (c.toNat - 0x10000) % 0x400))

theorem escaped_jsonEscape (c : Char) :
  Escaped c (jsonEscape c)
  := by
  unfold jsonEscape
  split
  · rename_i d hd
    apply Escaped.short
    obtain ⟨l₁, l₂, hl, -⟩ := List.lookup_eq_some_iff.mp hd
    rw [hl]
    simp
  · rename_i hnone
    have hne := List.lookup_eq_none_iff.mp hnone
    have hvalid : c.toNat < 0xd800 ∨ 0xdfff < c.toNat ∧ c.toNat < 0x110000 := c.valid
    split
    · apply Escaped.plain
      · rintro rfl
        simp [shortEscapes] at hne
      · rintro rfl
        simp [shortEscapes] at hne
    split
    · apply Escaped.unit
      omega
    · apply Escaped.pair
      · omega
      · omega

/-- The letters of short escapes determine the character, and none begins the escape of a code
unit. -/
theorem shortEscapes_spec :
  ∀ p ∈ shortEscapes, p.2 ≠ 'u' ∧ ∀ q ∈ shortEscapes, p.2 = q.2 → p.1 = q.1
  := by decide

/-- Escapes of code units are read off the front of a text. -/
theorem unicodeEscape_append {m n : ℕ} (hm : m < 0x10000) (hn : n < 0x10000) {s t : Text}
    (h : unicodeEscape m ++ s = unicodeEscape n ++ t) :
  m = n ∧ s = t
  := by
  have hdigits : hexDigits 4 m ++ s = hexDigits 4 n ++ t :=
    (List.cons.inj (List.cons.inj h).2).2
  obtain ⟨hmn, hst⟩ := List.append_inj hdigits (by simp)
  use hexDigits_injective hm hn hmn, hst

/-- Escaped characters are read off the front of a text. -/
theorem prefixCode_jsonEscape :
  PrefixCode jsonEscape
  := by
  intro c d s t h
  have hc := escaped_jsonEscape c
  have hd := escaped_jsonEscape d
  generalize jsonEscape c = u at h hc
  generalize jsonEscape d = v at h hd
  cases hc with
  | short hc =>
      obtain ⟨hcu, hinj⟩ := shortEscapes_spec _ hc
      cases hd with
      | short hd =>
          obtain ⟨-, h⟩ := List.cons.inj h
          obtain ⟨hletter, hst⟩ := List.cons.inj h
          use hinj _ hd hletter, hst
      | plain _ hbackslash => exact absurd (List.cons.inj h).1.symm hbackslash
      | unit | pair => exact absurd (List.cons.inj (List.cons.inj h).2).1 hcu
  | plain _ hbackslash =>
      cases hd with
      | plain => apply List.cons.inj h
      | short | unit | pair => exact absurd (List.cons.inj h).1 hbackslash
  | unit hc =>
      cases hd with
      | short hd =>
          exact absurd (List.cons.inj (List.cons.inj h).2).1.symm (shortEscapes_spec _ hd).1
      | plain _ hbackslash => exact absurd (List.cons.inj h).1.symm hbackslash
      | unit hd =>
          obtain ⟨hcd, hst⟩ := unicodeEscape_append (by omega) (by omega) h
          use Char.toNat_inj.mp hcd, hst
      | pair hlow hhigh =>
          rw [List.append_assoc] at h
          obtain ⟨hcd, -⟩ := unicodeEscape_append (by omega) (by omega) h
          omega
  | pair hlow hhigh =>
      rw [List.append_assoc] at h
      cases hd with
      | short hd =>
          exact absurd (List.cons.inj (List.cons.inj h).2).1.symm (shortEscapes_spec _ hd).1
      | plain _ hbackslash => exact absurd (List.cons.inj h).1.symm hbackslash
      | unit hd =>
          obtain ⟨hcd, -⟩ := unicodeEscape_append (by omega) (by omega) h
          omega
      | pair hlow' hhigh' =>
          rw [List.append_assoc] at h
          obtain ⟨hhighs, hrest⟩ := unicodeEscape_append (by omega) (by omega) h
          obtain ⟨hlows, hst⟩ := unicodeEscape_append (by omega) (by omega) hrest
          have hcd : c.toNat = d.toNat := by
            omega
          use Char.toNat_inj.mp hcd, hst

/-- The strings of JSON are read off the front of a text. -/
theorem prefixCode_jsonString :
  PrefixCode jsonString
  := by
  have hhead : ∀ c, (jsonEscape c).head? ≠ some '"' := by
    intro c
    have hc := escaped_jsonEscape c
    generalize jsonEscape c = u at hc
    cases hc with
    | plain hquote => simpa using hquote
    | short | unit | pair => simp [unicodeEscape]
  have hne : ∀ c, jsonEscape c ≠ [] := by
    intro c
    have hc := escaped_jsonEscape c
    generalize jsonEscape c = u at hc
    cases hc <;> simp [unicodeEscape]
  apply (prefixCode_jsonEscape.flatMap hhead hne).prepend ['"']

/-! ### Numbers and lists -/

theorem isDigit_of_mem_decimalText {n : ℕ} {c : Char} (h : c ∈ decimalText n) :
  c.isDigit = true
  := Nat.isDigit_of_mem_toDigits (by decide) (by decide) h

theorem decimalText_injective :
  Function.Injective decimalText
  := by
  intro m n h
  rw [← Nat.ofDigitChars_ten_toDigits (n := m), ← Nat.ofDigitChars_ten_toDigits (n := n)]
  congr 1

theorem jsonNumber_injective :
  Function.Injective jsonNumber
  := by
  have hminus : ∀ m n : ℕ, '-' :: decimalText m ≠ decimalText n := by
    intro m n h
    have hmem : '-' ∈ decimalText n := by
      rw [← h]
      apply List.mem_cons_self
    have hdigit := isDigit_of_mem_decimalText hmem
    revert hdigit
    decide
  intro m n h
  unfold jsonNumber at h
  split at h <;> split at h
  · have habs := decimalText_injective (List.cons.inj h).2
    omega
  · exact absurd h (hminus _ _)
  · exact absurd h.symm (hminus _ _)
  · have habs := decimalText_injective h
    omega

theorem not_mem_jsonNumber {c : Char} (hdigit : c.isDigit = false) (hminus : c ≠ '-') (n : ℤ) :
  c ∉ jsonNumber n
  := by
  have hdecimal : c ∉ decimalText n.natAbs := by
    intro hmem
    rw [isDigit_of_mem_decimalText hmem] at hdigit
    cases hdigit
  unfold jsonNumber
  split
  · rw [List.mem_cons, not_or]
    use hminus, hdecimal
  · apply hdecimal

/-- Numbers are read off the front of a text that goes on with a comma. -/
theorem jsonNumber_append {m n : ℤ} {s t : Text}
    (h : jsonNumber m ++ ',' :: s = jsonNumber n ++ ',' :: t) :
  m = n ∧ s = t
  := by
  obtain ⟨hmn, hst⟩ := List.eq_of_append_cons_eq (not_mem_jsonNumber rfl (by decide) m)
    (not_mem_jsonNumber rfl (by decide) n) h
  use jsonNumber_injective hmn, hst

theorem jsonOptional_injective :
  Function.Injective jsonOptional
  := by
  have hnull : ∀ n, jsonNumber n ≠ "null".toList := by
    intro n h
    apply not_mem_jsonNumber (c := 'n') rfl (by decide) n
    rw [h]
    apply List.mem_cons_self
  intro m n h
  cases m with
  | none =>
      cases n with
      | none => rfl
      | some n => exact absurd h.symm (hnull n)
  | some m =>
      cases n with
      | none => exact absurd h (hnull m)
      | some n => rw [jsonNumber_injective h]

/-- Numbers that may be missing are read off the front of a text that goes on with a character they
do not have. -/
theorem jsonOptional_append {c : Char} (hdigit : c.isDigit = false) (hminus : c ≠ '-')
    (hnull : c ∉ "null".toList) {m n : Option ℤ} {s t : Text}
    (h : jsonOptional m ++ c :: s = jsonOptional n ++ c :: t) :
  m = n ∧ s = t
  := by
  have hnot : ∀ n, c ∉ jsonOptional n := by
    intro n
    cases n with
    | none => apply hnull
    | some n => apply not_mem_jsonNumber hdigit hminus
  obtain ⟨hmn, hst⟩ := List.eq_of_append_cons_eq (hnot m) (hnot n) h
  use jsonOptional_injective hmn, hst

/-- The lists of what is read off the front of a text are so. -/
theorem prefixCode_jsonArray {α : Type*} {f : α → Text} (hf : PrefixCode f)
    (hbracket : ∀ a, (f a).head? ≠ some ']') (hne : ∀ a, f a ≠ []) :
  PrefixCode fun l : List α => jsonArray (l.map f)
  := (hf.intercalate (by decide) hbracket hne).prepend ['[']

/-- The lists of JSON strings are read off the front of a text. -/
theorem prefixCode_jsonStrings :
  PrefixCode jsonStrings
  := by
  apply prefixCode_jsonArray prefixCode_jsonString
  · simp [jsonString]
  · simp [jsonString]

end KnowledgeSearch

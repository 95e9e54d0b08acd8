import KnowledgeSearch.Domain.Text

/-!
# Normalization

`normalizeDocumentText` rewrites the white space of a text in five passes after it brought
the text into Unicode normal form C. `visible` are the characters of a text that are not
white space. No pass changes them, `visible_normalizeDocumentText`.
-/

namespace KnowledgeSearch

/-- The parts of the Unicode database the code uses. -/
structure UnicodeData where
  /-- `unicodedata.normalize("NFC", text)`. -/
  nfc : Text → Text
  /-- The characters the pattern `\w` matches. -/
  isWord : Char → Bool
  isSpace_of_isWord : ∀ c, isWord c = true → isSpace c = false
  /-- A text with a visible character has one in normal form. -/
  blank_nfc : ∀ text, blank text = false → blank (nfc text) = false
  /-- The null character is neither composed nor decomposed. -/
  null_mem_nfc : ∀ text, '\x00' ∈ nfc text ↔ '\x00' ∈ text

/-- The letters and digits of ASCII, and the underscore. -/
def isAsciiWord (c : Char) : Bool :=
  (48 ≤ c.toNat && c.toNat ≤ 57) || (65 ≤ c.toNat && c.toNat ≤ 90) || c.toNat == 95
    || (97 ≤ c.toNat && c.toNat ≤ 122)

theorem isSpace_of_isAsciiWord {c : Char} (h : isAsciiWord c = true) :
  isSpace c = false
  := by
  simp only [isAsciiWord, Bool.or_eq_true, Bool.and_eq_true, decide_eq_true_eq,
    beq_iff_eq] at h
  rw [← Bool.not_eq_true]
  intro hspace
  simp only [isSpace, Bool.or_eq_true, Bool.and_eq_true, decide_eq_true_eq,
    beq_iff_eq] at hspace
  omega

/-- The part of the database about ASCII. -/
def UnicodeData.ascii : UnicodeData where
  nfc text := text
  isWord := isAsciiWord
  isSpace_of_isWord _ := isSpace_of_isAsciiWord
  blank_nfc _ h := h
  null_mem_nfc _ := Iff.rfl

/-- `text.replace("\r\n", "\n")`. -/
def replaceCrLf : Text → Text
  | [] => []
  | c :: s => if c = '\r' ∧ s.head? = some '\n' then replaceCrLf s else c :: replaceCrLf s

/-- `text.replace(old, new)` for single characters. -/
def replaceChar (old new : Char) (text : Text) : Text :=
  text.map fun c => if c = old then new else c

/-- The characters of the pattern `[ \t]`. -/
def isBlankChar (c : Char) : Bool :=
  c == ' ' || c == '\t'

/-- Only blanks are left on the line. -/
def atLineEnd (s : Text) : Bool :=
  match s.dropWhile isBlankChar with
  | [] => true
  | c :: _ => c == '\n'

/-- `TRAILING_WHITESPACE.sub("", text)`: the blanks at the ends of lines are removed. -/
def removeTrailingWhitespace : Text → Text
  | [] => []
  | c :: s =>
      if isBlankChar c && atLineEnd s then removeTrailingWhitespace s
      else c :: removeTrailingWhitespace s

/-- A text, that comes after `count` line feeds, with the third and further ones of successive
line feeds left out. -/
def limitLineFeeds : ℕ → Text → Text
  | _, [] => []
  | count, c :: s =>
      if c = '\n' then
        if count < 2 then c :: limitLineFeeds (count + 1) s else limitLineFeeds (count + 1) s
      else c :: limitLineFeeds 0 s

/-- `EXCESS_BLANK_LINES.sub("\n\n", text)`: of three or more successive line feeds two are
left. -/
def removeExcessBlankLines (text : Text) : Text :=
  limitLineFeeds 0 text

/-- `normalize_document_text`. -/
def normalizeDocumentText (U : UnicodeData) (text : Text) : Text :=
  let normalized := U.nfc text
  let normalized := replaceChar '\r' '\n' (replaceCrLf normalized)
  let normalized := replaceChar '\u00a0' ' ' normalized
  let normalized := removeTrailingWhitespace normalized
  let normalized := removeExcessBlankLines normalized
  strip normalized

/-! ### Visible characters -/

/-- The characters of a text that are not white space, in order. -/
def visible (text : Text) : Text :=
  text.filter fun c => !isSpace c

@[simp]
theorem visible_nil :
  visible [] = []
  := rfl

theorem visible_cons_of_isSpace {c : Char} (h : isSpace c = true) (s : Text) :
  visible (c :: s) = visible s
  := by
  apply List.filter_cons_of_neg
  simp [h]

/-- Texts that go on from one character have the same visible characters when what follows
has. -/
theorem visible_cons_congr (c : Char) {s t : Text} (h : visible s = visible t) :
  visible (c :: s) = visible (c :: t)
  := by
  rw [visible, visible] at h ⊢
  rw [List.filter_cons, List.filter_cons, h]

theorem mem_visible {c : Char} {s : Text} :
  c ∈ visible s ↔ c ∈ s ∧ isSpace c = false
  := by
  rw [visible, List.mem_filter, Bool.not_eq_true']

/-- A text is blank when nothing of it is visible. -/
theorem blank_iff_visible {s : Text} :
  blank s = true ↔ visible s = []
  := by
  rw [blank_iff, visible, List.filter_eq_nil_iff]
  simp

theorem visible_replaceCrLf (s : Text) :
  visible (replaceCrLf s) = visible s
  := by
  induction s with
  | nil => rfl
  | cons c s ih =>
      rw [replaceCrLf]
      split
      · rename_i h
        rw [ih, h.1, visible_cons_of_isSpace (by decide)]
      · apply visible_cons_congr c ih

/-- White space may be replaced by other white space. -/
theorem visible_replaceChar {old new : Char} (hold : isSpace old = true)
    (hnew : isSpace new = true) (s : Text) :
  visible (replaceChar old new s) = visible s
  := by
  induction s with
  | nil => rfl
  | cons c s ih =>
      rw [replaceChar, List.map_cons]
      split
      · rename_i h
        rw [h, visible_cons_of_isSpace hnew, visible_cons_of_isSpace hold]
        apply ih
      · apply visible_cons_congr c ih

theorem isSpace_of_isBlankChar {c : Char} (h : isBlankChar c = true) :
  isSpace c = true
  := by
  rw [isBlankChar, Bool.or_eq_true, beq_iff_eq, beq_iff_eq] at h
  rcases h with rfl | rfl
  · rfl
  · rfl

theorem visible_removeTrailingWhitespace (s : Text) :
  visible (removeTrailingWhitespace s) = visible s
  := by
  induction s with
  | nil => rfl
  | cons c s ih =>
      rw [removeTrailingWhitespace]
      split
      · rename_i h
        rw [Bool.and_eq_true] at h
        rw [ih, visible_cons_of_isSpace (isSpace_of_isBlankChar h.1)]
      · apply visible_cons_congr c ih

theorem visible_limitLineFeeds (count : ℕ) (s : Text) :
  visible (limitLineFeeds count s) = visible s
  := by
  induction s generalizing count with
  | nil => rfl
  | cons c s ih =>
      rw [limitLineFeeds]
      split
      · rename_i h
        split
        · apply visible_cons_congr c (ih _)
        · rw [ih, h, visible_cons_of_isSpace (by decide)]
      · apply visible_cons_congr c (ih _)

theorem visible_dropWhile_isSpace (s : Text) :
  visible (s.dropWhile isSpace) = visible s
  := by
  induction s with
  | nil => rfl
  | cons c s ih =>
      rw [List.dropWhile_cons]
      split
      · rename_i h
        rw [ih, visible_cons_of_isSpace h]
      · rfl

theorem visible_reverse (s : Text) :
  visible s.reverse = (visible s).reverse
  := List.filter_reverse

theorem visible_strip (s : Text) :
  visible (strip s) = visible s
  := by
  rw [strip, List.rdropWhile, visible_reverse, visible_dropWhile_isSpace, visible_reverse,
    List.reverse_reverse, visible_dropWhile_isSpace]

/-- Normalization keeps the visible characters of the normal form. -/
theorem visible_normalizeDocumentText (U : UnicodeData) (text : Text) :
  visible (normalizeDocumentText U text) = visible (U.nfc text)
  := by
  rw [normalizeDocumentText, visible_strip, removeExcessBlankLines, visible_limitLineFeeds,
    visible_removeTrailingWhitespace, visible_replaceChar (by decide) (by decide),
    visible_replaceChar (by decide) (by decide), visible_replaceCrLf]

/-- Nothing is left of a text only if its normal form is blank. -/
theorem normalizeDocumentText_eq_nil_iff {U : UnicodeData} {text : Text} :
  normalizeDocumentText U text = [] ↔ blank (U.nfc text) = true
  := by
  constructor
  · intro h
    rw [blank_iff_visible, ← visible_normalizeDocumentText, h, visible_nil]
  · intro h
    rw [blank_iff_visible, ← visible_normalizeDocumentText, ← blank_iff_visible,
      ← strip_eq_nil_iff] at h
    rw [← h, normalizeDocumentText, strip_strip]

end KnowledgeSearch

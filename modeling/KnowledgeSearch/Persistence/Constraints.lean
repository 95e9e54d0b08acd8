import KnowledgeSearch.Application.Documents
import KnowledgeSearch.Application.Ingestion
import KnowledgeSearch.Persistence.Records

/-!
# What the columns take

The columns of a table keep a text that is short enough and free of the zero character, and a number
within their range. So the tables take the rows of documents and jobs as they are when the texts of the
application fit: the names `submit` accepts, generated storage keys, and the codes of failures.
-/

namespace KnowledgeSearch

open Database (rejectsText)

/-! ### Texts -/

/-- The text has no control character of ASCII. -/
def Printable (text : Text) : Prop :=
  ∀ c ∈ text, 32 ≤ c.toNat

-- The list is what is searched, not the type of characters.
instance (text : Text) : Decidable (Printable text) :=
  List.decidableBAll (fun c : Char => 32 ≤ c.toNat) text

theorem Printable.append {a b : Text} (ha : Printable a) (hb : Printable b) :
  Printable (a ++ b)
  := by
  intro c hc
  rcases List.mem_append.mp hc with hc | hc
  · apply ha c hc
  · apply hb c hc

/-- A column keeps a printable text within its limit. -/
theorem Printable.varchar_eq {text : Text} (h : Printable text) {limit : ℕ}
    (hlength : text.length ≤ limit) :
  varchar limit text = .ok text
  := by
  have hrejects : rejectsText text = false := by
    rw [rejectsText, ← Bool.not_eq_true, List.contains_iff_mem]
    intro hmem
    have hcontrol := h _ hmem
    revert hcontrol
    decide
  rw [varchar, hrejects, List.drop_eq_nil_of_le hlength, List.take_of_length_le hlength]
  rfl

theorem integer_eq_ok_iff {bits : ℕ} {n : ℤ} :
  integer bits n = .ok n ↔ -2 ^ (bits - 1) ≤ n ∧ n < 2 ^ (bits - 1)
  := by
  unfold integer
  split
  · rename_i h
    simp [h]
  · rename_i h
    simp [h]

/-- A number that is kept is kept as it is. -/
theorem eq_of_integer {bits : ℕ} {n m : ℤ} (h : integer bits n = .ok m) :
  m = n
  := by
  unfold integer at h
  split at h
  · apply (Except.ok.inj h).symm
  · cases h

theorem nullable_eq {α : Type} {column : α → Except AppError α} {value : Option α}
    (h : ∀ a ∈ value, column a = .ok a) :
  nullable column value = .ok value
  := by
  cases value with
  | none => rfl
  | some a =>
      rw [nullable, h a rfl]
      rfl

/-! ### Names -/

/-- A name `submit` accepts fits its column. -/
theorem varchar_filename {filename : Text} (h : validateFilename filename = .ok filename) :
  varchar 255 filename = .ok filename
  := by
  unfold validateFilename at h
  split at h
  · cases h
  rename_i hvalid
  simp only [Bool.or_eq_true, decide_eq_true_eq, List.any_eq_true, not_or, not_exists, not_and,
    not_lt] at hvalid
  obtain ⟨⟨⟨⟨⟨-, hlength⟩, -⟩, -⟩, -⟩, hprintable⟩ := hvalid
  apply Printable.varchar_eq hprintable hlength

/-! ### Storage keys -/

theorem hexDigit_printable :
  ∀ n < 16, 32 ≤ (hexDigit n).toNat
  := by decide

theorem printable_hexDigits :
    ∀ n v, Printable (hexDigits n v)
  | 0, _ => by simp [Printable, hexDigits]
  | n + 1, v => by
      apply (printable_hexDigits n (v / 16)).append
      intro c hc
      rw [List.mem_singleton.mp hc]
      apply hexDigit_printable _ (Nat.mod_lt _ (by norm_num))

theorem printable_hyphenated :
    ∀ {ns : List ℕ} {s : Text}, Printable s → Printable (hyphenated ns s)
  | [], _, h => h
  | n :: ns, s, h => by
      have hbefore : Printable (s.take n) := by
        intro c hc
        apply h c (List.mem_of_mem_take hc)
      have hafter : Printable (hyphenated ns (s.drop n)) := by
        apply printable_hyphenated
        intro c hc
        apply h c (List.mem_of_mem_drop hc)
      apply hbefore.append
      intro c hc
      rcases List.mem_cons.mp hc with rfl | hc
      · decide
      · apply hafter c hc

/-- A generated storage key fits its column. -/
theorem varchar_storageKey (id : Uuid) (mediaType : DocumentMediaType) :
  varchar 512 (storageKey id mediaType) = .ok (storageKey id mediaType)
  := by
  have hsource : Printable ('/' :: ("source".toList ++ mediaSuffix mediaType))
      ∧ ('/' :: ("source".toList ++ mediaSuffix mediaType)).length ≤ 17 := by
    cases mediaType <;> decide
  apply Printable.varchar_eq
  · apply Printable.append _ hsource.1
    apply printable_hyphenated (printable_hexDigits 32 id.toNat)
  · rw [storageKey, List.length_append, id.length_text]
    omega

/-! ### Content hashes -/

/-- A content hash fits its column. -/
theorem varchar_sha256 {sha256 : Text} (h : isSha256 sha256 = true) :
  varchar 64 sha256 = .ok sha256
  := by
  simp only [isSha256, Bool.and_eq_true, beq_iff_eq, List.all_eq_true, Bool.or_eq_true,
    decide_eq_true_eq] at h
  obtain ⟨hlength, hdigits⟩ := h
  apply Printable.varchar_eq _ hlength.le
  intro c hc
  rcases hdigits c hc with ⟨hlow, -⟩ | ⟨hlow, -⟩
  · exact le_trans (by decide) (Char.le_def.mp hlow : '0'.toNat ≤ c.toNat)
  · exact le_trans (by decide) (Char.le_def.mp hlow : 'a'.toNat ≤ c.toNat)

/-! ### Codes of failures -/

/-- A code the application gives a failure: that of an error, or that of a lost dispatch. -/
def IsFailureCode (code : Text) : Prop :=
  code = "queue_unavailable".toList ∨ ∃ error, code = failureCode error

/-- A code of a failure fits its column. -/
theorem IsFailureCode.varchar_eq {code : Text} (h : IsFailureCode code) :
  varchar 128 code = .ok code
  := by
  rcases h with rfl | ⟨error, rfl⟩
  · decide
  · cases error with
    | ingestion code message => cases code <;> rfl
    | _ => rfl

/-! ### Rows -/

/-- The table keeps the row of a document with a name that was accepted, a generated storage key and a code
of a failure, unless its file is too large or another row has its storage key or its content hash. -/
theorem store_documentToRecord_iff {rows : Table DocumentRecord.id} {document : Document} {id : Uuid}
    {mediaType : DocumentMediaType}
    (hfilename : validateFilename document.originalFilename = .ok document.originalFilename)
    (hkey : document.storageKey = storageKey id mediaType)
    (hcode : ∀ code ∈ document.failureCode, IsFailureCode code) :
  DocumentRecord.store rows (documentToRecord document) = .ok (documentToRecord document)
    ↔ document.sizeBytes < 2 ^ 63 ∧ (documentToRecord document).taken rows = false
  := by
  have hvalid := firstViolation_eq_none_iff.mp document.valid
  simp only [DocumentFields.checks, List.mem_cons, List.not_mem_nil, or_false,
    forall_eq_or_imp, forall_eq, Bool.not_eq_false', decide_eq_false_iff_not, not_lt] at hvalid
  obtain ⟨-, -, hsha, hsize, -⟩ := hvalid
  have hkept : (documentToRecord document).kept = .ok (documentToRecord document)
      ↔ document.sizeBytes < 2 ^ 63 := by
    have hinteger : integer 64 document.sizeBytes = .ok document.sizeBytes
        ↔ document.sizeBytes < 2 ^ 63 := by
      rw [integer_eq_ok_iff]
      omega
    rw [← hinteger, DocumentRecord.kept]
    simp only [documentToRecord]
    rw [varchar_filename hfilename, hkey, varchar_storageKey, varchar_sha256 hsha,
      nullable_eq fun code hmem => (hcode code hmem).varchar_eq]
    simp only [bind_eq_ok_iff, Except.ok.injEq, exists_eq_left']
    constructor
    · rintro ⟨n, hn, -⟩
      rw [hn, eq_of_integer hn]
    · intro hn
      use document.sizeBytes, hn
  rw [DocumentRecord.store, keep_eq_ok_iff, hkept, checks_documentToRecord]
  simp

/-- The table keeps the row of a job with a code of a failure, unless it has been attempted too often. -/
theorem store_jobToRecord_iff {rows : Table IngestionJobRecord.id} {job : IngestionJob}
    (hcode : ∀ code ∈ job.failureCode, IsFailureCode code) :
  IngestionJobRecord.store rows (jobToRecord job) = .ok (jobToRecord job)
    ↔ job.attemptCount < 2 ^ 31
  := by
  have hvalid := firstViolation_eq_none_iff.mp job.valid
  simp only [IngestionJobFields.checks, List.mem_cons, List.not_mem_nil, or_false,
    forall_eq_or_imp, forall_eq, decide_eq_false_iff_not, not_lt] at hvalid
  obtain ⟨hcount, -⟩ := hvalid
  have hinteger : integer 32 job.attemptCount = .ok job.attemptCount ↔ job.attemptCount < 2 ^ 31 := by
    rw [integer_eq_ok_iff]
    omega
  rw [← hinteger, IngestionJobRecord.store, keep_eq_ok_iff, checks_jobToRecord,
    IngestionJobRecord.kept]
  simp only [jobToRecord]
  rw [nullable_eq fun code hmem => (hcode code hmem).varchar_eq]
  simp only [bind_eq_ok_iff, Except.ok.injEq, exists_eq_left', and_true]
  constructor
  · rintro ⟨n, hn, -⟩
    rw [hn, eq_of_integer hn]
  · intro hn
    use job.attemptCount, hn

end KnowledgeSearch

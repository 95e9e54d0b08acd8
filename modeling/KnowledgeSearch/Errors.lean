import KnowledgeSearch.Domain.Documents

/-!
# Exceptions

`AppError` is the type of the exceptions the modelled code raises. Computations that may
raise return `Except AppError`.
-/

namespace KnowledgeSearch

inductive IngestionErrorCode where
  | emptyUpload
  | fileTooLarge
  | invalidFilename
  | invalidStorageKey
  | mediaTypeMismatch
  | storageConflict
  | unsupportedMediaType
  | invalidTextEncoding
  | invalidPdf
  | encryptedPdf
  | pdfPageLimitExceeded
  | noExtractableText
  deriving DecidableEq

def IngestionErrorCode.value : IngestionErrorCode → String
  | emptyUpload => "empty_upload"
  | fileTooLarge => "file_too_large"
  | invalidFilename => "invalid_filename"
  | invalidStorageKey => "invalid_storage_key"
  | mediaTypeMismatch => "media_type_mismatch"
  | storageConflict => "storage_conflict"
  | unsupportedMediaType => "unsupported_media_type"
  | invalidTextEncoding => "invalid_text_encoding"
  | invalidPdf => "invalid_pdf"
  | encryptedPdf => "encrypted_pdf"
  | pdfPageLimitExceeded => "pdf_page_limit_exceeded"
  | noExtractableText => "no_extractable_text"

/-- The exceptions of the domain and the application, of the database (`integrity` for a
violated constraint, `database` for any other failure), and of the operating system. -/
inductive AppError where
  | domain (error : DomainError)
  | ingestion (code : IngestionErrorCode) (message : String)
  | queueDispatch (message : String) (documentId jobId : Option Uuid)
  | embedding (message : String)
  | vectorIndex (message : String)
  | documentNotFound (documentId : Uuid)
  | jobNotFound (jobId : Uuid)
  | duplicateDocument (existingDocumentId : Uuid)
  | deletionConflict (documentId : Uuid) (status : DocumentStatus)
  | cleanup (message : String)
  | runtime (message : String)
  | lookup (message : String)
  | value (message : String)
  | searchQuery (message : String)
  | integrity
  | database
  | os
  deriving DecidableEq

/-- A domain computation, its error as an exception of the application. -/
def liftDomain {α : Type} : Except DomainError α → Except AppError α
  | .ok a => .ok a
  | .error e => .error (.domain e)

@[simp]
theorem liftDomain_eq_ok_iff {α : Type} {x : Except DomainError α} {a : α} :
  liftDomain x = .ok a ↔ x = .ok a
  := by
  cases x with
  | ok b => simp [liftDomain]
  | error e => simp [liftDomain]

/-- A computation raises when it has no result. -/
theorem exists_eq_error_iff {ε α : Type} {x : Except ε α} :
  (∃ e, x = .error e) ↔ ¬ ∃ a, x = .ok a
  := by
  cases x with
  | ok a => simp
  | error e => simp

/-- A sequence of two computations succeeds when both do. -/
theorem bind_eq_ok_iff {ε α β : Type} {x : Except ε α} {f : α → Except ε β} {b : β} :
  (x >>= f) = .ok b ↔ ∃ a, x = .ok a ∧ f a = .ok b
  := by
  cases x with
  | ok a => simp [bind, Except.bind]
  | error e => simp [bind, Except.bind]

/-- A first member and the others are computed when both are. -/
theorem bind_cons_eq_ok_iff {ε α β : Type} {x : Except ε α} {f : α → β} {y : Except ε (List β)}
    {l : List β} :
  (x >>= fun a => y >>= fun bs => .ok (f a :: bs)) = .ok l
    ↔ ∃ a bs, x = .ok a ∧ y = .ok bs ∧ l = f a :: bs
  := by
  rw [bind_eq_ok_iff]
  simp only [bind_eq_ok_iff]
  constructor
  · rintro ⟨a, hx, bs, hy, hl⟩
    exact ⟨a, bs, hx, hy, (Except.ok.inj hl).symm⟩
  · rintro ⟨a, bs, hx, hy, rfl⟩
    exact ⟨a, hx, bs, hy, rfl⟩

/-- A sequence of two computations goes on after the first. -/
theorem bind_of_eq_ok {ε α β : Type} {x : Except ε α} {f : α → Except ε β} {a : α}
    (h : x = .ok a) :
  (x >>= f) = f a
  := by
  rw [h]
  rfl

/-- A sequence of two computations raises when one of them does. -/
theorem bind_eq_error_iff {ε α β : Type} {x : Except ε α} {f : α → Except ε β}
    {e : ε} :
  (x >>= f) = .error e ↔ x = .error e ∨ ∃ a, x = .ok a ∧ f a = .error e
  := by
  cases x with
  | ok a => simp [bind, Except.bind]
  | error e => simp [bind, Except.bind]

theorem liftDomain_eq_error {α : Type} {x : Except DomainError α} {e : AppError}
    (h : liftDomain x = .error e) :
  ∃ error, e = .domain error
  := by
  cases x with
  | ok a => cases h
  | error error =>
      use error
      apply (Except.error.inj h).symm

end KnowledgeSearch

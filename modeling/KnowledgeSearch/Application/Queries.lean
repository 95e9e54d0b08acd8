import KnowledgeSearch.Application.Stores
import KnowledgeSearch.Foundations.Paging

/-!
# Queries

`DocumentQueries` reads single documents and jobs, and the pages of the listing of all documents, the
newest first.
-/

namespace KnowledgeSearch

/-- The order of the listing: by creation time from the newest on, and by identifier. -/
def Document.ListedBefore (a b : Document) : Prop :=
  b.createdAt < a.createdAt ∨ (a.createdAt = b.createdAt ∧ a.id ≤ b.id)

namespace Document.ListedBefore

instance : DecidableRel Document.ListedBefore :=
  fun a b => inferInstanceAs (Decidable (b.createdAt < a.createdAt ∨ _))

instance : Std.Total Document.ListedBefore where
  total a b := by
    simp only [Document.ListedBefore]
    rcases lt_trichotomy a.createdAt b.createdAt with h | h | h
    · exact Or.inr (Or.inl h)
    · rcases BitVec.le_total a.id b.id with hid | hid
      · exact Or.inl (Or.inr ⟨h, hid⟩)
      · exact Or.inr (Or.inr ⟨h.symm, hid⟩)
    · exact Or.inl (Or.inl h)

instance : IsTrans Document Document.ListedBefore where
  trans a b c hab hbc := by
    simp only [Document.ListedBefore] at hab hbc ⊢
    rcases hab with hab | ⟨hab, hid⟩
    · rcases hbc with hbc | ⟨hbc, -⟩
      · exact Or.inl (lt_trans hbc hab)
      · exact Or.inl (hbc ▸ hab)
    · rcases hbc with hbc | ⟨hbc, hid'⟩
      · exact Or.inl (hab ▸ hbc)
      · exact Or.inr ⟨hab.trans hbc, BitVec.le_trans hid hid'⟩

/-- Documents that come before each other have the same identifier. -/
theorem id_eq {a b : Document} (hab : a.ListedBefore b) (hba : b.ListedBefore a) :
  a.id = b.id
  := by
  simp only [Document.ListedBefore] at hab hba
  rcases hab with hab | ⟨heq, hid⟩
  · rcases hba with hba | ⟨heq, -⟩
    · exact absurd hba (not_lt_of_gt hab)
    · rw [heq] at hab
      exact absurd hab (lt_irrefl _)
  · rcases hba with hba | ⟨-, hid'⟩
    · rw [heq] at hba
      exact absurd hba (lt_irrefl _)
    · apply BitVec.le_antisymm hid hid'

end Document.ListedBefore

namespace Database

/-- `SqlAlchemyDocumentRepository.list`. -/
def listDocuments (db : Database) (offset limit : ℕ) : List Document :=
  db.documents.rows.page Document.ListedBefore offset limit

/-- The number of documents listed before a document. -/
def listingRank (db : Database) (document : Document) : ℕ :=
  db.documents.rows.rank Document.ListedBefore document

theorem nodup_documents (db : Database) :
  db.documents.rows.Nodup
  := db.documents.nodup.of_map _

/-- The members of a page of the listing are the documents whose rank lies in it. -/
theorem mem_listDocuments_iff {db : Database} {offset limit : ℕ} {document : Document} :
  document ∈ db.listDocuments offset limit
    ↔ document ∈ db.documents ∧ offset ≤ db.listingRank document
      ∧ db.listingRank document < offset + limit
  := by
  apply List.mem_page_iff db.nodup_documents
  intro a ha b hb hab hba
  apply Table.eq_of_key_eq (t := db.documents) ha hb (hab.id_eq hba)

theorem nodup_listDocuments (db : Database) (offset limit : ℕ) :
  (db.listDocuments offset limit).Nodup
  := List.nodup_page db.nodup_documents offset limit

end Database

namespace DocumentQueries

/-- `get_document`. -/
def getDocument (db : Database) (documentId : Uuid) : Except AppError Document :=
  match db.getDocument documentId with
  | none => .error (.documentNotFound documentId)
  | some document => .ok document

/-- `list_documents`. -/
def listDocuments (db : Database) (offset limit : ℕ) : List Document :=
  db.listDocuments offset limit

/-- `get_job`. -/
def getJob (db : Database) (jobId : Uuid) : Except AppError IngestionJob :=
  match db.getJob jobId with
  | none => .error (.jobNotFound jobId)
  | some job => .ok job

end DocumentQueries

end KnowledgeSearch

import KnowledgeSearch.Persistence.Records

/-!
# The migration of the deletion status

The revision `20260730_02` of the schema lets documents have the status `deleting`. Going back, it first
makes the documents that have it failed ones. `downgrade_documentRecords` says what becomes of the rows of
documents in both directions.
-/

namespace KnowledgeSearch

/-! ### The statements -/

/-- `ORIGINAL_STATUSES`. -/
def originalStatuses : List String :=
  ["uploaded", "queued", "processing", "ready", "failed"]

/-- `DELETION_STATUSES`. -/
def deletionStatuses : List String :=
  originalStatuses ++ ["deleting"]

/-- The constraint `ck_documents_status` replaced by one that lists the statuses; the database refuses it
when a row violates it. -/
def replaceStatusConstraint (statuses : List String) (rows : Table DocumentRecord.id) :
    Except AppError (Table DocumentRecord.id) :=
  if rows.rows.all fun record => statuses.contains record.status then .ok rows
  else .error .integrity

/-- A row after the update of `downgrade`. The expression of `updated_at` is that of the mapper, so that the
statement leaves the column. -/
def DocumentRecord.interrupt (record : DocumentRecord) : DocumentRecord :=
  if record.status = "deleting" then
    { record with status := "failed", failureCode := some "deletion_interrupted".toList }
  else record

theorem DocumentRecord.id_interrupt (record : DocumentRecord) :
  record.interrupt.id = record.id
  := by
  unfold interrupt
  split <;> rfl

/-- The rows after the update of `downgrade`. -/
def interruptRows (rows : Table DocumentRecord.id) : Table DocumentRecord.id where
  rows := rows.rows.map DocumentRecord.interrupt
  nodup := by
    have hids : DocumentRecord.id ∘ DocumentRecord.interrupt = DocumentRecord.id := by
      funext record
      apply record.id_interrupt
    rw [List.map_map, hids]
    apply rows.nodup

/-- `upgrade`. -/
def upgrade : Table DocumentRecord.id → Except AppError (Table DocumentRecord.id) :=
  replaceStatusConstraint deletionStatuses

/-- `downgrade`: the updated rows must meet the constraints that are in place. -/
def downgrade (rows : Table DocumentRecord.id) : Except AppError (Table DocumentRecord.id) := do
  let rows ←
    if (interruptRows rows).rows.all DocumentRecord.checks then .ok (interruptRows rows)
    else .error .integrity
  replaceStatusConstraint originalStatuses rows

theorem replaceStatusConstraint_eq_ok {statuses : List String} {rows : Table DocumentRecord.id}
    (h : ∀ record ∈ rows.rows, record.status ∈ statuses) :
  replaceStatusConstraint statuses rows = .ok rows
  := by
  apply if_pos
  apply List.all_eq_true.mpr
  intro record hrecord
  apply List.contains_iff_mem.mpr (h record hrecord)

/-! ### The documents of the rows -/

theorem Document.valid_interrupt (document : Document) :
  firstViolation { document.toDocumentFields with
    status := .failed, failureCode := some "deletion_interrupted".toList }.checks = none
  := by
  have hvalid := firstViolation_eq_none_iff.mp document.valid
  simp only [DocumentFields.checks, List.mem_cons, List.not_mem_nil, or_false, forall_eq_or_imp,
    forall_eq] at hvalid
  obtain ⟨hname, hkey, hsha, hsize, hupdated, -⟩ := hvalid
  apply firstViolation_eq_none_iff.mpr
  simp only [DocumentFields.checks, List.mem_cons, List.not_mem_nil, or_false, forall_eq_or_imp,
    forall_eq]
  exact ⟨hname, hkey, hsha, hsize, hupdated, rfl, rfl⟩

/-- The document of a row after the update of `downgrade`. -/
def Document.interrupt (document : Document) : Document :=
  if document.status = .deleting then ⟨_, document.valid_interrupt⟩ else document

theorem Document.interrupt_of_deleting {document : Document} (h : document.status = .deleting) :
  document.interrupt.status = .failed ∧ document.interrupt.Revises document
    ∧ document.interrupt.updatedAt = document.updatedAt
  := by
  rw [interrupt, if_pos h]
  exact ⟨rfl, rfl, rfl⟩

theorem Document.interrupt_of_ne_deleting {document : Document} (h : document.status ≠ .deleting) :
  document.interrupt = document
  := by rw [interrupt, if_neg h]

theorem Document.interrupt_revises (document : Document) :
  document.interrupt.Revises document
  := by
  by_cases h : document.status = .deleting
  · apply (interrupt_of_deleting h).2.1
  · rw [interrupt_of_ne_deleting h]
    apply Document.Revises.refl

theorem Document.status_interrupt (document : Document) :
  document.interrupt.status.value ∈ originalStatuses
  := by
  by_cases h : document.status = .deleting
  · rw [(interrupt_of_deleting h).1]
    decide
  · rw [interrupt_of_ne_deleting h]
    cases hstatus : document.status with
    | deleting => exact absurd hstatus h
    | _ => decide

/-- The update of `downgrade` turns the row of a document into that of the interrupted one. -/
theorem interrupt_documentToRecord (document : Document) :
  (documentToRecord document).interrupt = documentToRecord document.interrupt
  := by
  by_cases h : document.status = .deleting
  · have hvalue : (documentToRecord document).status = "deleting" := by
      rw [documentToRecord, h]
      rfl
    rw [DocumentRecord.interrupt, if_pos hvalue, Document.interrupt, if_pos h]
    rfl
  · have hvalue : (documentToRecord document).status ≠ "deleting" := by
      intro hvalue
      apply h
      apply DocumentStatus.value_injective
      exact hvalue
    rw [DocumentRecord.interrupt, if_neg hvalue, Document.interrupt_of_ne_deleting h]

/-- The rows of documents can be taken back to the original schema and forth again. They are then those of
the same documents, those being deleted interrupted. -/
theorem downgrade_documentRecords {rows : Table DocumentRecord.id} {documents : List Document}
    (hrows : rows.rows = documents.map documentToRecord) :
  downgrade rows = .ok (interruptRows rows) ∧ upgrade (interruptRows rows) = .ok (interruptRows rows)
    ∧ (interruptRows rows).rows = (documents.map Document.interrupt).map documentToRecord
  := by
  have hinterrupted : (interruptRows rows).rows
      = (documents.map Document.interrupt).map documentToRecord := by
    simp only [interruptRows, hrows, List.map_map]
    apply List.map_congr_left
    intro document _
    apply interrupt_documentToRecord
  have hstatus : ∀ record ∈ (interruptRows rows).rows, record.status ∈ originalStatuses := by
    rw [hinterrupted]
    intro record hrecord
    obtain ⟨document', hdocument', rfl⟩ := List.mem_map.mp hrecord
    obtain ⟨document, -, rfl⟩ := List.mem_map.mp hdocument'
    apply document.status_interrupt
  have hchecks : (interruptRows rows).rows.all DocumentRecord.checks = true := by
    rw [hinterrupted]
    apply List.all_eq_true.mpr
    intro record hrecord
    obtain ⟨document, -, rfl⟩ := List.mem_map.mp hrecord
    apply checks_documentToRecord
  refine ⟨?_, ?_, hinterrupted⟩
  · rw [downgrade, if_pos hchecks]
    apply replaceStatusConstraint_eq_ok hstatus
  · apply replaceStatusConstraint_eq_ok
    intro record hrecord
    apply List.mem_append_left _ (hstatus record hrecord)

end KnowledgeSearch

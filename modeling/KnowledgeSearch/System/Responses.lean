import KnowledgeSearch.Api.Documents
import KnowledgeSearch.System.Withdrawal

/-!
# What the responses of the document routes say

A client of `DELETE /documents/{id}` learns from the status what has become of the document, whatever
other calls do meanwhile: `System.delete_answers`. Transactions are atomic here; were another one to
overwrite the mark of the deletion, a document could come back.
-/

namespace KnowledgeSearch

open Database

/-! ### The errors of a call of `delete` -/

/-- The services raise errors of their own kind. -/
def DeletionEvent.Genuine : DeletionEvent → Prop
  | mark _ _ fault | finish fault => ∀ e ∈ fault, e = .integrity ∨ e = .database
  | cancel fault => ∀ e ∈ fault, ∃ message, e = .queueDispatch message none none
  | clear fault => ∀ f ∈ fault, ∃ message, f.1 = .vectorIndex message
  | removeFile fault => ∀ e ∈ fault, e = .os
  | crash => True

def DeletionEvent.IsMark : DeletionEvent → Prop
  | mark _ _ _ => True
  | _ => False

/-- An error without a handler. -/
def AppError.Unhandled : AppError → Prop
  | integrity | database | os | domain _ | lookup _ => True
  | _ => False

theorem AppError.Unhandled.statusCode {path : String} {error : AppError} (h : error.Unhandled) :
  raisedResponse path error = .internalServerError
  := by
  cases error with
  | integrity | database | os | domain | lookup => rfl
  | _ => cases h

/-- The first transaction of `delete` refuses a document that is missing, queued or being processed. -/
def Database.RefusesDeletion (db : Database) (documentId : Uuid) (error : AppError) : Prop :=
  (error = .documentNotFound documentId ∧ ∀ row ∈ db.documents, row.id ≠ documentId)
    ∨ ∃ row ∈ db.documents, row.id = documentId ∧ error = .deletionConflict documentId row.status
      ∧ row.status ∈ [DocumentStatus.queued, .processing]

/-- A stored document is no longer `uploaded`. -/
theorem Database.Coherent.queued_or_processing {db : Database} (hdb : db.Coherent) {row : Document}
    (hrow : row ∈ db.documents) (hstatus : row.status ∉ [DocumentStatus.ready, .failed, .deleting]) :
  row.status ∈ [DocumentStatus.queued, .processing]
  := by
  obtain ⟨p, job, hat⟩ := hdb.documents row hrow
  rw [hat.document_status] at hstatus ⊢
  cases p <;> simp [Phase.document] at hstatus ⊢

theorem markDeleting_eq_error {clock : Clock} {documentId : Uuid} {db : Database} {error : AppError}
    (hdb : db.Coherent) (h : markDeleting clock documentId db = .error error) :
  db.RefusesDeletion documentId error ∨ error.Unhandled
  := by
  unfold markDeleting at h
  split at h
  · rename_i hmissing
    obtain rfl := Except.error.inj h
    left
    left
    use rfl
    apply Table.get_eq_none_iff.mp hmissing
  rename_i row hrow
  obtain ⟨hmem, rfl⟩ := Table.get_eq_some_iff.mp hrow
  rcases bind_eq_error_iff.mp h with hmark | ⟨marked, -, hsave⟩
  · unfold markRows at hmark
    split at hmark
    · cases hmark
    rename_i hdeleting
    split at hmark
    · rename_i hwork
      obtain rfl := Except.error.inj hmark
      left
      right
      use row, hmem, rfl, rfl
      apply hdb.queued_or_processing hmem
      simp only [List.mem_cons, List.not_mem_nil, or_false, not_or] at hwork ⊢
      use hwork.1, hwork.2
    · rcases bind_eq_error_iff.mp hmark with hdomain | ⟨_, -, hok⟩
      · obtain ⟨_, rfl⟩ := liftDomain_eq_error hdomain
        exact Or.inr trivial
      · cases hok
  · cases marked with
    | none => cases hsave
    | some document =>
        rcases bind_eq_error_iff.mp hsave with hlookup | ⟨_, -, hok⟩
        · rw [saveDocument_eq_error hlookup]
          exact Or.inr trivial
        · cases hok

/-- A call of `delete` that raises has been refused, or gives up the cleanup, or raises an error without
a handler. -/
theorem Deletion.step_raised {S : Services} {s s' : Stores} {deletion : Deletion}
    {event : DeletionEvent} {error : AppError} {tickets : List Ticket} (hdb : s.db.Coherent)
    (hs : s.Follows tickets) (hfollows : deletion.Follows tickets) (hgenuine : event.Genuine)
    (hstep : deletion.step S s event = some (s', .raised error)) :
  error.Unhandled ∨ (∃ documentId clock fault, event = .mark documentId clock fault
      ∧ s.db.RefusesDeletion documentId error)
    ∨ deletion.document.isSome ∧ ∃ message, error = .cleanup message
  := by
  cases event with
  | mark documentId clock fault =>
      simp only [step] at hstep
      split at hstep
      · cases hstep
      split at hstep
      · rename_i e hmark
        cases hstep
        cases fault with
        | some e =>
            obtain rfl := Except.error.inj hmark
            left
            rcases hgenuine e rfl with rfl | rfl
            · trivial
            · trivial
        | none =>
            rcases markDeleting_eq_error hdb hmark with hrefused | hunhandled
            · exact Or.inr (Or.inl ⟨documentId, clock, none, rfl, hrefused⟩)
            · exact Or.inl hunhandled
      · rename_i document jobIds db hmark
        simp only [Option.some.injEq, Prod.mk.injEq] at hstep
        cases jobIds with
        | nil => cases hstep.2
        | cons => cases hstep.2
  | cancel fault =>
      cases deletion with
      | cancelling document jobIds =>
          cases jobIds with
          | nil => cases hstep
          | cons jobId jobIds =>
              simp only [step] at hstep
              split at hstep
              · rename_i e
                cases hstep
                obtain ⟨message, rfl⟩ := hgenuine e rfl
                exact Or.inr (Or.inr ⟨rfl, _, rfl⟩)
              · simp only [Option.some.injEq, Prod.mk.injEq] at hstep
                cases jobIds with
                | nil => cases hstep.2
                | cons => cases hstep.2
      | _ => cases hstep
  | clear fault =>
      cases deletion with
      | clearing document =>
          simp only [step] at hstep
          split at hstep
          · rename_i f
            cases hstep
            obtain ⟨message, hmessage⟩ := hgenuine f rfl
            rw [hmessage]
            exact Or.inr (Or.inr ⟨rfl, _, rfl⟩)
          · cases hstep
      | _ => cases hstep
  | removeFile fault =>
      cases deletion with
      | removing document =>
          simp only [step] at hstep
          split at hstep
          · rename_i e hdelete
            cases hstep
            right
            right
            use rfl
            cases fault with
            | some e' =>
                obtain rfl := Except.error.inj hdelete
                rw [hgenuine _ rfl]
                use "Stored document cleanup failed."
                rfl
            | none =>
                obtain ⟨t, ht, hnames⟩ := hfollows document rfl
                have hok : ∃ fs, s.fs.delete S.root document.storageKey = .ok fs := by
                  rw [hnames.storageKey_eq]
                  apply FileSystem.delete_isOk hs.shallow
                  intro f hf
                  obtain ⟨u, -, rfl⟩ := hs.files f hf
                  rfl
                obtain ⟨fs, hok⟩ := hok
                rw [transaction_none, hok] at hdelete
                cases hdelete
          · cases hstep
      | _ => cases hstep
  | finish fault =>
      cases deletion with
      | finishing document =>
          simp only [step] at hstep
          split at hstep
          · rename_i e hfinish
            cases hstep
            cases fault with
            | some e' =>
                obtain rfl := Except.error.inj hfinish
                left
                rcases hgenuine _ rfl with rfl | rfl
                · trivial
                · trivial
            | none => cases hfinish
          · cases hstep
      | _ => cases hstep
  | crash =>
      simp only [step] at hstep
      split at hstep
      · cases hstep
      · cases hstep

/-- What becomes of a call of `delete` that has begun, in one of its further steps. -/
theorem Deletion.Steps.ends {S : Services} {s s' : Stores} {deletion deletion' : Deletion}
    {event : DeletionEvent} (h : Deletion.Steps S s deletion event s' deletion')
    (honce : ¬ event.IsMark) :
  ∃ document, deletion.document = some document
    ∧ (deletion'.document = some document
      ∨ deletion' = .returned document.id ∧ s'.db = s.db.deleteDocument document.id
      ∨ (∃ error, deletion' = .raised error) ∨ deletion' = .died)
  := by
  cases h with
  | refuse | mark | again => exact absurd trivial honce
  | @cancel document =>
      use document, rfl
      apply Or.inl (Deletion.document_cancelFrom _ _)
  | @clear document | @removeFile document => exact ⟨document, rfl, Or.inl rfl⟩
  | @finish document => exact ⟨document, rfl, Or.inr (Or.inl ⟨rfl, rfl⟩)⟩
  | @clearPart document => exact ⟨document, rfl, Or.inr (Or.inr (Or.inl ⟨_, rfl⟩))⟩
  | interrupt hbegun =>
      obtain ⟨document, hdocument⟩ := Option.isSome_iff_exists.mp hbegun
      exact ⟨document, hdocument, Or.inr (Or.inr (Or.inl ⟨_, rfl⟩))⟩
  | crash hbegun =>
      obtain ⟨document, hdocument⟩ := Option.isSome_iff_exists.mp hbegun
      exact ⟨document, hdocument, Or.inr (Or.inr (Or.inr rfl))⟩

/-- The step that begins a call of `delete`, or refuses it. -/
theorem Deletion.Steps.begins {S : Services} {s s' : Stores} {deletion deletion' : Deletion} {d : Uuid}
    {clock : Clock} {fault : Option AppError}
    (h : Deletion.Steps S s deletion (.mark d clock fault) s' deletion') :
  (∃ document, deletion'.document = some document ∧ document.id = d) ∨ ∃ error, deletion' = .raised error
  := by
  cases h with
  | mark hidle hmem hstatus hmoved =>
      left
      exact ⟨_, Deletion.document_cancelFrom _ _, hmoved.document_revises.id_eq⟩
  | @again _ _ _ document =>
      left
      exact ⟨document, Deletion.document_cancelFrom _ _, rfl⟩
  | refuse | interrupt => exact Or.inr ⟨_, rfl⟩

/-! ### A call of `delete` -/

namespace System

variable {S : Services} {s s' : System} {d : Uuid} {refused : AppError → Prop}

/-- The document `d` is hidden, whoever submitted it. -/
def Conceals (S : Services) (s : System) (d : Uuid) : Prop :=
  ∃ t, t.documentId = d ∧ s.Hidden S t

theorem Conceals.step {e : Event} (h : s.Conceals S d) (hstep : System.step S s e = some s') :
  s'.Conceals S d
  := by
  obtain ⟨t, hid, hhidden⟩ := h
  exact ⟨t, hid, hhidden.step hstep⟩

/-- A hidden document is not inserted again. -/
theorem Conceals.absent_step {e : Event} (h : s.Conceals S d) (hstep : System.step S s e = some s')
    (habsent : ∀ row ∈ s.stores.db.documents, row.id ≠ d) :
  ∀ row ∈ s'.stores.db.documents, row.id ≠ d
  := by
  obtain ⟨t, rfl, hhidden⟩ := h
  intro row hrow hid
  rcases hhidden.sound.changed hstep with hdb | ⟨_, _, _, _, _, _, hmoved⟩
    | ⟨i, document, job, hpending, hinserted⟩ | ⟨_, _, -, hremoved⟩
  · rw [hdb] at hrow
    apply habsent row hrow hid
  · rcases (hmoved.mem_documents row).mp hrow with rfl | ⟨hrow, -⟩
    · apply habsent _ hmoved.document_mem
      rw [← hid, hmoved.document_revises.id_eq]
    · apply habsent row hrow hid
  · rcases (hinserted.mem_documents row).mp hrow with hrow | rfl
    · apply habsent row hrow hid
    · apply hhidden.inserted i
      rw [hpending, hid]
  · apply habsent row ((hremoved.mem_documents row).mp hrow).1 hid

/-- What is true of the document `d` where a call of `delete` at it stands, when the call raises errors
that satisfy `refused` where it is refused. -/
inductive Deleting (S : Services) (s : System) (d : Uuid) (refused : AppError → Prop) : Deletion → Prop
  | begun {deletion : Deletion} {document : Document} (hconceals : s.Conceals S d)
      (hdocument : deletion.document = some document) (hid : document.id = d) :
      Deleting S s d refused deletion
  | returned (hconceals : s.Conceals S d) (habsent : ∀ row ∈ s.stores.db.documents, row.id ≠ d) :
      Deleting S s d refused (.returned d)
  | refused {error : AppError} (h : refused error) : Deleting S s d refused (.raised error)
  | unhandled {error : AppError} (h : error.Unhandled) : Deleting S s d refused (.raised error)
  | incomplete {message : String} (hconceals : s.Conceals S d) :
      Deleting S s d refused (.raised (.cleanup message))
  | died : Deleting S s d refused .died

/-- Steps of other calls leave what is true of the document as it is. -/
theorem Deleting.other {e : Event} {deletion : Deletion} (h : s.Deleting S d refused deletion)
    (hstep : System.step S s e = some s') :
  s'.Deleting S d refused deletion
  := by
  cases h with
  | begun hconceals hdocument hid => apply Deleting.begun (hconceals.step hstep) hdocument hid
  | returned hconceals habsent =>
      apply Deleting.returned (hconceals.step hstep) (hconceals.absent_step hstep habsent)
  | refused h => apply Deleting.refused h
  | unhandled h => apply Deleting.unhandled h
  | incomplete hconceals => apply Deleting.incomplete (hconceals.step hstep)
  | died => apply Deleting.died

/-- A call that has begun is at its document, which is hidden. -/
theorem Deleting.conceals {deletion : Deletion} {document : Document}
    (h : s.Deleting S d refused deletion) (hdocument : deletion.document = some document) :
  s.Conceals S d ∧ document.id = d
  := by
  cases h with
  | begun hconceals hdocument' hid =>
      obtain rfl := Option.some.inj (hdocument.symm.trans hdocument')
      exact ⟨hconceals, hid⟩
  | _ => cases hdocument

/-- The steps of the call itself, once it has begun. -/
theorem Deleting.own {i : ℕ} {event : DeletionEvent} (hs : s.Sound S)
    (h : s.Deleting S d refused (s.deletions i)) (hgenuine : event.Genuine) (honce : ¬ event.IsMark)
    (hstep : System.step S s (.deletion i event) = some s') :
  s'.Deleting S d refused (s'.deletions i)
  := by
  obtain ⟨⟨stores, deletion⟩, hdeletion, hs'⟩ := Option.bind_eq_some_iff.mp hstep
  obtain ⟨document, hdocument, hends⟩ := (hs.deletion_steps hdeletion).ends honce
  obtain ⟨hconceals, rfl⟩ := h.conceals hdocument
  have hconceals' := hconceals.step hstep
  obtain rfl := Option.some.inj hs'
  simp only [Function.update_self]
  rcases hends with hdocument' | ⟨rfl, hdb⟩ | ⟨error, rfl⟩ | rfl
  · apply Deleting.begun hconceals' hdocument' rfl
  · apply Deleting.returned hconceals'
    intro row hrow
    rw [hdb, (deleteDocument_removed hs.coherent _).mem_documents] at hrow
    apply hrow.2
  · rcases Deletion.step_raised hs.coherent hs.stores (hs.deletions i) hgenuine hdeletion with hunhandled
      | ⟨_, _, _, rfl, -⟩ | ⟨-, message, rfl⟩
    · apply Deleting.unhandled hunhandled
    · exact absurd trivial honce
    · apply Deleting.incomplete hconceals'
  · apply Deleting.died

/-- The step that begins the call, or refuses it. -/
theorem Deleting.of_mark {i : ℕ} {clock : Clock} {fault : Option AppError} (hs : s.Sound S)
    (hgenuine : (DeletionEvent.mark d clock fault).Genuine)
    (hstep : System.step S s (.deletion i (.mark d clock fault)) = some s') :
  s'.Deleting S d (s.stores.db.RefusesDeletion d) (s'.deletions i)
  := by
  obtain ⟨⟨stores, deletion⟩, hdeletion, hs'⟩ := Option.bind_eq_some_iff.mp hstep
  have hstores := Option.some.inj hs'
  have hi : s'.deletions i = deletion := by
    rw [← hstores]
    apply Function.update_self
  rw [hi]
  rcases (hs.deletion_steps hdeletion).begins with ⟨document, hdocument, hid⟩ | ⟨error, rfl⟩
  · obtain ⟨t, ht, hhidden⟩ := Hidden.of_mark hs hstep (by rw [hi, hdocument]; rfl)
    apply Deleting.begun ⟨t, ht, hhidden⟩ hdocument hid
  · rcases Deletion.step_raised hs.coherent hs.stores (hs.deletions i) hgenuine hdeletion with hunhandled
      | ⟨_, _, _, hevent, hrefused⟩ | ⟨hbegun, -⟩
    · apply Deleting.unhandled hunhandled
    · cases hevent
      apply Deleting.refused hrefused
    · simp only [Deletion.step, hbegun, if_true] at hdeletion
      cases hdeletion

/-- The run of a call of `delete` that begins with the mark of a document, among the steps of others. -/
theorem Deleting.of_run {i : ℕ} {clock : Clock} {fault : Option AppError} {es : List Event}
    (hreachable : (machine S).Reachable s)
    (hrun : (machine S).run s (.deletion i (.mark d clock fault) :: es) = some s')
    (hgenuine : ∀ event, .deletion i event ∈ Event.deletion i (.mark d clock fault) :: es → event.Genuine)
    (honce : ∀ event, .deletion i event ∈ es → ¬ event.IsMark) :
  s'.Deleting S d (s.stores.db.RefusesDeletion d) (s'.deletions i)
  := by
  obtain ⟨s₁, hmark, hrun⟩ := (machine S).run_cons_iff.mp hrun
  have hs := Sound.of_reachable hreachable
  have hstep : step S s (.deletion i (.mark d clock fault)) = some s₁ := hmark
  have hdeleting := Deleting.of_mark hs (hgenuine _ List.mem_cons_self) hstep
  have hmeets : (machine S).Meets (fun _ e => ∀ event, e = .deletion i event →
      event.Genuine ∧ ¬ event.IsMark) s₁ es := by
    apply (machine S).meets_of_forall
    rintro _ e he event rfl
    use hgenuine event (List.mem_cons_of_mem _ he), honce event he
  apply ((machine S).run_induction (I := fun t => t.Sound S
    ∧ t.Deleting S d (s.stores.db.RefusesDeletion d) (t.deletions i)) _ ⟨hs.step hstep, hdeleting⟩
    hmeets hrun).2
  rintro t e t' ⟨ht, hdeleting⟩ hown hstep
  use ht.step hstep
  by_cases hevent : ∃ event, e = .deletion i event
  · obtain ⟨event, rfl⟩ := hevent
    obtain ⟨hgenuine, honce⟩ := hown event rfl
    apply hdeleting.own ht hgenuine honce hstep
  · have hsame : t'.deletions i = t.deletions i := by
      rcases step_eq_some hstep with ⟨_, _, _, _, _, -, -, -, rfl⟩ | ⟨_, _, _, _, -, -, rfl⟩
        | ⟨j, event, _, _, rfl, -, rfl⟩
      · rfl
      · rfl
      · apply Function.update_of_ne
        rintro rfl
        apply hevent ⟨event, rfl⟩
    rw [hsame]
    apply hdeleting.other hstep

/-- What the status of a response to `DELETE /documents/{id}` says of the document. -/
def DeletionAnswer (before after : Database) (documentId : Uuid) (response : DocumentRouteResponse) :
    Prop :=
  match response.statusCode with
  | 204 => ∀ row ∈ after.documents, row.id ≠ documentId
  | 404 => ∀ row ∈ before.documents, row.id ≠ documentId
  | 409 => ∃ row ∈ before.documents, row.id = documentId
      ∧ row.status ∈ [DocumentStatus.queued, .processing]
  | 503 => ∀ row ∈ after.documents, row.id = documentId → row.status = .deleting
  | statusCode => statusCode = 500

/-- A call of `DELETE /documents/{id}` answers with what has become of the document, whatever other calls
do until the response is read: it is gone for good (204), was not there (404), was queued or being
processed (409), or is left where no search finds it and no later deletion is refused (503). Any other
answer is the status 500. -/
theorem delete_answers {i : ℕ} {clock : Clock} {fault : Option AppError} {es : List Event}
    {path : String} {response : DocumentRouteResponse} (hreachable : (machine S).Reachable s)
    (hrun : (machine S).run s (.deletion i (.mark d clock fault) :: es) = some s')
    (hgenuine : ∀ event, .deletion i event ∈ Event.deletion i (.mark d clock fault) :: es → event.Genuine)
    (honce : ∀ event, .deletion i event ∈ es → ¬ event.IsMark)
    (hresponse : DocumentRoutes.deleteDocument path (s'.deletions i) = some response) :
  DeletionAnswer s.stores.db s'.stores.db d response
  := by
  have hdeleting := Deleting.of_run hreachable hrun hgenuine honce
  generalize s'.deletions i = deletion at hdeleting hresponse
  cases hdeleting with
  | begun _ hdocument _ =>
      cases deletion with
      | cancelling | clearing | removing | finishing => cases hresponse
      | _ => cases hdocument
  | returned _ habsent =>
      obtain rfl := Option.some.inj hresponse
      apply habsent
  | refused hrefused =>
      obtain rfl := Option.some.inj hresponse
      rcases hrefused with ⟨rfl, habsent⟩ | ⟨row, hrow, hid, rfl, hstatus⟩
      · apply habsent
      · use row, hrow, hid, hstatus
  | unhandled hunhandled =>
      obtain rfl := Option.some.inj hresponse
      rw [hunhandled.statusCode]
      rfl
  | incomplete hconceals =>
      obtain rfl := Option.some.inj hresponse
      obtain ⟨t, rfl, hhidden⟩ := hconceals
      apply hhidden.marked
  | died => cases hresponse

/-- The first call of the sample deletion gives up at the vector index and answers so. -/
theorem delete_answers_sample :
  DeletionAnswer (sampleAfter sampleReady).stores.db
    (sampleAfter (sampleReady ++ sampleMark 0 30 :: sampleRetriedDeletion)).stores.db
    Services.sampleDocumentId
    (raisedResponse "/api/v1/documents" (.cleanup "Vector document cleanup failed."))
  := by
  have hresponse : DocumentRoutes.deleteDocument "/api/v1/documents"
      ((sampleAfter (sampleReady ++ sampleMark 0 30 :: sampleRetriedDeletion)).deletions 0)
        = some (raisedResponse "/api/v1/documents" (.cleanup "Vector document cleanup failed.")) := by
    decide +kernel
  apply delete_answers (reachable_sampleAfter (by decide +kernel))
    (run_sampleAfter _ (sampleMark 0 30 :: sampleRetriedDeletion) (by decide +kernel)) _ _ hresponse
  · intro event hevent
    simp [sampleMark, sampleRetriedDeletion] at hevent
    rcases hevent with rfl | rfl | rfl <;> simp [DeletionEvent.Genuine]
  · simp [sampleMark, sampleRetriedDeletion, DeletionEvent.IsMark]

end System

end KnowledgeSearch

import KnowledgeSearch.System.Tickets
import KnowledgeSearch.System.Transactions

/-!
# What the steps of a call do

`Submission.Steps`, `Delivery.Steps` and `Deletion.Steps` list what a step of a call can do
to the stores, on rows in step. The theorems `step_spec` say that these are all the
possibilities; an invariant of the calls needs to look at no more than them.
-/

namespace KnowledgeSearch

open Database

/-! ### `submit` -/

/-- The document of a submission whose insertion is still to come. -/
def Submission.pending : Submission → Option Uuid
  | accepted t _ _ | saved t _ _ => some t.documentId
  | built document _ => some document.id
  | _ => none

/-- What a step of `submit` does. -/
inductive Submission.Steps (s : Stores) :
    Submission → SubmissionEvent → Stores → Submission → Prop
  | begin {submission : Submission} {filename : Text} {contentType : Option Text}
      {source : List Bytes} {documentId jobId : Uuid} {mediaType : DocumentMediaType}
      (hidle : submission.ids = none) (hmedia : validateMediaType filename contentType = .ok mediaType) :
      Steps s submission (.begin filename contentType source documentId jobId) s
        (.accepted ⟨documentId, jobId, mediaType, sourceBytes source⟩ filename source)
  | save {event : SubmissionEvent} {t : Ticket} {filename : Text} {source : List Bytes}
      {fs : FileSystem} {stored : StoredDocument} (hstored : stored.storageKey = storageKey t.documentId t.mediaType)
      (hfiles : fs.files = s.fs.files.put ⟨t.path, sourceBytes source⟩)
      (hshallow : s.fs.Shallow → fs.Shallow) :
      Steps s (.accepted t filename source) event { s with fs } (.saved t filename stored)
  | build {event : SubmissionEvent} {t : Ticket} {filename : Text} {stored : StoredDocument}
      {clock : Clock} {document : Document} {job : IngestionJob}
      (h : buildSubmission clock t filename stored = .ok (document, job)) :
      Steps s (.saved t filename stored) event s (.built document job)
  | insert {event : SubmissionEvent} {document : Document} {job : IngestionJob} {db : Database}
      (h : insertSubmission document job s.db = .ok db) :
      Steps s (.built document job) event { s with db } (.inserted document job)
  | failDispatch {event : SubmissionEvent} {document row row' : Document}
      {job job₁ job' : IngestionJob} {message : String} {error : AppError} {db : Database}
      (hid : row.id = document.id)
      (hmoved : Moved .fail s.db db row row' job₁ job' []) :
      Steps s (.undelivered document job message) event { s with db } (.raised error)
  | other {event : SubmissionEvent} {submission submission' : Submission} {fs : FileSystem}
      {queue : List Uuid}
      (hfs : fs.Less s.fs)
      (hfollows : ∀ tickets, submission.Follows tickets → submission'.Follows tickets)
      (hids : submission'.ids = none ∨ submission'.ids = submission.ids)
      (hpending : submission'.pending = none) :
      Steps s submission event { s with fs, queue } submission'

namespace Submission

variable {s s' : Stores} {submission submission' : Submission} {event : SubmissionEvent}

theorem Follows.ended {tickets : List Ticket} (h : submission.ids = none) :
  submission.Follows tickets
  := by
  cases submission <;> simp [ids] at h <;> trivial

/-- A step that ends the call, and removes files at most. -/
theorem Steps.stop (hids : submission'.ids = none) {fs : FileSystem} {queue : List Uuid}
    (hfs : fs.Less s.fs) :
  Steps s submission event { s with fs, queue } submission'
  := by
  apply Steps.other hfs
  · intro tickets _
    apply Follows.ended hids
  · apply Or.inl hids
  · cases submission' <;> simp [ids] at hids <;> rfl

/-- The steps of `submit`. -/
theorem step_spec {S : Services} {tickets : List Ticket}
    (hdb : s.db.Coherent)
    (hlinked : ∀ ids, submission.ids = some ids → s.db.Linked ids.1 ids.2)
    (hfollows : submission.Follows tickets)
    (h : submission.step S s event = some (s', submission')) :
  Steps s submission event s' submission'
  := by
  cases event with
  | begin filename contentType source documentId jobId =>
      simp only [step] at h
      split at h
      · cases h
      rename_i hidle
      split at h
      · cases h
        apply Steps.stop rfl (FileSystem.Less.refl s.fs)
      rename_i safeFilename hfilename
      obtain rfl := validateFilename_eq_ok hfilename
      split at h
      · cases h
        apply Steps.stop rfl (FileSystem.Less.refl s.fs)
      · rename_i mediaType hmedia
        cases h
        apply Steps.begin _ hmedia
        simpa using hidle
  | save fault =>
      cases submission with
      | accepted t filename source =>
          simp only [step] at h
          split at h
          · rename_i fs e hsave
            cases h
            obtain ⟨hshallow, ⟨-, -, hfiles⟩ | ⟨hok, -⟩⟩ := FileSystem.save_spec hsave
            · apply Steps.stop rfl
              constructor
              · rw [hfiles]
                exact fun f hf => hf
              · apply hshallow
            · cases hok
          · rename_i fs stored hsave
            cases h
            obtain ⟨hshallow, ⟨e, herror, -⟩ | ⟨hok, hfiles⟩⟩ := FileSystem.save_spec hsave
            · cases herror
            · apply Steps.save
              · rw [Except.ok.inj hok]
              · apply hfiles
              · apply hshallow
      | _ => cases h
  | build clock =>
      cases submission with
      | saved t filename stored =>
          simp only [step] at h
          split at h
          · cases h
            apply Steps.stop rfl (FileSystem.Less.refl s.fs)
          · rename_i document job hbuild
            cases h
            apply Steps.build hbuild
      | _ => cases h
  | insert fault =>
      cases submission with
      | built document job =>
          simp only [step] at h
          split at h
          · cases h
            apply Steps.other (FileSystem.Less.refl s.fs)
            · intro tickets hf
              apply hf
            · apply Or.inr rfl
            · rfl
          · cases h
            apply Steps.other (FileSystem.Less.refl s.fs)
            · intro tickets hf
              apply hf
            · apply Or.inr rfl
            · rfl
          · rename_i db hinsert
            cases h
            apply Steps.insert (transaction_eq_ok_iff.mp hinsert).2
      | _ => cases h
  | removeFile fault =>
      have hremoved : ∀ {document : Document} {job : IngestionJob} {fs : FileSystem},
          (∃ t ∈ tickets, t.Names document ∧ job.documentId = t.documentId ∧ job.id = t.jobId
            ∧ document.status = .queued ∧ job.status = .queued ∧ job.attemptCount = 0) →
          s.fs.delete S.root document.storageKey = .ok fs → fs.Less s.fs := by
        rintro document job fs ⟨t, -, hnames, -⟩ hdelete
        rw [hnames.storageKey_eq] at hdelete
        apply FileSystem.less_delete hdelete
      cases submission with
      | conflicted document job =>
          simp only [step] at h
          split at h
          · cases h
            apply Steps.stop rfl (FileSystem.Less.refl s.fs)
          · rename_i fs hdelete
            cases h
            apply Steps.other (hremoved hfollows (transaction_eq_ok_iff.mp hdelete).2)
            · intro tickets hf
              apply hf
            · apply Or.inr rfl
            · rfl
      | compensating document job error =>
          simp only [step] at h
          split at h
          · cases h
            apply Steps.stop rfl (FileSystem.Less.refl s.fs)
          · rename_i fs hdelete
            cases h
            apply Steps.stop rfl (hremoved hfollows (transaction_eq_ok_iff.mp hdelete).2)
      | _ => cases h
  | lookUp fault =>
      cases submission with
      | lookingUp document job =>
          simp only [step] at h
          split at h <;> cases h <;> apply Steps.stop rfl (FileSystem.Less.refl s.fs)
      | _ => cases h
  | enqueue outcome =>
      cases submission with
      | inserted document job =>
          have hdeliver : ∀ delivered, ∃ queue,
              s.deliver delivered job.id = { s with queue } := by
            intro delivered
            cases delivered with
            | true => use s.queue ++ [job.id]; rfl
            | false => use s.queue; rfl
          simp only [step] at h
          split at h
          · cases h
            obtain ⟨queue, hqueue⟩ := hdeliver true
            rw [hqueue]
            apply Steps.stop rfl (FileSystem.Less.refl s.fs)
          · rename_i message delivered
            cases h
            obtain ⟨queue, hqueue⟩ := hdeliver delivered
            rw [hqueue]
            apply Steps.other (FileSystem.Less.refl s.fs)
            · intro tickets hf
              apply hf
            · apply Or.inr rfl
            · rfl
          · rename_i e delivered
            cases h
            obtain ⟨queue, hqueue⟩ := hdeliver delivered
            rw [hqueue]
            apply Steps.stop rfl (FileSystem.Less.refl s.fs)
      | _ => cases h
  | markDispatchFailed clock fault =>
      cases submission with
      | undelivered document job message =>
          simp only [step] at h
          split at h
          · cases h
            apply Steps.stop rfl (FileSystem.Less.refl s.fs)
          · rename_i db hmark
            cases h
            rcases markDispatchFailed_eq_ok (hlinked _ rfl) hdb (transaction_eq_ok_iff.mp hmark).2
              with ⟨rfl, -⟩ | ⟨row, row', job₁, job', hid, hmoved, -⟩
            · apply Steps.stop rfl (FileSystem.Less.refl s.fs)
            · apply Steps.failDispatch hid hmoved
      | _ => cases h
  | crash =>
      simp only [step] at h
      split at h
      · cases h
        apply Steps.stop rfl (FileSystem.Less.refl s.fs)
      · cases h

end Submission

/-! ### `process` -/

/-- What a step of `process` does. -/
inductive Delivery.Steps (S : Services) (s : Stores) :
    Delivery → DeliveryEvent → Stores → Delivery → Prop
  | refuse {delivery : Delivery} {jobId : Uuid} {clock : Clock} {fault : Option AppError}
      {error : AppError} (hidle : delivery.attempt = none) :
      Steps S s delivery (.start jobId clock fault) s (.raised error)
  | skip {delivery : Delivery} {jobId : Uuid} {clock : Clock} {fault : Option AppError}
      (hidle : delivery.attempt = none) :
      Steps S s delivery (.start jobId clock fault) s .returned
  | start {delivery : Delivery} {clock : Clock} {fault : Option AppError} {db : Database}
      {document document' : Document} {job job' : IngestionJob} (hidle : delivery.attempt = none)
      (hcount : job'.attemptCount = job.attemptCount + 1)
      (hmoved : Moved .start s.db db document document' job job' []) :
      Steps S s delivery (.start job.id clock fault) { s with db } (.started ⟨job.id, document.id⟩)
  | load {a : Attempt} {document : Document} {fault : Option AppError}
      (h : s.db.getDocument a.documentId = some document) :
      Steps S s (.started a) (.load fault) s (.loaded a document)
  | prepare {a : Attempt} {document : Document} {chunks : List Chunk} {fault : Option AppError}
      (h : prepareStored S s document = .ok chunks) :
      Steps S s (.loaded a document) (.prepare fault) s (.prepared a document chunks)
  | embed {a : Attempt} {document : Document} {chunks : List Chunk} {fault : Option AppError} :
      Steps S s (.prepared a document chunks) (.embed fault) s
        (.embedded a document chunks (S.embedDocuments (chunks.map fun chunk => chunk.text)))
  | ensure {a : Attempt} {document : Document} {chunks : List Chunk} {vectors : List Vector}
      {fault : Option AppError} :
      Steps S s (.embedded a document chunks vectors) (.ensure fault) s
        (.ensured a document chunks vectors)
  | upsert {a : Attempt} {document : Document} {chunks : List Chunk} {vectors : List Vector}
      {fault : Option (AppError × (Uuid → Bool))} :
      Steps S s (.ensured a document chunks vectors) (.upsert fault)
        { s with index := s.index.putAll (pointsOf document chunks vectors) } (.upserted a chunks)
  | upsertPart {a : Attempt} {document : Document} {chunks : List Chunk} {vectors : List Vector}
      {fault : Option (AppError × (Uuid → Bool))} {error : AppError} {reached : Uuid → Bool} :
      Steps S s (.ensured a document chunks vectors) (.upsert fault)
        { s with index :=
            s.index.putAll ((pointsOf document chunks vectors).filter fun p => reached p.id) }
        (.failing a error)
  | interrupt {delivery : Delivery} {event : DeliveryEvent} {a : Attempt} {error : AppError}
      (hrunning : delivery.running = some a) (hevent : ¬ event.IsStart) :
      Steps S s delivery event s (.failing a error)
  | finalise {a : Attempt} {chunks : List Chunk} {clock : Clock} {fault : Option AppError}
      {db : Database} {document document' : Document} {job job' : IngestionJob}
      (hid : document.id = a.documentId) (hcount : job'.attemptCount = job.attemptCount)
      (hnone : s.db.chunksForDocument a.documentId = [])
      (hrows : db.chunks.rows = s.db.chunks.rows ++ chunks)
      (hmoved : Moved .finalise s.db db document document' job job' chunks) :
      Steps S s (.upserted a chunks) (.finalise clock fault) { s with db } .returned
  | unrecorded {a : Attempt} {error error' : AppError} {clock : Clock} {fault : Option AppError}
      (h : transaction fault
        (markFailed clock a.documentId a.jobId (failureCode error) s.db) = .error error') :
      Steps S s (.failing a error) (.markFailed clock fault) s (.raised error')
  | recordNothing {a : Attempt} {error : AppError} {clock : Clock} {fault : Option AppError}
      (hstatus : ∀ document ∈ s.db.documents, document.id = a.documentId →
        document.status ≠ .processing) :
      Steps S s (.failing a error) (.markFailed clock fault) s (.cleaning a error)
  | record {a : Attempt} {error : AppError} {clock : Clock} {fault : Option AppError}
      {db : Database} {document document' : Document} {job job' : IngestionJob}
      (hid : document.id = a.documentId) (hcount : job'.attemptCount = job.attemptCount)
      (hstatus : document.status = .processing)
      (hmoved : Moved .fail s.db db document document' job job' []) :
      Steps S s (.failing a error) (.markFailed clock fault) { s with db } (.cleaning a error)
  | clean {a : Attempt} {error error' : AppError} {fault : Option (AppError × (Uuid → Bool))}
      {reached : Uuid → Bool} :
      Steps S s (.cleaning a error) (.cleanup fault)
        { s with index := s.index.deleteDocument a.documentId reached } (.raised error')
  | crash {delivery : Delivery} (hattempt : delivery.attempt.isSome) :
      Steps S s delivery .crash s .died

namespace Delivery

variable {S : Services} {s s' : Stores} {delivery delivery' : Delivery}

/-- The steps of `process`. -/
theorem step_spec {event : DeliveryEvent} (hdb : s.db.Coherent)
    (hlinked : ∀ a, delivery.attempt = some a → s.db.Linked a.documentId a.jobId)
    (hchunks : ∀ a chunks, delivery = .upserted a chunks →
      (∀ chunk ∈ chunks, chunk.documentId = a.documentId) ∧ chunks ≠ [])
    (h : delivery.step S s event = some (s', delivery')) :
  Steps S s delivery event s' delivery'
  := by
  cases event with
  | start jobId clock fault =>
      simp only [step] at h
      split at h
      · cases h
      rename_i hidle
      simp only [Option.isSome_iff_ne_none, ne_eq, not_not] at hidle
      split at h
      · cases h
        apply Steps.refuse hidle
      · rename_i db hstart
        cases h
        rcases startJob_eq_ok (transaction_eq_ok_iff.mp hstart).2
          with ⟨-, rfl⟩ | ⟨_, _, _, _, hsome, -⟩
        · apply Steps.skip hidle
        · cases hsome
      · rename_i documentId db hstart
        cases h
        rcases startJob_eq_ok (transaction_eq_ok_iff.mp hstart).2
          with ⟨hnone, -⟩ | ⟨document, document', job, job', hsome, rfl, hcount, hmoved⟩
        · cases hnone
        · obtain rfl := Option.some.inj hsome
          apply Steps.start hidle hcount hmoved
  | load fault =>
      cases delivery with
      | started a =>
          simp only [step] at h
          split at h
          · cases h
            exact Steps.interrupt rfl not_false
          · cases h
            exact Steps.interrupt rfl not_false
          · rename_i document hload
            cases h
            apply Steps.load (Except.ok.inj (transaction_eq_ok_iff.mp hload).2)
      | _ => cases h
  | prepare fault =>
      cases delivery with
      | loaded a document =>
          simp only [step] at h
          split at h
          · cases h
            exact Steps.interrupt rfl not_false
          · rename_i chunks hprepare
            cases h
            apply Steps.prepare (transaction_eq_ok_iff.mp hprepare).2
      | _ => cases h
  | embed fault =>
      cases delivery with
      | prepared a document chunks =>
          simp only [step] at h
          split at h
          · cases h
            exact Steps.interrupt rfl not_false
          · cases h
            apply Steps.embed
      | _ => cases h
  | ensure fault =>
      cases delivery with
      | embedded a document chunks vectors =>
          simp only [step] at h
          split at h
          · cases h
            exact Steps.interrupt rfl not_false
          · cases h
            apply Steps.ensure
      | _ => cases h
  | upsert fault =>
      cases delivery with
      | ensured a document chunks vectors =>
          simp only [step, VectorIndex.upsert] at h
          split at h
          · cases h
            exact Steps.interrupt rfl not_false
          · rename_i f index hupsert
            cases h
            split at hupsert
            · cases hupsert
            · cases hupsert
              apply Steps.upsertPart
          · rename_i index hupsert
            cases h
            split at hupsert
            · cases hupsert
            · cases hupsert
              simp only [Option.all_none, List.filter_true]
              apply Steps.upsert
      | _ => cases h
  | finalise clock fault =>
      cases delivery with
      | upserted a chunks =>
          simp only [step] at h
          split at h
          · cases h
            exact Steps.interrupt rfl not_false
          · rename_i db hfinalise
            cases h
            obtain ⟨hdocument, hne⟩ := hchunks a chunks rfl
            obtain ⟨document, document', job, job', hid, hmoved, hcount, hnone, hrows⟩ :=
              finalise_eq_ok (hlinked a rfl) hdb hdocument hne (transaction_eq_ok_iff.mp hfinalise).2
            apply Steps.finalise hid hcount hnone hrows hmoved
      | _ => cases h
  | markFailed clock fault =>
      cases delivery with
      | failing a error =>
          simp only [step] at h
          split at h
          · rename_i e hmark
            cases h
            apply Steps.unrecorded hmark
          · rename_i db hmark
            cases h
            rcases markFailed_eq_ok (hlinked a rfl) hdb (transaction_eq_ok_iff.mp hmark).2
              with ⟨rfl, hstatus⟩ | ⟨document, document', job, job', hid, hstatus, hcount, hmoved⟩
            · apply Steps.recordNothing hstatus
            · apply Steps.record hid hcount hstatus hmoved
      | _ => cases h
  | cleanup fault =>
      cases delivery with
      | cleaning a error =>
          simp only [step] at h
          split at h
          · cases h
            apply Steps.clean
          · cases h
            apply Steps.clean
      | _ => cases h
  | crash =>
      simp only [step] at h
      split at h
      · rename_i hattempt
        cases h
        apply Steps.crash hattempt
      · cases h

end Delivery

/-! ### `delete` -/

/-- What a step of `delete` does. -/
inductive Deletion.Steps (S : Services) (s : Stores) :
    Deletion → DeletionEvent → Stores → Deletion → Prop
  | refuse {deletion : Deletion} {documentId : Uuid} {clock : Clock} {fault : Option AppError}
      {error : AppError} (hidle : deletion.document = none) :
      Steps S s deletion (.mark documentId clock fault) s (.raised error)
  | mark {deletion : Deletion} {clock : Clock} {fault : Option AppError} {db : Database}
      {row document : Document} {job : IngestionJob} {jobIds : List Uuid}
      (hidle : deletion.document = none) (hmem : document ∈ db.documents)
      (hstatus : document.status = .deleting)
      (hmoved : Moved .mark s.db db row document job job []) :
      Steps S s deletion (.mark row.id clock fault) { s with db } (cancelFrom document jobIds)
  | again {deletion : Deletion} {clock : Clock} {fault : Option AppError} {document : Document}
      {jobIds : List Uuid} (hidle : deletion.document = none) (hmem : document ∈ s.db.documents)
      (hstatus : document.status = .deleting) :
      Steps S s deletion (.mark document.id clock fault) s (cancelFrom document jobIds)
  | cancel {document : Document} {jobId : Uuid} {jobIds queue : List Uuid}
      {fault : Option AppError} :
      Steps S s (.cancelling document (jobId :: jobIds)) (.cancel fault) { s with queue }
        (cancelFrom document jobIds)
  | clear {document : Document} {fault : Option (AppError × (Uuid → Bool))} :
      Steps S s (.clearing document) (.clear fault)
        { s with index := s.index.deleteDocument document.id fun _ => true } (.removing document)
  | clearPart {document : Document} {fault : Option (AppError × (Uuid → Bool))}
      {reached : Uuid → Bool} {error : AppError} :
      Steps S s (.clearing document) (.clear fault)
        { s with index := s.index.deleteDocument document.id reached } (.raised error)
  | removeFile {document : Document} {fault : Option AppError} {fs : FileSystem}
      (h : s.fs.delete S.root document.storageKey = .ok fs) :
      Steps S s (.removing document) (.removeFile fault) { s with fs } (.finishing document)
  | finish {document : Document} {fault : Option AppError} :
      Steps S s (.finishing document) (.finish fault)
        { s with db := s.db.deleteDocument document.id } (.returned document.id)
  | interrupt {deletion : Deletion} {event : DeletionEvent} {error : AppError}
      (hdocument : deletion.document.isSome) :
      Steps S s deletion event s (.raised error)
  | crash {deletion : Deletion} (hdocument : deletion.document.isSome) :
      Steps S s deletion .crash s .died

namespace Deletion

variable {S : Services} {s s' : Stores} {deletion deletion' : Deletion}

/-- The steps of `delete`. -/
theorem step_spec {event : DeletionEvent} (hdb : s.db.Coherent)
    (h : deletion.step S s event = some (s', deletion')) :
  Steps S s deletion event s' deletion'
  := by
  cases event with
  | mark documentId clock fault =>
      simp only [step] at h
      split at h
      · cases h
      rename_i hidle
      simp only [Option.isSome_iff_ne_none, ne_eq, not_not] at hidle
      split at h
      · cases h
        apply Steps.refuse hidle
      · rename_i document jobIds db hmark
        cases h
        obtain ⟨rfl, hmem, hstatus, -, rfl | ⟨row, job, hid, hmoved⟩⟩ :=
          markDeleting_eq_ok hdb (transaction_eq_ok_iff.mp hmark).2
        · apply Steps.again hidle hmem hstatus
        · rw [← hid]
          apply Steps.mark hidle hmem hstatus hmoved
  | cancel fault =>
      cases deletion with
      | cancelling document jobIds =>
          cases jobIds with
          | nil => cases h
          | cons jobId jobIds =>
              simp only [step] at h
              split at h
              · cases h
                apply Steps.interrupt rfl
              · cases h
                apply Steps.cancel
      | _ => cases h
  | clear fault =>
      cases deletion with
      | clearing document =>
          simp only [step] at h
          split at h
          · cases h
            apply Steps.clearPart
          · cases h
            apply Steps.clear
      | _ => cases h
  | removeFile fault =>
      cases deletion with
      | removing document =>
          simp only [step] at h
          split at h
          · cases h
            apply Steps.interrupt rfl
          · rename_i fs hdelete
            cases h
            apply Steps.removeFile (transaction_eq_ok_iff.mp hdelete).2
      | _ => cases h
  | finish fault =>
      cases deletion with
      | finishing document =>
          simp only [step] at h
          split at h
          · cases h
            apply Steps.interrupt rfl
          · rename_i db hfinish
            cases h
            rw [← Except.ok.inj (transaction_eq_ok_iff.mp hfinish).2]
            apply Steps.finish
      | _ => cases h
  | crash =>
      simp only [step] at h
      split at h
      · rename_i hdocument
        cases h
        apply Steps.crash hdocument
      · cases h

end Deletion

end KnowledgeSearch

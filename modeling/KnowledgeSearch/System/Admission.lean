import KnowledgeSearch.System.Submissions

/-!
# Admission

From every reachable state the service stores an upload it has no reason to refuse: `System.Admits` says
which these are, and `System.Admits.submits` that the steps of a call of `submit` are enabled one after
the other when nothing fails in them, and end with the document queued and its file stored.
-/

namespace KnowledgeSearch

open Database

/-! ### Storing the file -/

/-- The copy loop ends with the bytes of the source when they are not too many and nothing fails. -/
theorem copyBlocks_isOk {maxBytes : ℕ} :
    ∀ {count : ℕ} {written : Bytes} {source : List Bytes},
      written.length + (sourceBytes source).length ≤ maxBytes →
        copyBlocks maxBytes none count written source = .ok (written ++ sourceBytes source)
  | count, written, [], _ => by simp [copyBlocks, sourceBytes]
  | count, written, block :: source, h => by
      by_cases hblock : block = []
      · simp [copyBlocks, sourceBytes, hblock]
      · have hbytes : sourceBytes (block :: source) = block ++ sourceBytes source := by
          simp [sourceBytes, hblock]
        rw [hbytes, List.length_append] at h
        have hfits : ¬ maxBytes < written.length + block.length := by omega
        have hrest : (written ++ block).length + (sourceBytes source).length ≤ maxBytes := by
          rw [List.length_append]
          omega
        simp [copyBlocks, hblock, hfits, copyBlocks_isOk hrest, hbytes]

namespace FileSystem

variable {fs fs' : FileSystem} {root : List Text} {sha256 : Bytes → Text} {id : Uuid}
  {mediaType : DocumentMediaType} {source : List Bytes} {maxBytes : ℕ}

/-- An upload is stored in a directory of its own. -/
theorem save_isOk (hdirectory : [id.text] ∉ fs.directories) (hne : sourceBytes source ≠ [])
    (hle : (sourceBytes source).length ≤ maxBytes) :
  ∃ fs', fs.save root sha256 id mediaType source maxBytes none
    = (fs', .ok ⟨storageKey id mediaType, sha256 (sourceBytes source), (sourceBytes source).length⟩)
  := by
  have hcopied : copyBlocks maxBytes none 0 [] source = .ok (sourceBytes source) := by
    apply copyBlocks_isOk
    simpa using hle
  have hguarded : guardedSave maxBytes none source = .ok (sourceBytes source) := by
    simp [guardedSave, hcopied, hne]
  rw [save, resolveKey_storageKey]
  simp [hdirectory, hguarded]

/-- Storing a file makes the directory of its document at most. -/
theorem mem_directories_save {fault : Option SaveFault} {result : Except AppError StoredDocument}
    (h : fs.save root sha256 id mediaType source maxBytes fault = (fs', result)) {dir : List Text}
    (hdir : dir ∈ fs'.directories) :
  dir ∈ fs.directories ∨ dir = [id.text]
  := by
  have hmade : ∀ {made : FileSystem}, made.directories = [id.text] :: fs.directories →
      dir ∈ made.directories → dir ∈ fs.directories ∨ dir = [id.text] := by
    intro made heq hmem
    rw [heq] at hmem
    exact (List.mem_cons.mp hmem).symm
  unfold save at h
  rw [resolveKey_storageKey] at h
  simp only at h
  split at h
  · obtain ⟨rfl, -⟩ := Prod.mk.inj h
    exact Or.inl hdir
  split at h
  · obtain ⟨rfl, -⟩ := Prod.mk.inj h
    exact Or.inl hdir
  split at h
  · obtain ⟨rfl, -⟩ := Prod.mk.inj h
    exact hmade rfl hdir
  split at h
  · obtain ⟨rfl, -⟩ := Prod.mk.inj h
    exact hmade rfl (mem_directories_rmdir hdir)
  · obtain ⟨rfl, -⟩ := Prod.mk.inj h
    exact hmade rfl hdir

/-- Removing a file makes no directory. -/
theorem mem_directories_delete {key : Text} (h : fs.delete root key = .ok fs') {dir : List Text}
    (hdir : dir ∈ fs'.directories) :
  dir ∈ fs.directories
  := by
  unfold delete at h
  split at h
  · cases h
  split at h
  · cases h
  rename_i unlinked hunlink
  cases h
  unfold unlink at hunlink
  split at hunlink
  · cases hunlink
  split at hunlink
  · cases hunlink
  cases hunlink
  apply mem_directories_rmdir hdir

end FileSystem

/-- Sending a message leaves the files. -/
theorem Stores.fs_deliver (s : Stores) (delivered : Bool) (jobId : Uuid) :
  (s.deliver delivered jobId).fs = s.fs
  := by cases delivered <;> rfl

/-- A storage key determines the identifier of its document. -/
theorem storageKey_injective {id id' : Uuid} {mediaType mediaType' : DocumentMediaType}
    (h : storageKey id mediaType = storageKey id' mediaType') :
  id = id'
  := by
  have hresolve := resolveKey_storageKey [] id mediaType
  rw [h, resolveKey_storageKey] at hresolve
  apply (storedPath_injective (Except.ok.inj hresolve)).symm

/-- A step of `submit` makes the directory of its document at most. -/
theorem Submission.mem_directories_of_step {S : Services} {s s' : Stores}
    {submission submission' : Submission} {event : SubmissionEvent}
    (h : submission.step S s event = some (s', submission')) {dir : List Text}
    (hdir : dir ∈ s'.fs.directories) :
  dir ∈ s.fs.directories
    ∨ ∃ t filename source, submission = .accepted t filename source ∧ dir = [t.documentId.text]
  := by
  revert h
  fun_cases Submission.step S s submission event <;> intro h
  -- the calls of `save` and `delete`, and the messages, are all that is not plainly the same files
  case case5 t filename source fault fs e hsave | case6 t filename source fault fs e hsave =>
    cases h
    apply (FileSystem.mem_directories_save hsave hdir).imp_right
    intro hid
    use t, filename, source
  case case13 document job fault fs hdelete | case18 document job error fault fs hdelete =>
    cases h
    left
    apply FileSystem.mem_directories_delete (transaction_eq_ok_iff.mp hdelete).2 hdir
  case case20 | case21 =>
    cases h
    left
    rw [Stores.fs_deliver] at hdir
    apply hdir
  all_goals
    cases h <;> exact Or.inl hdir

/-- A step of `delete` makes no directory. -/
theorem Deletion.Steps.mem_directories {S : Services} {s s' : Stores} {deletion deletion' : Deletion}
    {event : DeletionEvent} (h : Deletion.Steps S s deletion event s' deletion') {dir : List Text}
    (hdir : dir ∈ s'.fs.directories) :
  dir ∈ s.fs.directories
  := by
  cases h with
  | removeFile hdelete => apply FileSystem.mem_directories_delete hdelete hdir
  | _ => apply hdir

namespace System

variable {S : Services} {s s' : System} {i k : ℕ} {t : Ticket}

/-- The directories of the file store, its root apart, are those of documents that were submitted. -/
def Housed (s : System) : Prop :=
  ∀ dir ∈ s.stores.fs.directories, dir = [] ∨ ∃ t ∈ s.issued, dir = [t.documentId.text]

theorem Housed.step {e : Event} (h : s.Housed) (hs : s.Sound S) (hstep : System.step S s e = some s') :
  s'.Housed
  := by
  intro dir hdir
  rcases step_eq_some hstep with ⟨i, event, stores, submission, issued, -, hsub, hissue, rfl⟩
    | ⟨i, event, stores, delivery, -, hdel, rfl⟩ | ⟨i, event, stores, deletion, -, hdel, rfl⟩
  · rcases Submission.mem_directories_of_step hsub hdir with hold | ⟨t, filename, source, hi, hid⟩
    · apply (h dir hold).imp_right
      rintro ⟨t, ht, hid⟩
      use t, subset_of_issue hissue ht
    · have hfollows := hs.submissions i
      rw [hi] at hfollows
      right
      use t, subset_of_issue hissue hfollows.1
  · have hfs : stores.fs = s.stores.fs := (hs.delivery_steps hdel).fs_eq
    apply h dir
    rw [← hfs]
    apply hdir
  · apply h dir ((hs.deletion_steps hdel).mem_directories hdir)

theorem Housed.of_reachable (h : (machine S).Reachable s) :
  s.Housed
  := by
  have hboth : s.Sound S ∧ s.Housed := by
    apply h.induction
    · rintro s rfl
      use Sound.initial
      simp [Housed, initial, Stores.initial, FileSystem.initial]
    · rintro s e s' ⟨hs, hhoused⟩ hstep
      use hs.step hstep, hhoused.step hs hstep
  apply hboth.2

/-- There is no directory for an identifier that no submission drew. -/
theorem Housed.not_mem (h : s.Housed) {documentId jobId : Uuid} (hfresh : s.Fresh documentId jobId) :
  [documentId.text] ∉ s.stores.fs.directories
  := by
  intro hmem
  rcases h _ hmem with hnil | ⟨t, ht, heq⟩
  · cases hnil
  · apply (hfresh t ht).1
    apply Uuid.text_injective
    apply (List.cons.inj heq).1.symm

end System

/-! ### The rows that are inserted -/

/-- What is built is stamped with the readings of the clock. -/
theorem buildSubmission_times {clock : Clock} {t : Ticket} {filename : Text} {stored : StoredDocument}
    {document : Document} {job : IngestionJob}
    (h : buildSubmission clock t filename stored = .ok (document, job)) :
  document.updatedAt = clock 1 ∧ job.updatedAt = clock 2 ∧ job.startedAt = none
  := by
  obtain ⟨created, -, h⟩ := bind_eq_ok_iff.mp h
  obtain ⟨queued, hqueue, h⟩ := bind_eq_ok_iff.mp h
  obtain ⟨job', hjob, h⟩ := bind_eq_ok_iff.mp h
  cases h
  obtain ⟨-, -, hfields⟩ := Document.transition_eq_ok_iff.mp (liftDomain_eq_ok_iff.mp hqueue)
  have hjobFields := IngestionJob.construct_eq_ok_iff.mp (liftDomain_eq_ok_iff.mp hjob)
  use congrArg DocumentFields.updatedAt hfields, congrArg IngestionJobFields.updatedAt hjobFields,
    congrArg IngestionJobFields.startedAt hjobFields

/-- A document and a job are inserted when nothing of them is taken. -/
theorem insertSubmission_isOk {db : Database} {document : Document} {job : IngestionJob}
    (hsha : ∀ row ∈ db.documents, row.sha256 ≠ document.sha256)
    (hkey : ∀ row ∈ db.documents, row.storageKey ≠ document.storageKey)
    (hid : ∀ row ∈ db.documents, row.id ≠ document.id) (hjob : ∀ row ∈ db.jobs, row.id ≠ job.id)
    (hdocument : job.documentId = document.id) :
  ∃ db', insertSubmission document job db = .ok db'
  := by
  have hhash : db.getDocumentByHash document.sha256 = none := by
    apply List.find?_eq_none.mpr
    intro row hrow hsame
    apply hsha row hrow (of_decide_eq_true hsame)
  obtain ⟨documents, hdocuments⟩ : ∃ documents, db.documents.insert? document = some documents := by
    simp [Table.insert?, Table.get_eq_none_iff.mpr hid]
  obtain ⟨jobs, hjobs⟩ : ∃ jobs, db.jobs.insert? job = some jobs := by
    simp [Table.insert?, Table.get_eq_none_iff.mpr hjob]
  have htaken : (db.documents.rows.any fun row =>
      row.storageKey = document.storageKey || row.sha256 = document.sha256) = false := by
    apply List.any_eq_false.mpr
    intro row hrow
    simp [hsha row hrow, hkey row hrow]
  have hadd : db.addDocument document = .ok { db with documents } := by
    simp [addDocument, htaken, hdocuments]
  have hget : documents.get job.documentId = some document := by
    rw [Table.get_insert? hdocuments, if_pos hdocument]
  rw [insertSubmission, hhash]
  use { db with documents, jobs }
  simp only [bind_of_eq_ok hadd, addJob, hget, hjobs]

/-! ### The run of a call -/

/-- The steps of a call of `submit` in which nothing fails. -/
def submitSteps (filename : Text) (contentType : Option Text) (source : List Bytes)
    (documentId jobId : Uuid) (clock : Clock) : List SubmissionEvent :=
  [.begin filename contentType source documentId jobId, .save none, .build clock, .insert none,
    .enqueue .accepted]

namespace System

variable {S : Services} {s s' : System} {i : ℕ} {t : Ticket}

/-- A run that begins with a step of a submission. -/
theorem run_submission {event : SubmissionEvent} {events : List Event} {stores : Stores}
    {before submission : Submission} {issued : List Ticket} (hbefore : s.submissions i = before)
    (hstep : before.step S s.stores event = some (stores, submission))
    (hissue : issue s.issued submission = some issued)
    (hrun : (machine S).run { s with
      stores, issued, submissions := Function.update s.submissions i submission } events = some s') :
  (machine S).run s (.submission i event :: events) = some s'
  := by
  subst hbefore
  apply (machine S).run_cons_iff.mpr
  refine ⟨_, ?_, hrun⟩
  simp [machine, step, hstep, hissue]

/-- The service has no reason to refuse the upload: its identifiers are new, the name and the media type
are valid, the content is not empty and not too large, and no document has it. -/
structure Admits (S : Services) (s : System) (t : Ticket) (filename : Text) (contentType : Option Text)
    (source : List Bytes) : Prop where
  fresh : s.Fresh t.documentId t.jobId
  name : validateFilename filename = .ok filename
  mediaType : validateMediaType filename contentType = .ok t.mediaType
  content : t.content = sourceBytes source
  nonempty : t.content ≠ []
  size : t.content.length ≤ S.maxUploadBytes
  new : ∀ document ∈ s.stores.db.documents, document.sha256 ≠ S.sha256 t.content

/-- The run of a call of `submit` whose parts succeed. -/
theorem run_submitSteps {filename : Text} {contentType : Option Text} {source : List Bytes} {clock : Clock}
    {stored : StoredDocument} {fs : FileSystem} {db : Database} {document : Document} {job : IngestionJob}
    (hidle : (s.submissions i).ids = none) (hname : validateFilename filename = .ok filename)
    (hmedia : validateMediaType filename contentType = .ok t.mediaType)
    (hcontent : t.content = sourceBytes source) (hfresh : s.Fresh t.documentId t.jobId)
    (hsave : s.stores.fs.save S.root S.sha256 t.documentId t.mediaType source S.maxUploadBytes none
      = (fs, .ok stored))
    (hbuild : buildSubmission clock t filename stored = .ok (document, job))
    (hinsert : insertSubmission document job s.stores.db = .ok db) :
  (machine S).run s ((submitSteps filename contentType source t.documentId t.jobId clock).map
      (.submission i)) = some { s with
    stores := { s.stores with db, fs, queue := s.stores.queue ++ [job.id] }
    issued := t :: s.issued
    submissions := Function.update s.submissions i (.returned document job) }
  := by
  have hissue : issue s.issued (.accepted t filename source) = some (t :: s.issued) := by
    rw [issue, if_pos]
    apply List.all_eq_true.mpr
    intro u hu
    simpa using hfresh u hu
  have hbegin : (s.submissions i).step S s.stores
      (.begin filename contentType source t.documentId t.jobId)
        = some (s.stores, .accepted t filename source) := by
    simp [Submission.step, hidle, hname, hmedia, ← hcontent]
  have hsaved : (Submission.accepted t filename source).step S s.stores (.save none)
      = some ({ s.stores with fs }, .saved t filename stored) := by
    simp only [Submission.step, hsave]
  have hbuilt : (Submission.saved t filename stored).step S { s.stores with fs } (.build clock)
      = some ({ s.stores with fs }, .built document job) := by
    simp only [Submission.step, hbuild]
  have hinserted : (Submission.built document job).step S { s.stores with fs } (.insert none)
      = some ({ s.stores with db, fs }, .inserted document job) := by
    simp only [Submission.step, transaction_none, hinsert]
  refine run_submission rfl hbegin hissue ?_
  refine run_submission (Function.update_self ..) hsaved rfl ?_
  refine run_submission (Function.update_self ..) hbuilt rfl ?_
  refine run_submission (Function.update_self ..) hinserted rfl ?_
  refine run_submission (Function.update_self ..) rfl rfl ?_
  simp only [Function.update_idem]
  rfl

/-- A call of `submit` stores an upload there is no reason to refuse. -/
theorem Admits.submits {filename : Text} {contentType : Option Text} {source : List Bytes}
    (h : s.Admits S t filename contentType source) (hreachable : (machine S).Reachable s)
    (hidle : (s.submissions i).ids = none) {clock : Clock} (hclock : clock 0 ≤ clock 1) :
  ∃ s' document job, (machine S).run s ((submitSteps filename contentType source t.documentId t.jobId
      clock).map (.submission i)) = some s'
    ∧ s'.issued = t :: s.issued ∧ s'.deliveries = s.deliveries
    ∧ s'.submissions i = .returned document job
    ∧ s'.stores.db.At t.documentId .queued document job
    ∧ s'.stores.fs.read S.root (storageKey t.documentId t.mediaType) = .ok t.content
    ∧ document.updatedAt = clock 1 ∧ job.updatedAt = clock 2 ∧ job.startedAt = none
  := by
  have hs := Sound.of_reachable hreachable
  have habsent := h.fresh.absent hs (Posted.of_reachable hreachable)
  -- the file
  obtain ⟨fs, stored, hsave, hstored, hstoredSha⟩ : ∃ fs stored,
      s.stores.fs.save S.root S.sha256 t.documentId t.mediaType source S.maxUploadBytes none
          = (fs, .ok stored)
        ∧ stored.storageKey = storageKey t.documentId t.mediaType
        ∧ stored.sha256 = S.sha256 t.content := by
    have hnone := (Housed.of_reachable hreachable).not_mem h.fresh
    have hnonempty := h.nonempty
    have hsize := h.size
    rw [h.content] at hnonempty hsize ⊢
    obtain ⟨fs, hsave⟩ := FileSystem.save_isOk hnone hnonempty hsize
    exact ⟨fs, _, hsave, rfl, rfl⟩
  obtain ⟨-, ⟨_, herror, -⟩ | ⟨-, hfiles⟩⟩ := FileSystem.save_spec hsave
  · cases herror
  have hread : fs.read S.root (storageKey t.documentId t.mediaType) = .ok t.content := by
    apply FileSystem.read_eq_ok_iff.mpr
    refine ⟨⟨[t.documentId.text, sourceName t.mediaType], sourceBytes source⟩, ?_, h.content.symm⟩
    rw [hfiles, Table.get_put, if_pos rfl]
  -- the rows
  obtain ⟨⟨document, job⟩, hbuild⟩ : ∃ rows, buildSubmission clock t filename stored = .ok rows := by
    apply (buildSubmission_isOk_iff (validateFilename_not_blank h.name) hstored _).mpr hclock
    rw [hstoredSha]
    apply S.isSha256_sha256
  obtain ⟨hqueued, hid, -, hkey, hsha, hjobQueued, hcount, hjobId, hjobDocument⟩ :=
    buildSubmission_spec hbuild
  obtain ⟨db, hinsert⟩ : ∃ db, insertSubmission document job s.stores.db = .ok db := by
    apply insertSubmission_isOk
    · rw [hsha, hstoredSha]
      apply h.new
    · intro row hrow hsame
      obtain ⟨u, hu, hnames⟩ := hs.ticket hrow
      rw [hkey, hstored, hnames.storageKey_eq] at hsame
      apply (h.fresh u hu).1
      apply storageKey_injective hsame
    · rw [hid]
      apply habsent.documents
    · rw [hjobId]
      intro row hrow
      apply (habsent.jobs row hrow).2
    · rw [hjobDocument, hid]
  have hinserted := insertSubmission_eq_ok hqueued hjobQueued hcount (hjobDocument.trans hid.symm) hinsert
  have hat := hinserted.at_self hs.coherent
  rw [hid] at hat
  exact ⟨_, document, job, run_submitSteps hidle h.name h.mediaType h.content h.fresh hsave hbuild hinsert,
    rfl, rfl, Function.update_self .., hat, hread, buildSubmission_times hbuild⟩

end System

end KnowledgeSearch

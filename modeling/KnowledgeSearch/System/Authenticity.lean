import KnowledgeSearch.System.Constraints

/-!
# Rows tell their files

The digest and the size of a row are those of the content that was uploaded for it, which is not empty and
no longer than the limit. `System.Authentic` says so of every row and of every submission that is going to
insert one.
-/

namespace KnowledgeSearch

open Database

/-- A content that is stored. -/
def Services.Accepts (S : Services) (content : Bytes) : Prop :=
  content ≠ [] ∧ content.length ≤ S.maxUploadBytes

/-! ### Saving a file -/

/-- The copy loop stops before the limit is passed. -/
theorem length_le_of_copyBlocks {maxBytes : ℕ} {fault : Option SaveFault} {source : List Bytes} :
    ∀ {count : ℕ} {written content : Bytes}, written.length ≤ maxBytes →
      copyBlocks maxBytes fault count written source = .ok content → content.length ≤ maxBytes
  := by
  induction source with
  | nil =>
      intro count written content hwritten h
      rw [copyBlocks] at h
      split at h
      · cases h
      · cases h
        apply hwritten
  | cons block source ih =>
      intro count written content hwritten h
      rw [copyBlocks] at h
      split at h
      · cases h
      split at h
      · cases h
        apply hwritten
      split at h
      · cases h
      rename_i hlimit
      split at h
      · cases h
      · apply ih _ h
        rw [List.length_append]
        apply Nat.le_of_not_lt hlimit

/-- What is stored is not empty and within the limit. -/
theorem accepts_of_save {S : Services} {fs fs' : FileSystem} {id : Uuid} {mediaType : DocumentMediaType}
    {source : List Bytes} {fault : Option SaveFault} {stored : StoredDocument}
    (h : fs.save S.root S.sha256 id mediaType source S.maxUploadBytes fault = (fs', .ok stored)) :
  S.Accepts (sourceBytes source)
  := by
  unfold FileSystem.save at h
  rw [resolveKey_storageKey] at h
  simp only at h
  split at h
  · cases (Prod.mk.inj h).2
  split at h
  · cases (Prod.mk.inj h).2
  split at h
  · cases (Prod.mk.inj h).2
  split at h
  · cases (Prod.mk.inj h).2
  rename_i content hcontent
  have hbytes := guardedSave_eq_ok hcontent
  unfold guardedSave at hcontent
  split at hcontent
  · cases hcontent
  split at hcontent
  · cases hcontent
  rename_i copied hcopied
  split at hcontent
  · cases hcontent
  split at hcontent
  · cases hcontent
  rename_i hne
  split at hcontent
  · cases hcontent
  · obtain rfl := Except.ok.inj hcontent
    rw [← hbytes]
    use hne
    apply length_le_of_copyBlocks (Nat.zero_le _) hcopied

/-! ### Rows -/

/-- No row is new: every document is the revision of one, and every job has the identifiers of one. -/
structure Database.Rewrites (db db' : Database) : Prop where
  documents : ∀ row ∈ db'.documents, ∃ row' ∈ db.documents, row.Revises row'
  jobs : ∀ job ∈ db'.jobs, ∃ job' ∈ db.jobs, job.id = job'.id ∧ job.documentId = job'.documentId

theorem Database.Rewrites.refl (db : Database) :
  db.Rewrites db
  where
  documents row hrow := ⟨row, hrow, Document.Revises.refl row⟩
  jobs job hjob := ⟨job, hjob, rfl, rfl⟩

theorem Database.Moved.rewrites {move : Move} {db db' : Database} {document document' : Document}
    {job job' : IngestionJob} {added : List Chunk}
    (h : Moved move db db' document document' job job' added) :
  db.Rewrites db'
  where
  documents row hrow := by
    rcases (h.mem_documents row).mp hrow with rfl | ⟨hrow, -⟩
    · exact ⟨document, h.document_mem, h.document_revises⟩
    · exact ⟨row, hrow, Document.Revises.refl row⟩
  jobs row hrow := by
    rcases (h.mem_jobs row).mp hrow with rfl | ⟨hrow, -⟩
    · exact ⟨job, h.job_mem, h.job_revises⟩
    · exact ⟨row, hrow, rfl, rfl⟩

theorem Database.Removed.rewrites {db db' : Database} {d : Uuid} (h : Removed db db' d) :
  db.Rewrites db'
  where
  documents row hrow := ⟨row, ((h.mem_documents row).mp hrow).1, Document.Revises.refl row⟩
  jobs job hjob := ⟨job, ((h.mem_jobs job).mp hjob).1, rfl, rfl⟩

theorem Document.Revises.sizeBytes_eq {a b : Document} (h : a.Revises b) :
  a.sizeBytes = b.sizeBytes
  := by
  have hfield := congrArg DocumentFields.sizeBytes h
  apply hfield

/-- The digest and the size of the document are those of the content that was uploaded for it. -/
def Document.Authentic (S : Services) (tickets : List Ticket) (document : Document) : Prop :=
  ∃ t ∈ tickets, t.Names document ∧ document.sha256 = S.sha256 t.content
    ∧ document.sizeBytes = t.content.length ∧ S.Accepts t.content

theorem Document.Authentic.mono {S : Services} {tickets tickets' : List Ticket} {document : Document}
    (h : document.Authentic S tickets) (hsub : tickets ⊆ tickets') :
  document.Authentic S tickets'
  := by
  obtain ⟨t, ht, hcontent⟩ := h
  use t, hsub ht

theorem Document.Authentic.revises {S : Services} {tickets : List Ticket} {document document' : Document}
    (h : document.Authentic S tickets) (hrevises : document'.Revises document) :
  document'.Authentic S tickets
  := by
  obtain ⟨t, ht, hnames, hsha, hsize, haccepts⟩ := h
  exact ⟨t, ht, hnames.revises hrevises, hrevises.sha256_eq.trans hsha, hrevises.sizeBytes_eq.trans hsize,
    haccepts⟩

/-- What a submission is going to insert is authentic. -/
def Submission.Authentic (S : Services) (tickets : List Ticket) : Submission → Prop
  | saved t _ stored => stored.sha256 = S.sha256 t.content ∧ stored.sizeBytes = t.content.length
      ∧ S.Accepts t.content
  | built document _ | conflicted document _ | lookingUp document _ | compensating document _ _
  | inserted document _ | undelivered document _ _ | returned document _ =>
      document.Authentic S tickets
  | _ => True

theorem Submission.Authentic.mono {S : Services} {tickets tickets' : List Ticket}
    {submission : Submission} (h : submission.Authentic S tickets) (hsub : tickets ⊆ tickets') :
  submission.Authentic S tickets'
  := by
  cases submission with
  | saved => exact h
  | built | conflicted | lookingUp | compensating | inserted | undelivered | returned =>
      exact Document.Authentic.mono h hsub
  | _ => trivial

theorem buildSubmission_sizeBytes {clock : Clock} {ticket : Ticket} {filename : Text}
    {stored : StoredDocument} {document : Document} {job : IngestionJob}
    (h : buildSubmission clock ticket filename stored = .ok (document, job)) :
  document.sizeBytes = stored.sizeBytes
  := by
  obtain ⟨document₁, hcreate, h⟩ := bind_eq_ok_iff.mp h
  obtain ⟨document₂, hqueue, h⟩ := bind_eq_ok_iff.mp h
  obtain ⟨job₁, hjob, h⟩ := bind_eq_ok_iff.mp h
  cases h
  have hcreated := Document.construct_eq_ok_iff.mp (liftDomain_eq_ok_iff.mp hcreate)
  obtain ⟨-, -, hrevises⟩ := Document.transition_spec (liftDomain_eq_ok_iff.mp hqueue)
  rw [hrevises.sizeBytes_eq, hcreated]

/-! ### The steps of a submission -/

theorem Submission.Authentic.step {S : Services} {s s' : Stores} {submission submission' : Submission}
    {event : SubmissionEvent} {tickets : List Ticket} (h : submission.Authentic S tickets)
    (hfollows : submission.Follows tickets)
    (hstep : submission.step S s event = some (s', submission')) :
  submission'.Authentic S tickets
  := by
  cases event with
  | begin filename contentType source documentId jobId =>
      simp only [Submission.step] at hstep
      split at hstep
      · cases hstep
      split at hstep
      · cases hstep
        trivial
      split at hstep <;> cases hstep <;> trivial
  | save fault =>
      cases submission with
      | accepted t filename source =>
          simp only [Submission.step] at hstep
          split at hstep
          · cases hstep
            trivial
          · rename_i fs stored hsave
            cases hstep
            obtain ⟨-, ⟨_, herror, -⟩ | ⟨hok, -⟩⟩ := FileSystem.save_spec hsave
            · cases herror
            · obtain rfl := Except.ok.inj hok
              have haccepts := accepts_of_save hsave
              rw [← hfollows.2] at haccepts
              refine ⟨?_, ?_, haccepts⟩
              · rw [hfollows.2]
              · rw [hfollows.2]
      | _ => cases hstep
  | build clock =>
      cases submission with
      | saved t filename stored =>
          simp only [Submission.step] at hstep
          split at hstep
          · cases hstep
            trivial
          · rename_i document job hbuild
            cases hstep
            obtain ⟨hsha, hsize, haccepts⟩ := h
            obtain ⟨-, hid, hmedia, hkey, hdigest, -⟩ := buildSubmission_spec hbuild
            have hnames : t.Names document := ⟨hid, hmedia, hkey.trans hfollows.2⟩
            refine ⟨t, hfollows.1, hnames, hdigest.trans hsha, ?_, haccepts⟩
            rw [buildSubmission_sizeBytes hbuild, hsize]
      | _ => cases hstep
  | insert fault =>
      cases submission with
      | built document job =>
          simp only [Submission.step] at hstep
          split at hstep <;> cases hstep <;> exact h
      | _ => cases hstep
  | removeFile fault =>
      cases submission with
      | conflicted document job =>
          simp only [Submission.step] at hstep
          split at hstep
          · cases hstep
            trivial
          · cases hstep
            exact h
      | compensating document job error =>
          simp only [Submission.step] at hstep
          split at hstep <;> cases hstep <;> trivial
      | _ => cases hstep
  | lookUp fault =>
      cases submission with
      | lookingUp document job =>
          simp only [Submission.step] at hstep
          split at hstep <;> cases hstep <;> trivial
      | _ => cases hstep
  | enqueue outcome =>
      cases submission with
      | inserted document job =>
          simp only [Submission.step] at hstep
          split at hstep
          · cases hstep
            exact h
          · cases hstep
            exact h
          · cases hstep
            trivial
      | _ => cases hstep
  | markDispatchFailed clock fault =>
      cases submission with
      | undelivered document job message =>
          simp only [Submission.step] at hstep
          split at hstep <;> cases hstep <;> trivial
      | _ => cases hstep
  | crash =>
      simp only [Submission.step] at hstep
      split at hstep <;> cases hstep
      trivial

namespace System

variable {S : Services} {s s' : System}

/-! ### The invariant -/

/-- The rows are authentic, and so are those that are going to be inserted. -/
structure Authentic (S : Services) (s : System) : Prop where
  rows : ∀ row ∈ s.stores.db.documents, row.Authentic S s.issued
  submissions : ∀ i, (s.submissions i).Authentic S s.issued

/-- A step inserts rows as the insertion of a submission only. -/
theorem Sound.rewrites (h : s.Sound S) {e : Event} (hstep : System.step S s e = some s') :
  s.stores.db.Rewrites s'.stores.db
    ∨ ∃ i document job event, s.submissions i = .built document job ∧ e = .submission i event
      ∧ Inserted s.stores.db s'.stores.db document job
  := by
  rcases h.step_cases hstep with ⟨i, event, stores, submission, issued, rfl, hsub, -, rfl⟩
    | ⟨i, event, stores, delivery, -, hdel, rfl⟩ | ⟨i, event, stores, deletion, -, hdel, rfl⟩
  · have hfollows := h.submissions i
    generalize hi : s.submissions i = before at hsub hfollows
    cases hsub with
    | insert hinsert =>
        obtain ⟨t, -, hnames, hjobdocument, -, hdocument, hjob, hcount⟩ := hfollows
        have hinserted := insertSubmission_eq_ok hdocument hjob hcount
          (hjobdocument.trans hnames.id_eq.symm) hinsert
        exact Or.inr ⟨i, _, _, event, hi, rfl, hinserted⟩
    | failDispatch _ hmoved => exact Or.inl hmoved.rewrites
    | _ => exact Or.inl (Rewrites.refl _)
  · left
    rcases hdel.moves with hdb | ⟨_, _, _, _, _, _, hmoved⟩
    · rw [hdb]
      apply Rewrites.refl
    · apply hmoved.rewrites
  · left
    rcases hdel.changes h.coherent with hdb | ⟨_, _, _, hmoved, -⟩ | ⟨document, -, hremoved⟩
    · rw [hdb]
      apply Rewrites.refl
    · apply hmoved.rewrites
    · apply hremoved.rewrites

theorem Authentic.step {e : Event} (h : s.Authentic S) (hs : s.Sound S)
    (hstep : System.step S s e = some s') :
  s'.Authentic S
  := by
  have hsub := issued_subset_of_step hstep
  constructor
  · intro row hrow
    rcases hs.rewrites hstep with hrewrites | ⟨i, document, job, event, hi, -, hinserted⟩
    · obtain ⟨row', hrow', hrevises⟩ := hrewrites.documents row hrow
      apply ((h.rows row' hrow').mono hsub).revises hrevises
    · rcases (hinserted.mem_documents row).mp hrow with hrow | rfl
      · apply (h.rows row hrow).mono hsub
      · have hbuilt := h.submissions i
        rw [hi] at hbuilt
        apply Document.Authentic.mono hbuilt hsub
  · rcases step_eq_some hstep with ⟨i, event, stores, submission, issued, -, hsubmission, -, rfl⟩
      | ⟨_, _, _, _, -, -, rfl⟩ | ⟨_, _, _, _, -, -, rfl⟩
    · apply (Function.forall_update_iff s.submissions fun _ d => d.Authentic S issued).mpr
      use ((h.submissions i).step (hs.submissions i) hsubmission).mono hsub
      intro j _
      apply (h.submissions j).mono hsub
    · apply h.submissions
    · apply h.submissions

theorem Authentic.of_reachable (h : (machine S).Reachable s) :
  s.Authentic S
  := by
  have hboth : s.Sound S ∧ s.Authentic S := by
    apply h.induction
    · rintro s rfl
      use Sound.initial
      constructor
      · simp [initial, Stores.initial, Database.initial]
      · exact fun _ => trivial
    · rintro s e s' ⟨hs, hauthentic⟩ hstep
      exact ⟨hs.step hstep, hauthentic.step hs hstep⟩
  apply hboth.2

/-- Whatever is read from the file of a document, by any call at any time, has the digest and the size of
its row, is not empty and keeps the limit. -/
theorem content_authentic (h : (machine S).Reachable s) {row : Document}
    (hrow : row ∈ s.stores.db.documents) {content : Bytes}
    (hread : s.stores.fs.read S.root row.storageKey = .ok content) :
  row.sha256 = S.sha256 content ∧ row.sizeBytes = content.length ∧ content ≠ []
    ∧ content.length ≤ S.maxUploadBytes
  := by
  have hs := Sound.of_reachable h
  obtain ⟨t, ht, hnames, hsha, hsize, hne, hle⟩ := (Authentic.of_reachable h).rows row hrow
  rw [hnames.storageKey_eq] at hread
  obtain ⟨file, hfile, rfl⟩ := FileSystem.read_eq_ok_iff.mp hread
  obtain ⟨hmem, hpath⟩ := Table.get_eq_some_iff.mp hfile
  rw [hs.stores.content hs.distinct ht hmem hpath]
  exact ⟨hsha, hsize, hne, hle⟩

/-- The row of the sample document tells the content of its file. -/
theorem content_authentic_sample :
  ∃ row ∈ (sampleAfter sampleUpload).stores.db.documents,
    row.sha256 = Services.sample.sha256 Services.sampleContent
      ∧ row.sizeBytes = Services.sampleContent.length
  := by
  have hrows : ((sampleAfter sampleUpload).stores.db.documents.rows.any fun row =>
      (sampleAfter sampleUpload).stores.fs.read Services.sample.root row.storageKey
        = .ok Services.sampleContent) = true := by
    decide +kernel
  obtain ⟨row, hrow, hread⟩ := List.any_eq_true.mp hrows
  have hreachable : (machine .sample).Reachable (sampleAfter sampleUpload) :=
    reachable_sampleAfter (by decide +kernel)
  obtain ⟨hsha, hsize, -⟩ := content_authentic hreachable hrow (of_decide_eq_true hread)
  use row, hrow, hsha

end System

end KnowledgeSearch

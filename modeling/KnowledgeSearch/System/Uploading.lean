import KnowledgeSearch.System.Submissions

/-!
# Uploads

Any number of calls of `submit` under way, beside calls of `process` and without a call of
`delete`. A call holds the file it has stored until it inserts the row of its document or removes
the file again, and `System.Uploading` says that every file belongs to a row or is held, and that
no two rows have the same digest. `System.Uploading.run` is its run lemma.
-/

namespace KnowledgeSearch

open Database

/-! ### Rows -/

/-- What a revision of a document keeps: its identifier, its media type and its digest. -/
def Document.signature (document : Document) : Uuid × DocumentMediaType × Text :=
  (document.id, document.mediaType, document.sha256)

/-- The signature of the document of a ticket. -/
def Ticket.signature (S : Services) (t : Ticket) : Uuid × DocumentMediaType × Text :=
  (t.documentId, t.mediaType, S.sha256 t.content)

/-- There is a row with the signature. -/
def Database.Lists (db : Database) (x : Uuid × DocumentMediaType × Text) : Prop :=
  ∃ document ∈ db.documents, document.signature = x

theorem Document.Revises.signature_eq {a b : Document} (h : a.Revises b) :
  a.signature = b.signature
  := by
  have hsha := congrArg DocumentFields.sha256 h
  rw [Document.signature, Document.signature, h.id_eq, h.mediaType_eq]
  congr 2

theorem Database.Moved.lists {move : Move} {db db' : Database} {document document' : Document}
    {job job' : IngestionJob} {added : List Chunk}
    (h : Moved move db db' document document' job job' added) (x : Uuid × DocumentMediaType × Text) :
  db'.Lists x ↔ db.Lists x
  := by
  have hsignature := h.document_revises.signature_eq
  constructor
  · rintro ⟨row, hrow, rfl⟩
    rw [h.documents] at hrow
    rcases Table.mem_replace.mp hrow with ⟨rfl, -⟩ | ⟨hrow, -⟩
    · use document, h.document_mem, hsignature.symm
    · use row, hrow
  · rintro ⟨row, hrow, rfl⟩
    by_cases hid : row.id = document'.id
    · have heq : row = document :=
        Table.eq_of_key_eq hrow h.document_mem (hid.trans h.document_revises.id_eq)
      use document'
      rw [h.documents, Table.mem_replace, heq]
      use Or.inl ⟨rfl, document, h.document_mem, h.document_revises.id_eq.symm⟩
    · use row
      rw [h.documents, Table.mem_replace]
      use Or.inr ⟨hrow, hid⟩

theorem Database.Inserted.lists {db db' : Database} {document : Document} {job : IngestionJob}
    (h : Inserted db db' document job) (x : Uuid × DocumentMediaType × Text) :
  db'.Lists x ↔ db.Lists x ∨ x = document.signature
  := by
  constructor
  · rintro ⟨row, hrow, rfl⟩
    rcases (h.mem_documents row).mp hrow with hrow | rfl
    · exact Or.inl ⟨row, hrow, rfl⟩
    · exact Or.inr rfl
  · rintro (⟨row, hrow, rfl⟩ | rfl)
    · exact ⟨row, (h.mem_documents row).mpr (Or.inl hrow), rfl⟩
    · exact ⟨document, (h.mem_documents document).mpr (Or.inr rfl), rfl⟩

/-- A row that is inserted has a new digest. -/
theorem insertSubmission_sha256 {db db' : Database} {document : Document} {job : IngestionJob}
    (h : insertSubmission document job db = .ok db') :
  ∀ row ∈ db.documents, row.sha256 ≠ document.sha256
  := by
  intro row hrow heq
  unfold insertSubmission at h
  split at h
  · cases h
  · rename_i hnone
    have hfind := List.find?_eq_none.mp hnone row hrow
    simp [heq] at hfind

/-! ### Files -/

/-- The path of the file of a document. -/
def Document.path (document : Document) : List Text :=
  [document.id.text, sourceName document.mediaType]

theorem Ticket.Names.path_eq {t : Ticket} {document : Document} (h : t.Names document) :
  document.path = t.path
  := by
  rw [Document.path, Ticket.path, h.id_eq, h.mediaType_eq]

/-- The storage key of the document resolves to the path of the file. -/
def StoredFile.BelongsTo (S : Services) (f : StoredFile)
    (document : Document) : Prop :=
  resolveKey S.root document.storageKey = .ok f.path

/-- The path of the file a call has stored and has still to insert a row for or to remove. -/
def Submission.held : Submission → Option (List Text)
  | saved t _ _ => some t.path
  | built document _ | conflicted document _ | compensating document _ _ => some document.path
  | _ => none

/-- The document whose row a call has inserted. -/
def Submission.placed : Submission → Option Uuid
  | inserted document _ | undelivered document _ _ => some document.id
  | _ => none

/-- What a call carries has the digest of the content of its ticket. -/
def Submission.Prepared (S : Services) (tickets : List Ticket) : Submission → Prop
  | accepted _ filename _ => blank filename = false
  | saved t filename stored => blank filename = false ∧ stored.sha256 = S.sha256 t.content
  | built document _ | conflicted document _ | lookingUp document _ | compensating document _ _ =>
      ∃ t ∈ tickets, t.Names document ∧ document.signature = t.signature S
  | _ => True

theorem Submission.Prepared.mono {S : Services} {tickets tickets' : List Ticket}
    {submission : Submission} (h : submission.Prepared S tickets) (hsub : tickets ⊆ tickets') :
  submission.Prepared S tickets'
  := by
  cases submission with
  | built | conflicted | lookingUp | compensating =>
      obtain ⟨t, ht, hnames⟩ := h
      use t, hsub ht
  | _ => apply h

/-! ### The steps of a call -/

/-- The compensation and the look-up after it meet no fault, and the process does not die. -/
def SubmissionEvent.Smooth : SubmissionEvent → Prop
  | removeFile fault | lookUp fault => fault = none
  | crash => False
  | _ => True

/-- Between the creation of the document and its transition to the queue the clock does not go
back. -/
def SubmissionEvent.Steady : SubmissionEvent → Prop
  | build clock => clock 0 ≤ clock 1
  | _ => True

/-- What a step of `submit` does to the rows and the files. -/
inductive Submission.Effects (s s' : Stores) : Submission → Submission → Prop
  | quiet {submission submission' : Submission}
      (hfiles : ∀ f, f ∈ s'.fs.files ↔ f ∈ s.fs.files) (hlists : ∀ x, s'.db.Lists x ↔ s.db.Lists x)
      (hheld : submission'.held = submission.held)
      (hplaced : ∀ d, submission'.placed = some d → submission.placed = some d) :
      Effects s s' submission submission'
  | save {t : Ticket} {filename : Text} {source : List Bytes} {stored : StoredDocument}
      (hfiles : s'.fs.files = s.fs.files.put ⟨t.path, t.content⟩)
      (hlists : ∀ x, s'.db.Lists x ↔ s.db.Lists x) :
      Effects s s' (.accepted t filename source) (.saved t filename stored)
  | insert {document : Document} {job : IngestionJob} (hfs : s'.fs = s.fs)
      (hinserted : Inserted s.db s'.db document job)
      (hnew : ∀ row ∈ s.db.documents, row.sha256 ≠ document.sha256) :
      Effects s s' (.built document job) (.inserted document job)
  | remove {submission submission' : Submission} {document : Document}
      (hheld : submission.held = some document.path) (hheld' : submission'.held = none)
      (hplaced : submission'.placed = none)
      (hfiles : ∀ f, f ∈ s'.fs.files ↔ f ∈ s.fs.files ∧ f.path ≠ document.path)
      (hlists : ∀ x, s'.db.Lists x ↔ s.db.Lists x) :
      Effects s s' submission submission'

namespace Submission

variable {S : Services} {s s' : Stores} {submission submission' : Submission}
  {event : SubmissionEvent} {tickets : List Ticket}

/-- A step that leaves the stores as they are. -/
theorem Effects.same (hheld : submission'.held = submission.held)
    (hplaced : ∀ d, submission'.placed = some d → submission.placed = some d) :
  Effects s s submission submission'
  := Effects.quiet (fun _ => Iff.rfl) (fun _ => Iff.rfl) hheld hplaced

/-- A call that has placed no row. -/
theorem not_placed (h : submission'.placed = none) :
  ∀ d, submission'.placed = some d → submission.placed = some d
  := by
  intro d hd
  rw [h] at hd
  cases hd

/-- A call that has ended holds nothing. -/
theorem held_of_ended (h : submission.ids = none) :
  submission.held = none
  := by
  cases submission <;> first | rfl | cases h

/-- Removing the file of a call. -/
theorem effects_remove {document : Document} {fs : FileSystem}
    (hprepared : ∃ t ∈ tickets, t.Names document ∧ document.signature = t.signature S)
    (hheld : submission.held = some document.path) (hheld' : submission'.held = none)
    (hplaced : submission'.placed = none) (hdelete : s.fs.delete S.root document.storageKey = .ok fs) :
  Effects s { s with fs } submission submission'
  := by
  obtain ⟨t, -, hnames, -⟩ := hprepared
  rw [hnames.storageKey_eq] at hdelete
  apply Effects.remove hheld hheld' hplaced
  · intro f
    rw [hnames.path_eq]
    apply FileSystem.mem_delete hdelete
  · intro x
    rfl

/-- The file of a call can be removed. -/
theorem exists_delete {document : Document} (hs : s.Follows tickets)
    (hprepared : ∃ t ∈ tickets, t.Names document ∧ document.signature = t.signature S) :
  ∃ fs, s.fs.delete S.root document.storageKey = .ok fs
  := by
  obtain ⟨t, -, hnames, -⟩ := hprepared
  rw [hnames.storageKey_eq]
  apply FileSystem.delete_isOk hs.shallow
  intro f hf
  obtain ⟨u, -, rfl⟩ := hs.files f hf
  rfl

/-- What a step of a call does, when its compensation meets no fault and its clock does not go
back. -/
theorem effects_of_step (hs : s.Follows tickets) (hdb : s.db.Coherent)
    (hlinked : ∀ ids, submission.ids = some ids → s.db.Linked ids.1 ids.2)
    (hfollows : submission.Follows tickets) (hprepared : submission.Prepared S tickets)
    (hsmooth : event.Smooth) (hsteady : event.Steady)
    (hstep : submission.step S s event = some (s', submission')) :
  Effects s s' submission submission' ∧ submission'.Prepared S tickets
  := by
  cases event with
  | begin filename contentType source documentId jobId =>
      simp only [step] at hstep
      split at hstep
      · cases hstep
      rename_i hended
      have hheld : submission.held = none := by
        apply held_of_ended
        simpa using hended
      split at hstep
      · cases hstep
        exact ⟨Effects.same hheld.symm (not_placed rfl), trivial⟩
      rename_i safeFilename hname
      split at hstep
      · cases hstep
        exact ⟨Effects.same hheld.symm (not_placed rfl), trivial⟩
      · cases hstep
        have hblank := validateFilename_not_blank hname
        rw [validateFilename_eq_ok hname] at hblank
        exact ⟨Effects.same hheld.symm (not_placed rfl), hblank⟩
  | save fault =>
      cases submission with
      | accepted t filename source =>
          obtain ⟨-, hcontent⟩ := hfollows
          simp only [step] at hstep
          split at hstep
          · rename_i fs e hsave
            cases hstep
            obtain ⟨-, ⟨_, -, hfiles⟩ | ⟨hok, -⟩⟩ := FileSystem.save_spec hsave
            · refine ⟨Effects.quiet ?_ (fun _ => Iff.rfl) rfl (not_placed rfl), trivial⟩
              intro f
              rw [hfiles]
            · cases hok
          · rename_i fs stored hsave
            cases hstep
            obtain ⟨-, ⟨_, herror, -⟩ | ⟨hok, hfiles⟩⟩ := FileSystem.save_spec hsave
            · cases herror
            · obtain rfl := Except.ok.inj hok
              rw [← hcontent] at hfiles
              refine ⟨Effects.save hfiles fun _ => Iff.rfl, hprepared, ?_⟩
              rw [hcontent]
      | _ => cases hstep
  | build clock =>
      cases submission with
      | saved t filename stored =>
          obtain ⟨ht, hkey⟩ := hfollows
          obtain ⟨hname, hsha⟩ := hprepared
          simp only [step] at hstep
          split at hstep
          · rename_i e hbuild
            have hisSha : isSha256 stored.sha256 = true := by
              rw [hsha]
              apply S.isSha256_sha256
            obtain ⟨rows, hrows⟩ := (buildSubmission_isOk_iff hname hkey hisSha).mpr hsteady
            rw [hrows] at hbuild
            cases hbuild
          · rename_i document job hbuild
            cases hstep
            obtain ⟨-, hid, hmedia, hdocumentKey, hdocumentSha, -⟩ := buildSubmission_spec hbuild
            have hnames : t.Names document := ⟨hid, hmedia, hdocumentKey.trans hkey⟩
            constructor
            · apply Effects.same
              · rw [held, held, hnames.path_eq]
              · intro d hplaced
                cases hplaced
            · use t, ht, hnames
              rw [Document.signature, Ticket.signature, hid, hmedia, hdocumentSha, hsha]
      | _ => cases hstep
  | insert fault =>
      cases submission with
      | built document job =>
          obtain ⟨t, -, hnames, hjobDocument, -, hqueued, hjobQueued, hcount⟩ := hfollows
          simp only [step] at hstep
          split at hstep
          · cases hstep
            exact ⟨Effects.same rfl (not_placed rfl), hprepared⟩
          · cases hstep
            exact ⟨Effects.same rfl (not_placed rfl), hprepared⟩
          · rename_i db hinsert
            cases hstep
            have hok := (transaction_eq_ok_iff.mp hinsert).2
            have hinserted := insertSubmission_eq_ok hqueued hjobQueued hcount
              (hjobDocument.trans hnames.id_eq.symm) hok
            exact ⟨Effects.insert rfl hinserted (insertSubmission_sha256 hok), trivial⟩
      | _ => cases hstep
  | removeFile fault =>
      obtain rfl : fault = none := hsmooth
      cases submission with
      | conflicted document job =>
          obtain ⟨fs, hdelete⟩ := exists_delete hs hprepared
          simp only [step, transaction_none, hdelete] at hstep
          cases hstep
          exact ⟨effects_remove hprepared rfl rfl rfl hdelete, hprepared⟩
      | compensating document job error =>
          obtain ⟨fs, hdelete⟩ := exists_delete hs hprepared
          simp only [step, transaction_none, hdelete] at hstep
          cases hstep
          exact ⟨effects_remove hprepared rfl rfl rfl hdelete, trivial⟩
      | _ => cases hstep
  | lookUp fault =>
      cases submission with
      | lookingUp document job =>
          simp only [step] at hstep
          split at hstep <;> cases hstep <;>
            exact ⟨Effects.same rfl (not_placed rfl), trivial⟩
      | _ => cases hstep
  | enqueue outcome =>
      cases submission with
      | inserted document job =>
          have hdeliver : ∀ delivered, (s.deliver delivered job.id).fs = s.fs
              ∧ (s.deliver delivered job.id).db = s.db := by
            intro delivered
            cases delivered <;> exact ⟨rfl, rfl⟩
          have heffects : ∀ {delivered : Bool} {submission' : Submission},
              submission'.held = none →
              (∀ d, submission'.placed = some d → (inserted document job).placed = some d) →
              Effects s (s.deliver delivered job.id) (.inserted document job) submission' := by
            intro delivered submission' hheld hplaced
            obtain ⟨hfs, hsame⟩ := hdeliver delivered
            apply Effects.quiet _ _ hheld hplaced
            · intro f
              rw [hfs]
            · intro x
              rw [hsame]
          simp only [step] at hstep
          split at hstep
          · cases hstep
            exact ⟨heffects rfl (not_placed rfl), trivial⟩
          · cases hstep
            exact ⟨heffects rfl fun _ h => h, trivial⟩
          · cases hstep
            exact ⟨heffects rfl (not_placed rfl), trivial⟩
      | _ => cases hstep
  | markDispatchFailed clock fault =>
      cases submission with
      | undelivered document job message =>
          simp only [step] at hstep
          split at hstep
          · cases hstep
            exact ⟨Effects.same rfl (not_placed rfl), trivial⟩
          · rename_i db hmark
            cases hstep
            refine ⟨Effects.quiet (fun _ => Iff.rfl) ?_ rfl (not_placed rfl), trivial⟩
            intro x
            rcases markDispatchFailed_eq_ok (hlinked _ rfl) hdb (transaction_eq_ok_iff.mp hmark).2
              with ⟨hsame, -⟩ | ⟨_, _, _, _, -, hmoved, -⟩
            · rw [hsame]
            · apply hmoved.lists
      | _ => cases hstep
  | crash => cases hsmooth

end Submission

/-- Rows stay, as far as their signatures go. -/
theorem Submission.Effects.lists {s s' : Stores} {submission submission' : Submission}
    (h : Submission.Effects s s' submission submission') {x : Uuid × DocumentMediaType × Text}
    (hx : s.db.Lists x) :
  s'.db.Lists x
  := by
  cases h with
  | quiet _ hlists | save _ hlists | remove _ _ _ _ hlists => apply (hlists x).mpr hx
  | insert _ hinserted => apply (hinserted.lists x).mpr (Or.inl hx)

/-- A call holds the file of a document that it has the identifier of. -/
theorem Submission.ids_of_held {submission : Submission} {path : List Text}
    (h : submission.held = some path) :
  ∃ ids mediaType, submission.ids = some ids ∧ path = [Uuid.text ids.1, sourceName mediaType]
  := by
  cases submission with
  | saved t filename stored => exact ⟨_, t.mediaType, rfl, (Option.some.inj h).symm⟩
  | built document | conflicted document | compensating document =>
      exact ⟨_, document.mediaType, rfl, (Option.some.inj h).symm⟩
  | _ => cases h

/-! ### Files and rows -/

/-- What the stores hold of the tickets, and what the calls hold: every row is as a ticket says and
has its file, no two rows have the same digest, and every file belongs to a row or to one of the
calls, whose document has no row yet. -/
structure Stores.Registered (S : Services) (tickets : List Ticket) (submissions : ℕ → Submission)
    (s : Stores) : Prop where
  digests : ∀ x, s.db.Lists x → ∃ t ∈ tickets, x = t.signature S ∧ ⟨t.path, t.content⟩ ∈ s.fs.files
  unique : ∀ x y, s.db.Lists x → s.db.Lists y → x.2.2 = y.2.2 → x = y
  owned : ∀ f ∈ s.fs.files, (∃ t ∈ tickets, f.path = t.path ∧ s.db.Lists (t.signature S))
    ∨ ∃ i, (submissions i).held = some f.path
  held : ∀ i path, (submissions i).held = some path → ∃ t ∈ tickets, t.path = path
    ∧ ⟨t.path, t.content⟩ ∈ s.fs.files ∧ ¬ s.db.Lists (t.signature S)
  held_unique : ∀ i k path, (submissions i).held = some path → (submissions k).held = some path → i = k
  placed : ∀ i d, (submissions i).placed = some d →
    ∃ t ∈ tickets, t.documentId = d ∧ s.db.Lists (t.signature S)

namespace Stores.Registered

variable {S : Services} {tickets tickets' : List Ticket} {submissions : ℕ → Submission}
  {s s' : Stores} {i : ℕ} {submission : Submission}

/-- The tickets with a path are one. -/
theorem ticket_eq (hdistinct : Distinct tickets) {t u : Ticket} (ht : t ∈ tickets) (hu : u ∈ tickets)
    (h : t.path = u.path) :
  t = u
  := hdistinct.documents t ht u hu (storedPath_injective h)

/-- New tickets change nothing. -/
theorem mono (h : s.Registered S tickets submissions) (hsub : tickets ⊆ tickets') :
  s.Registered S tickets' submissions
  where
  digests := by
    intro x hx
    obtain ⟨t, ht, hfile⟩ := h.digests x hx
    use t, hsub ht
  unique := h.unique
  owned := by
    intro f hf
    rcases h.owned f hf with ⟨t, ht, hrow⟩ | hheld
    · exact Or.inl ⟨t, hsub ht, hrow⟩
    · exact Or.inr hheld
  held := by
    intro i path hpath
    obtain ⟨t, ht, hfile⟩ := h.held i path hpath
    use t, hsub ht
  held_unique := h.held_unique
  placed := by
    intro i d hd
    obtain ⟨t, ht, hrow⟩ := h.placed i d hd
    use t, hsub ht

/-- A step that changes neither the files nor the signatures of the rows. -/
theorem quiet (h : s.Registered S tickets submissions)
    (hfiles : ∀ f, f ∈ s'.fs.files ↔ f ∈ s.fs.files) (hlists : ∀ x, s'.db.Lists x ↔ s.db.Lists x) :
  s'.Registered S tickets submissions
  := by
  constructor
  · simpa only [hlists, hfiles] using h.digests
  · simpa only [hlists] using h.unique
  · simpa only [hlists, hfiles] using h.owned
  · simpa only [hlists, hfiles] using h.held
  · apply h.held_unique
  · simpa only [hlists] using h.placed

/-- A call that goes on without taking hold of another file or placing another row. -/
theorem update (h : s.Registered S tickets submissions)
    (hheld : submission.held = (submissions i).held)
    (hplaced : ∀ d, submission.placed = some d → (submissions i).placed = some d) :
  s.Registered S tickets (Function.update submissions i submission)
  := by
  have hsame : ∀ k, (Function.update submissions i submission k).held = (submissions k).held := by
    intro k
    by_cases hk : k = i
    · rw [hk, Function.update_self, hheld]
    · rw [Function.update_of_ne hk]
  constructor
  · apply h.digests
  · apply h.unique
  · simpa only [hsame] using h.owned
  · simpa only [hsame] using h.held
  · simpa only [hsame] using h.held_unique
  · intro k d hd
    apply h.placed k
    by_cases hk : k = i
    · subst hk
      rw [Function.update_self] at hd
      apply hplaced d hd
    · rw [Function.update_of_ne hk] at hd
      apply hd

/-- A call stores the file of its ticket. -/
theorem save {t : Ticket} {filename : Text} {source : List Bytes} {stored : StoredDocument}
    (h : s.Registered S tickets submissions) (hdistinct : Distinct tickets) (ht : t ∈ tickets)
    (hcall : submissions i = .accepted t filename source)
    (hunlisted : ¬ s.db.Lists (t.signature S))
    (hfree : ∀ k, (submissions k).held ≠ some t.path)
    (hfiles : s'.fs.files = s.fs.files.put ⟨t.path, t.content⟩)
    (hlists : ∀ x, s'.db.Lists x ↔ s.db.Lists x) :
  s'.Registered S tickets (Function.update submissions i (.saved t filename stored))
  := by
  have hmem : ∀ f, f ∈ s'.fs.files ↔ f = ⟨t.path, t.content⟩ ∨ (f ∈ s.fs.files ∧ f.path ≠ t.path) := by
    intro f
    rw [hfiles]
    apply Table.mem_put
  have hkeep : ∀ u ∈ tickets, (⟨u.path, u.content⟩ : StoredFile) ∈ s.fs.files →
      (⟨u.path, u.content⟩ : StoredFile) ∈ s'.fs.files := by
    intro u hu hfile
    rw [hmem]
    by_cases hpath : u.path = t.path
    · left
      rw [ticket_eq hdistinct hu ht hpath]
    · exact Or.inr ⟨hfile, hpath⟩
  constructor
  · intro x hx
    obtain ⟨u, hu, hsignature, hfile⟩ := h.digests x ((hlists x).mp hx)
    use u, hu, hsignature, hkeep u hu hfile
  · simpa only [hlists] using h.unique
  · intro f hf
    rcases (hmem f).mp hf with rfl | ⟨hf, hpath⟩
    · right
      use i
      rw [Function.update_self]
      rfl
    · rcases h.owned f hf with ⟨u, hu, hrow, hlisted⟩ | ⟨k, hk⟩
      · exact Or.inl ⟨u, hu, hrow, (hlists _).mpr hlisted⟩
      · right
        use k
        have hne : k ≠ i := by
          rintro rfl
          rw [hcall] at hk
          cases hk
        rw [Function.update_of_ne hne, hk]
  · intro k path hpath
    simp only [hlists]
    by_cases hk : k = i
    · subst hk
      rw [Function.update_self] at hpath
      use t, ht, Option.some.inj hpath, (hmem _).mpr (Or.inl rfl), hunlisted
    · rw [Function.update_of_ne hk] at hpath
      obtain ⟨u, hu, hupath, hfile, hnot⟩ := h.held k path hpath
      use u, hu, hupath, hkeep u hu hfile
  · have hother : ∀ k, k ≠ i → ∀ path, (submissions k).held = some path → path ≠ t.path := by
      intro k _ path hpath heq
      apply hfree k
      rw [hpath, heq]
    intro k l path hk hl
    by_cases hki : k = i
    · by_cases hli : l = i
      · rw [hki, hli]
      · rw [hki, Function.update_self] at hk
        rw [Function.update_of_ne hli] at hl
        exact absurd (Option.some.inj hk).symm (hother l hli path hl)
    · rw [Function.update_of_ne hki] at hk
      by_cases hli : l = i
      · rw [hli, Function.update_self] at hl
        exact absurd (Option.some.inj hl).symm (hother k hki path hk)
      · rw [Function.update_of_ne hli] at hl
        apply h.held_unique k l path hk hl
  · intro k d hd
    rw [Function.update_apply] at hd
    split at hd
    · cases hd
    · obtain ⟨u, hu, hid, hlisted⟩ := h.placed k d hd
      use u, hu, hid
      rw [hlists]
      apply hlisted

/-- What the calls hold when one of them lets go of its file. -/
theorem held_update (hheld : submission.held = none) {k : ℕ} {path : List Text} :
  (Function.update submissions i submission k).held = some path
    ↔ k ≠ i ∧ (submissions k).held = some path
  := by
  by_cases hk : k = i
  · rw [hk, Function.update_self, hheld]
    simp
  · rw [Function.update_of_ne hk]
    simp [hk]

/-- A call inserts the row of its document. -/
theorem insert {t : Ticket} {document : Document} {job : IngestionJob}
    (h : s.Registered S tickets submissions) (hdistinct : Distinct tickets) (ht : t ∈ tickets)
    (hnames : t.Names document) (hsignature : document.signature = t.signature S)
    (hcall : submissions i = .built document job) (hfs : s'.fs = s.fs)
    (hinserted : Inserted s.db s'.db document job)
    (hnew : ∀ row ∈ s.db.documents, row.sha256 ≠ document.sha256) :
  s'.Registered S tickets (Function.update submissions i (.inserted document job))
  := by
  have hlists : ∀ x, s'.db.Lists x ↔ s.db.Lists x ∨ x = t.signature S := by
    intro x
    rw [← hsignature]
    apply hinserted.lists
  have hholds : (submissions i).held = some t.path := by
    rw [hcall, ← hnames.path_eq]
    rfl
  have hother : ∀ x, s.db.Lists x → x.2.2 ≠ (t.signature S).2.2 := by
    rintro x ⟨row, hrow, rfl⟩
    rw [← hsignature]
    apply hnew row hrow
  constructor
  · intro x hx
    rw [hfs]
    rcases (hlists x).mp hx with hx | rfl
    · apply h.digests x hx
    · obtain ⟨u, hu, hpath, hfile, -⟩ := h.held i _ hholds
      use t, ht, rfl
      rw [ticket_eq hdistinct hu ht hpath] at hfile
      apply hfile
  · intro x y hx hy hsha
    rcases (hlists x).mp hx with hx | rfl
    · rcases (hlists y).mp hy with hy | rfl
      · apply h.unique x y hx hy hsha
      · exact absurd hsha (hother x hx)
    · rcases (hlists y).mp hy with hy | rfl
      · exact absurd hsha.symm (hother y hy)
      · rfl
  · intro f hf
    rw [hfs] at hf
    simp only [hlists]
    rcases h.owned f hf with ⟨u, hu, hpath, hlisted⟩ | ⟨k, hk⟩
    · exact Or.inl ⟨u, hu, hpath, Or.inl hlisted⟩
    · by_cases hki : k = i
      · rw [hki, hholds] at hk
        exact Or.inl ⟨t, ht, (Option.some.inj hk).symm, Or.inr rfl⟩
      · exact Or.inr ⟨k, (held_update rfl).mpr ⟨hki, hk⟩⟩
  · intro k path hpath
    obtain ⟨hki, hk⟩ := (held_update rfl).mp hpath
    obtain ⟨u, hu, hupath, hfile, hnot⟩ := h.held k path hk
    refine ⟨u, hu, hupath, hfs ▸ hfile, ?_⟩
    rw [hlists]
    rintro (hlisted | heq)
    · exact hnot hlisted
    · have hut : u = t := hdistinct.documents u hu t ht (congrArg Prod.fst heq)
      apply hki
      apply h.held_unique k i path hk
      rw [hholds, ← hupath, hut]
  · intro k l path hk hl
    apply h.held_unique k l path ((held_update rfl).mp hk).2 ((held_update rfl).mp hl).2
  · intro k d hd
    simp only [hlists]
    rw [Function.update_apply] at hd
    split at hd
    · use t, ht
      use hnames.id_eq.symm.trans (Option.some.inj hd), Or.inr rfl
    · obtain ⟨u, hu, hid, hlisted⟩ := h.placed k d hd
      use u, hu, hid, Or.inl hlisted

/-- A call removes the file it holds. -/
theorem remove {document : Document} (h : s.Registered S tickets submissions)
    (hdistinct : Distinct tickets) (hholds : (submissions i).held = some document.path)
    (hheld : submission.held = none) (hplaced : submission.placed = none)
    (hfiles : ∀ f, f ∈ s'.fs.files ↔ f ∈ s.fs.files ∧ f.path ≠ document.path)
    (hlists : ∀ x, s'.db.Lists x ↔ s.db.Lists x) :
  s'.Registered S tickets (Function.update submissions i submission)
  := by
  constructor
  · intro x hx
    obtain ⟨u, hu, rfl, hfile⟩ := h.digests x ((hlists x).mp hx)
    refine ⟨u, hu, rfl, (hfiles _).mpr ⟨hfile, ?_⟩⟩
    intro hpath
    obtain ⟨t, ht, htpath, -, hnot⟩ := h.held i _ hholds
    apply hnot
    rw [ticket_eq hdistinct ht hu (htpath.trans hpath.symm)]
    apply (hlists _).mp hx
  · simpa only [hlists] using h.unique
  · intro f hf
    obtain ⟨hf, hpath⟩ := (hfiles f).mp hf
    simp only [hlists]
    rcases h.owned f hf with hlisted | ⟨k, hk⟩
    · exact Or.inl hlisted
    · right
      use k
      apply (held_update hheld).mpr
      refine ⟨?_, hk⟩
      rintro rfl
      rw [hholds] at hk
      apply hpath (Option.some.inj hk).symm
  · intro k path hpath
    simp only [hlists]
    obtain ⟨hki, hk⟩ := (held_update hheld).mp hpath
    obtain ⟨u, hu, hupath, hfile, hnot⟩ := h.held k path hk
    refine ⟨u, hu, hupath, (hfiles _).mpr ⟨hfile, ?_⟩, hnot⟩
    intro heq
    apply hki
    apply h.held_unique k i path hk
    rw [hholds, ← hupath]
    exact congrArg some heq.symm
  · intro k l path hk hl
    apply h.held_unique k l path ((held_update hheld).mp hk).2 ((held_update hheld).mp hl).2
  · intro k d hd
    simp only [hlists]
    rw [Function.update_apply] at hd
    split at hd
    · rw [hplaced] at hd
      cases hd
    · apply h.placed k d hd

end Stores.Registered

/-! ### Runs of uploads -/

/-- The step is not one of `delete`, and in a call of `submit` the compensation and the look-up
after it meet no fault and the process does not die. -/
def Event.Smooth : Event → Prop
  | .submission _ event => event.Smooth
  | .delivery _ _ => True
  | .deletion _ _ => False

/-- In a call of `submit` the clock does not go back between the creation of the document and its
transition to the queue. -/
def Event.Steady : Event → Prop
  | .submission _ event => event.Steady
  | _ => True

namespace System

variable {S : Services} {s s' : System}

/-- What holds in runs without a call of `delete`. -/
structure Uploading (S : Services) (s : System) : Prop where
  sound : s.Sound S
  prepared : ∀ i, (s.submissions i).Prepared S s.issued
  registered : s.stores.Registered S s.issued s.submissions
  posted : ∀ id ∈ s.stores.queue, ∃ t ∈ s.issued, t.jobId = id ∧ s.stores.db.Lists (t.signature S)

/-- A document that is still to be inserted has no row. -/
theorem Sound.not_lists_of_pending (h : s.Sound S) {i : ℕ} {t : Ticket}
    (hpending : (s.submissions i).pending = some t.documentId) :
  ¬ s.stores.db.Lists (t.signature S)
  := by
  rintro ⟨row, hrow, hsignature⟩
  apply h.pending i t.documentId hpending
  apply Known.row row hrow (congrArg Prod.fst hsignature)

/-- A call that does not hold its file yet is the only one with its document. -/
theorem Sound.held_ne_of_pending (h : s.Sound S) {i : ℕ} {t : Ticket}
    (hpending : (s.submissions i).pending = some t.documentId) (hheld : (s.submissions i).held = none)
    (k : ℕ) :
  (s.submissions k).held ≠ some t.path
  := by
  intro hk
  obtain ⟨ids, mediaType, hids, hpath⟩ := Submission.ids_of_held hk
  have hik : i = k := by
    apply h.pending_unique i k t.documentId ids hpending hids
    exact (storedPath_injective hpath).symm
  rw [← hik, hheld] at hk
  cases hk

theorem Uploading.initial :
  System.initial.Uploading S
  where
  sound := Sound.initial
  prepared _ := trivial
  registered := by
    constructor <;> simp [System.initial, Stores.initial, Database.initial, FileSystem.initial,
      Database.Lists, Submission.held, Submission.placed]
  posted := by simp [System.initial, Stores.initial]

/-- A step of a call of `submit` keeps files and rows registered. -/
theorem Uploading.effects (h : s.Uploading S) {i : ℕ} {stores : Stores} {submission : Submission}
    (heffects : Submission.Effects s.stores stores (s.submissions i) submission) :
  stores.Registered S s.issued (Function.update s.submissions i submission)
  := by
  have hfollows := h.sound.submissions i
  have hprepared := h.prepared i
  generalize hcall : s.submissions i = before at heffects hfollows hprepared
  cases heffects with
  | quiet hfiles hlists hheld hplaced =>
      rw [← hcall] at hheld hplaced
      apply (h.registered.quiet hfiles hlists).update hheld hplaced
  | save hfiles hlists =>
      apply h.registered.save h.sound.distinct hfollows.1 hcall _ _ hfiles hlists
      · apply h.sound.not_lists_of_pending (i := i)
        rw [hcall]
        rfl
      · apply h.sound.held_ne_of_pending (i := i)
        · rw [hcall]
          rfl
        · rw [hcall]
          rfl
  | insert hfs hinserted hnew =>
      obtain ⟨t, ht, hnames, hsignature⟩ := hprepared
      apply h.registered.insert h.sound.distinct ht hnames hsignature hcall hfs hinserted hnew
  | remove hheld hheld' hplaced hfiles hlists =>
      rw [← hcall] at hheld
      apply h.registered.remove h.sound.distinct hheld hheld' hplaced hfiles hlists

/-- A step of a delivery keeps the rows, as far as their signatures go. -/
theorem Sound.lists_delivery (h : s.Sound S) {i : ℕ} {event : DeliveryEvent} {stores : Stores}
    {delivery : Delivery}
    (hdel : (s.deliveries i).step S s.stores event = some (stores, delivery))
    (x : Uuid × DocumentMediaType × Text) :
  stores.db.Lists x ↔ s.stores.db.Lists x
  := by
  rcases (h.delivery_steps hdel).moves with hdb | ⟨_, _, _, _, _, _, hmoved⟩
  · rw [hdb]
  · apply hmoved.lists

theorem Uploading.step {e : Event} (h : s.Uploading S) (hsmooth : e.Smooth) (hsteady : e.Steady)
    (hstep : System.step S s e = some s') :
  s'.Uploading S
  := by
  have hsound := h.sound.step hstep
  rcases step_eq_some hstep with ⟨i, event, stores, submission, issued, rfl, hsub, hissue, rfl⟩
    | ⟨i, event, stores, delivery, rfl, hdel, rfl⟩ | ⟨i, event, stores, deletion, rfl, -, -⟩
  · have hissued := subset_of_issue hissue
    obtain ⟨heffects, hprepared⟩ := Submission.effects_of_step h.sound.stores h.sound.coherent
      (fun ids hids => h.sound.linked_submission hids) (h.sound.submissions i) (h.prepared i) hsmooth
      hsteady hsub
    constructor
    · apply hsound
    · intro k
      by_cases hk : k = i
      · subst hk
        simp only [Function.update_self]
        apply hprepared.mono hissued
      · simp only [Function.update_of_ne hk]
        apply (h.prepared k).mono hissued
    · apply (h.effects heffects).mono hissued
    · intro id hid
      have hposted : ∃ t ∈ s.issued, t.jobId = id ∧ s.stores.db.Lists (t.signature S) := by
        rcases Submission.mem_queue_of_step hsub hid with hold | ⟨document, job, hi, rfl⟩
        · apply h.posted id hold
        · have hfollows := h.sound.submissions i
          rw [hi] at hfollows
          obtain ⟨t, ht, hnames, -, hjobId, -⟩ := hfollows
          obtain ⟨u, hu, huid, hlisted⟩ := h.registered.placed i document.id (by rw [hi]; rfl)
          have heq : t = u := by
            apply h.sound.distinct.documents t ht u hu
            rw [← hnames.id_eq, huid]
          use t, ht, hjobId.symm
          rw [heq]
          apply hlisted
      obtain ⟨t, ht, hjobId, hlisted⟩ := hposted
      exact ⟨t, hissued ht, hjobId, heffects.lists hlisted⟩
  · have hsteps := h.sound.delivery_steps hdel
    have hlists := h.sound.lists_delivery hdel
    have hfiles : ∀ f, f ∈ stores.fs.files ↔ f ∈ s.stores.fs.files := by
      intro f
      rw [hsteps.fs_eq]
    constructor
    · apply hsound
    · apply h.prepared
    · apply h.registered.quiet hfiles hlists
    · intro id hid
      simp only [hsteps.queue_eq] at hid
      obtain ⟨t, ht, hjobId, hlisted⟩ := h.posted id hid
      use t, ht, hjobId
      apply (hlists _).mpr hlisted
  · cases hsmooth

/-- A run of uploads. -/
theorem Uploading.run {es : List Event} (h : s.Uploading S)
    (hes : ∀ e ∈ es, e.Smooth ∧ e.Steady) (hrun : (machine S).run s es = some s') :
  s'.Uploading S
  := by
  apply (machine S).run_induction (C := fun _ e => e.Smooth ∧ e.Steady) _ h _ hrun
  · rintro s e s' hs ⟨hsmooth, hsteady⟩ hstep
    apply hs.step hsmooth hsteady hstep
  · apply Machine.meets_of_forall
    intro _ e he
    apply hes e he

end System

end KnowledgeSearch

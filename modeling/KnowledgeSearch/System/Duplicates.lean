import KnowledgeSearch.System.Uploading

/-!
# Duplicate uploads

What `System.Uploading` gives for uploads of the same content. `System.uploads_distinct` draws the
consequences: no two rows have the same content, files and rows correspond when no call is under
way, and a call that finds its content taken raises an error that names the row which has it.
-/

namespace KnowledgeSearch

open Database

namespace System

variable {S : Services} {s s' : System}

/-! ### Distinct contents -/

namespace Uploading

/-- The ticket of a row, whose content is in the file of the row. -/
theorem exists_ticket (h : s.Uploading S) {document : Document}
    (hdocument : document ∈ s.stores.db.documents) :
  ∃ t ∈ s.issued, t.Names document ∧ document.signature = t.signature S
    ∧ ⟨t.path, t.content⟩ ∈ s.stores.fs.files
  := by
  obtain ⟨t, ht, hsignature, hfile⟩ := h.registered.digests _ ⟨document, hdocument, rfl⟩
  obtain ⟨u, hu, hnames⟩ := h.sound.ticket hdocument
  have heq : u = t := by
    apply h.sound.distinct.documents u hu t ht
    rw [← hnames.id_eq]
    apply congrArg Prod.fst hsignature
  subst heq
  exact ⟨u, hu, hnames, hsignature, hfile⟩

/-- What is read from the file of a ticket is its content. -/
theorem read_eq {document : Document} {t : Ticket} (hnames : t.Names document)
    (hfile : ⟨t.path, t.content⟩ ∈ s.stores.fs.files) :
  s.stores.fs.read S.root document.storageKey = .ok t.content
  := by
  rw [hnames.storageKey_eq]
  apply FileSystem.read_eq_ok_iff.mpr
  use ⟨t.path, t.content⟩, Table.get_key hfile

/-- Rows with the same signature are the same row. -/
theorem eq_of_signature_eq {document document' : Document}
    (hdocument : document ∈ s.stores.db.documents) (hdocument' : document' ∈ s.stores.db.documents)
    (h : document.signature = document'.signature) :
  document = document'
  := Table.eq_of_key_eq hdocument hdocument' (congrArg Prod.fst h)

/-- Rows with the same digest are the same row. -/
theorem eq_of_sha256_eq (h : s.Uploading S) {document document' : Document}
    (hdocument : document ∈ s.stores.db.documents) (hdocument' : document' ∈ s.stores.db.documents)
    (hsha : document.sha256 = document'.sha256) :
  document = document'
  := by
  apply eq_of_signature_eq hdocument hdocument'
  apply h.registered.unique _ _ ⟨document, hdocument, rfl⟩ ⟨document', hdocument', rfl⟩ hsha

/-- No two rows have the same content. -/
theorem eq_of_read_eq (h : s.Uploading S) {document document' : Document} {content : Bytes}
    (hdocument : document ∈ s.stores.db.documents) (hdocument' : document' ∈ s.stores.db.documents)
    (hread : s.stores.fs.read S.root document.storageKey = .ok content)
    (hread' : s.stores.fs.read S.root document'.storageKey = .ok content) :
  document = document'
  := by
  have hsha : ∀ row ∈ s.stores.db.documents,
      s.stores.fs.read S.root row.storageKey = .ok content → row.sha256 = S.sha256 content := by
    intro row hrow hok
    obtain ⟨t, -, hnames, hsignature, hfile⟩ := h.exists_ticket hrow
    rw [read_eq hnames hfile, Except.ok.injEq] at hok
    rw [← hok]
    apply congrArg (fun x => x.2.2) hsignature
  apply h.eq_of_sha256_eq hdocument hdocument'
  rw [hsha document hdocument hread, hsha document' hdocument' hread']

/-- The file of a ticket belongs to the row of the ticket. -/
theorem belongsTo {document : Document} {t : Ticket} (hnames : t.Names document) :
  (⟨t.path, t.content⟩ : StoredFile).BelongsTo S document
  := by
  rw [StoredFile.BelongsTo, hnames.storageKey_eq]
  apply resolveKey_storageKey

/-- A file that belongs to the row of a ticket has the path of the ticket. -/
theorem path_eq_of_belongsTo {document : Document} {t : Ticket} {f : StoredFile}
    (hnames : t.Names document) (h : f.BelongsTo S document) :
  f.path = t.path
  := by
  rw [StoredFile.BelongsTo, hnames.storageKey_eq, resolveKey_storageKey] at h
  apply (Except.ok.inj h).symm

/-- When no call is under way, every file belongs to exactly one row. -/
theorem existsUnique_document (h : s.Uploading S) (hended : ∀ i, (s.submissions i).ids = none)
    {f : StoredFile} (hf : f ∈ s.stores.fs.files) :
  ∃! document, document ∈ s.stores.db.documents ∧ f.BelongsTo S document
  := by
  obtain ⟨t, ht, hpath, document, hdocument, hsignature⟩ : ∃ t ∈ s.issued, f.path = t.path
      ∧ s.stores.db.Lists (t.signature S) := by
    rcases h.registered.owned f hf with howned | ⟨i, hi⟩
    · apply howned
    · rw [Submission.held_of_ended (hended i)] at hi
      cases hi
  have hfile : (⟨t.path, t.content⟩ : StoredFile).path = f.path := hpath.symm
  obtain ⟨u, hu, hnames⟩ := h.sound.ticket hdocument
  obtain rfl : u = t := by
    apply h.sound.distinct.documents u hu t ht
    rw [← hnames.id_eq]
    apply congrArg Prod.fst hsignature
  use document
  constructor
  · use hdocument
    rw [StoredFile.BelongsTo, ← hfile]
    apply belongsTo hnames
  · rintro row ⟨hrow, hbelongs⟩
    obtain ⟨v, hv, hnames'⟩ := h.sound.ticket hrow
    have heq : v = u := by
      apply Stores.Registered.ticket_eq h.sound.distinct hv hu
      rw [← path_eq_of_belongsTo hnames' hbelongs, hpath]
    apply Table.eq_of_key_eq hrow hdocument
    rw [heq] at hnames'
    apply hnames'.id_eq.trans hnames.id_eq.symm

/-- Exactly one file belongs to a row. -/
theorem existsUnique_file (h : s.Uploading S) {document : Document}
    (hdocument : document ∈ s.stores.db.documents) :
  ∃! f, f ∈ s.stores.fs.files ∧ f.BelongsTo S document
  := by
  obtain ⟨t, -, hnames, -, hfile⟩ := h.exists_ticket hdocument
  use ⟨t.path, t.content⟩
  constructor
  · use hfile, belongsTo hnames
  · rintro f ⟨hf, hbelongs⟩
    apply Table.eq_of_key_eq hf hfile
    apply path_eq_of_belongsTo hnames hbelongs

end Uploading

end System

/-! ### Calls that lose -/

/-- The insertion meets no fault but a violated constraint. -/
def SubmissionEvent.Contends : SubmissionEvent → Prop
  | insert fault => fault = none ∨ fault = some .integrity
  | _ => False

/-- A call that has found its content taken, by the row with the identifier. -/
def Submission.Losing (document : Document) (existing : Uuid) : Submission → Prop
  | conflicted d _ | lookingUp d _ => d = document
  | compensating d _ error => d = document ∧ error = .duplicateDocument existing
  | raised error => error = .duplicateDocument existing
  | _ => False

namespace Submission

variable {S : Services} {s s' : Stores} {document existing : Document}
  {submission submission' : Submission} {event : SubmissionEvent}

/-- The look-up of a digest that one row has. -/
theorem getDocumentByHash_eq {db : Database} {sha256 : Text}
    (hmem : existing ∈ db.documents) (hsha : existing.sha256 = sha256) :
  ∃ row ∈ db.documents, row.sha256 = sha256 ∧ db.getDocumentByHash sha256 = some row
  := by
  have hsome : (db.getDocumentByHash sha256).isSome = true := by
    apply List.find?_isSome.mpr
    use existing, hmem
    simp [hsha]
  obtain ⟨row, hrow⟩ := Option.isSome_iff_exists.mp hsome
  use row, List.mem_of_find?_eq_some hrow
  have hrowSha := List.find?_some hrow
  simp only [decide_eq_true_eq] at hrowSha
  use hrowSha, hrow

/-- A call whose content is taken when it inserts its row loses. -/
theorem losing_of_insert {job : IngestionJob} {fault : Option AppError}
    (hunique : ∀ row ∈ s.db.documents, row.sha256 = document.sha256 → row.id = existing.id)
    (hexisting : existing ∈ s.db.documents) (hsha : existing.sha256 = document.sha256)
    (hcontends : SubmissionEvent.Contends (.insert fault))
    (hstep : (built document job).step S s (.insert fault) = some (s', submission')) :
  submission'.Losing document existing.id
  := by
  rcases hcontends with rfl | rfl
  · obtain ⟨row, hrow, hrowSha, hlookup⟩ := getDocumentByHash_eq hexisting hsha
    have hinsert : insertSubmission document job s.db = .error (.duplicateDocument existing.id) := by
      rw [insertSubmission, hlookup, ← hunique row hrow hrowSha]
    simp only [step, transaction_none, hinsert] at hstep
    cases hstep
    exact ⟨rfl, rfl⟩
  · simp only [step, transaction] at hstep
    cases hstep
    rfl

/-- A call that loses goes on to lose. -/
theorem Losing.step (h : submission.Losing document existing.id)
    (hunique : ∀ row ∈ s.db.documents, row.sha256 = document.sha256 → row.id = existing.id)
    (hexisting : ∃ row ∈ s.db.documents, row.sha256 = document.sha256)
    (hdelete : submission.held = some document.path →
      ∃ fs, s.fs.delete S.root document.storageKey = .ok fs)
    (hsmooth : event.Smooth) (hcall : ¬ event.IsBegin)
    (hstep : submission.step S s event = some (s', submission')) :
  submission'.Losing document existing.id
  := by
  cases submission with
  | conflicted d job =>
      obtain rfl : d = document := h
      obtain ⟨fs, hfs⟩ := hdelete rfl
      cases event with
      | removeFile fault =>
          obtain rfl : fault = none := hsmooth
          simp only [Submission.step, transaction_none, hfs] at hstep
          cases hstep
          rfl
      | begin => exact absurd trivial hcall
      | crash => cases hsmooth
      | _ => cases hstep
  | lookingUp d job =>
      obtain rfl : d = document := h
      obtain ⟨existing', hexisting, hsha⟩ := hexisting
      obtain ⟨row, hrow, hrowSha, hlookup⟩ := getDocumentByHash_eq hexisting hsha
      cases event with
      | lookUp fault =>
          obtain rfl : fault = none := hsmooth
          simp only [Submission.step, transaction_none, hlookup] at hstep
          cases hstep
          rw [Losing, hunique row hrow hrowSha]
      | begin => exact absurd trivial hcall
      | crash => cases hsmooth
      | _ => cases hstep
  | compensating d job error =>
      obtain ⟨rfl, rfl⟩ := h
      obtain ⟨fs, hfs⟩ := hdelete rfl
      cases event with
      | removeFile fault =>
          obtain rfl : fault = none := hsmooth
          simp only [Submission.step, transaction_none, hfs] at hstep
          cases hstep
          rfl
      | begin => exact absurd trivial hcall
      | crash => cases hsmooth
      | _ => cases hstep
  | raised error => exact absurd hstep (step_of_ended rfl hcall)
  | _ => cases h

end Submission

namespace System

variable {S : Services} {s s' : System} {i : ℕ} {t : Ticket} {document existing : Document}

/-- The content of the call `i` is in another row. -/
structure Losing (S : Services) (i : ℕ) (document existing : Document) (s : System) : Prop where
  uploading : s.Uploading S
  prepared : ∃ t ∈ s.issued, t.Names document ∧ document.signature = t.signature S
  losing : (s.submissions i).Losing document existing.id
  listed : s.stores.db.Lists existing.signature

/-- The rows with a digest that is listed. -/
theorem Uploading.id_eq_of_sha256_eq (h : s.Uploading S)
    (hlisted : s.stores.db.Lists existing.signature) (hsha : existing.sha256 = document.sha256)
    {row : Document} (hrow : row ∈ s.stores.db.documents) (hrowSha : row.sha256 = document.sha256) :
  row.id = existing.id
  := by
  have hsignature : row.signature = existing.signature := by
    apply h.registered.unique _ _ ⟨row, hrow, rfl⟩ hlisted
    apply hrowSha.trans hsha.symm
  apply congrArg Prod.fst hsignature

/-- A step keeps the rows, as far as their signatures go. -/
theorem Uploading.lists_step {e : Event} (h : s.Uploading S) (hsmooth : e.Smooth)
    (hsteady : e.Steady) (hstep : System.step S s e = some s')
    {x : Uuid × DocumentMediaType × Text} (hx : s.stores.db.Lists x) :
  s'.stores.db.Lists x
  := by
  rcases step_eq_some hstep with ⟨i, event, stores, submission, issued, rfl, hsub, -, rfl⟩
    | ⟨i, event, stores, delivery, rfl, hdel, rfl⟩ | ⟨i, event, stores, deletion, rfl, -, -⟩
  · obtain ⟨heffects, -⟩ := Submission.effects_of_step h.sound.stores h.sound.coherent
      (fun ids hids => h.sound.linked_submission hids) (h.sound.submissions i) (h.prepared i) hsmooth
      hsteady hsub
    apply heffects.lists hx
  · apply (h.sound.lists_delivery hdel x).mpr hx
  · cases hsmooth

/-- Every step preserves that the content of a call is in another row. -/
theorem Losing.step {e : Event} (h : s.Losing S i document existing)
    (hsha : existing.sha256 = document.sha256) (hsmooth : e.Smooth) (hsteady : e.Steady)
    (hcall : ∀ event, e = .submission i event → ¬ event.IsBegin)
    (hstep : System.step S s e = some s') :
  s'.Losing S i document existing
  := by
  obtain ⟨t, ht, hprepared⟩ := h.prepared
  have hissued : s.issued ⊆ s'.issued := issued_subset_of_step hstep
  constructor
  · apply h.uploading.step hsmooth hsteady hstep
  · use t, hissued ht
  · rcases step_eq_some hstep with ⟨k, event, stores, submission, issued, rfl, hsub, -, rfl⟩
      | ⟨k, event, stores, delivery, rfl, -, rfl⟩ | ⟨k, event, stores, deletion, rfl, -, -⟩
    · by_cases hk : k = i
      · subst hk
        simp only [Function.update_self]
        apply h.losing.step _ _ _ hsmooth (hcall event rfl) hsub
        · intro row hrow hrowSha
          apply h.uploading.id_eq_of_sha256_eq h.listed hsha hrow hrowSha
        · obtain ⟨row, hrow, hsignature⟩ := h.listed
          use row, hrow
          rw [← hsha]
          apply congrArg (fun x => x.2.2) hsignature
        · intro _
          apply Submission.exists_delete h.uploading.sound.stores ⟨t, ht, hprepared⟩
      · simp only [Function.update_of_ne (Ne.symm hk)]
        apply h.losing
    · apply h.losing
    · cases hsmooth
  · apply h.uploading.lists_step hsmooth hsteady hstep h.listed

/-- A run in which the call is not begun again. -/
theorem Losing.run {es : List Event} (h : s.Losing S i document existing)
    (hsha : existing.sha256 = document.sha256) (hes : ∀ e ∈ es, e.Smooth ∧ e.Steady)
    (hcall : ∀ event, .submission i event ∈ es → ¬ event.IsBegin)
    (hrun : (machine S).run s es = some s') :
  s'.Losing S i document existing
  := by
  apply (machine S).run_induction
    (C := fun _ e => (e.Smooth ∧ e.Steady) ∧ ∀ event, e = .submission i event → ¬ event.IsBegin) _ h
    _ hrun
  · rintro s e s' hs ⟨⟨hsmooth, hsteady⟩, hcall⟩ hstep
    apply hs.step hsha hsmooth hsteady hcall hstep
  · apply Machine.meets_of_forall
    intro _ e he
    use hes e he
    rintro event rfl
    apply hcall event he

/-- A call that finds its content taken when it inserts its row loses. -/
theorem Losing.of_insert {event : SubmissionEvent} {job : IngestionJob} (h : s.Uploading S)
    (hcall : s.submissions i = .built document job) (hcontends : event.Contends)
    (hexisting : existing ∈ s.stores.db.documents) (hsha : existing.sha256 = document.sha256)
    (hstep : System.step S s (.submission i event) = some s') :
  s'.Losing S i document existing
  := by
  have hprepared := h.prepared i
  rw [hcall] at hprepared
  obtain ⟨t, ht, hprepared⟩ := hprepared
  obtain ⟨hsub, hissue⟩ := step_submission hstep
  rw [hcall] at hsub
  have hsmooth : event.Smooth ∧ event.Steady := by
    cases event with
    | insert => exact ⟨trivial, trivial⟩
    | _ => cases hcontends
  have hlisted : s.stores.db.Lists existing.signature := ⟨existing, hexisting, rfl⟩
  constructor
  · apply h.step (e := .submission i event) hsmooth.1 hsmooth.2 hstep
  · use t, subset_of_issue hissue ht
  · cases event with
    | insert fault =>
        apply Submission.losing_of_insert _ hexisting hsha hcontends hsub
        intro row hrow hrowSha
        apply h.id_eq_of_sha256_eq hlisted hsha hrow hrowSha
    | _ => cases hcontends
  · apply h.lists_step (e := .submission i event) hsmooth.1 hsmooth.2 hstep hlisted

/-- What a call that has lost leaves. -/
structure Lost (S : Services) (i : ℕ) (document : Document) (job : IngestionJob)
    (existing : Document) (content : Bytes) (s : System) : Prop where
  raised : s.submissions i = .raised (.duplicateDocument existing.id)
  holds : ∃ row ∈ s.stores.db.documents, row.id = existing.id
    ∧ s.stores.fs.read S.root row.storageKey = .ok content
  unqueued : job.id ∉ s.stores.queue
  unlisted : ∀ row ∈ s.stores.db.documents, row.id ≠ document.id

/-- A call whose content is in another row has lost once it has ended, when the contents of the
uploads have distinct digests. -/
theorem Losing.lost {job : IngestionJob} (h : s.Losing S i document existing)
    (hended : (s.submissions i).ids = none) (ht : t ∈ s.issued) (hnames : t.Names document)
    (hjob : job.id = t.jobId) (hsha : existing.sha256 = document.sha256)
    (hne : existing.id ≠ document.id)
    (hinj : Set.InjOn S.sha256 {content | ∃ t ∈ s.issued, t.content = content}) :
  s.Lost S i document job existing t.content
  := by
  have hdistinct := h.uploading.sound.distinct
  have hsignature : document.signature = t.signature S := by
    obtain ⟨u, hu, hunames, hsignature⟩ := h.prepared
    have heq : u = t := by
      apply hdistinct.documents u hu t ht
      rw [← hunames.id_eq, hnames.id_eq]
    rw [← heq, hsignature]
  have htsha : S.sha256 t.content = document.sha256 :=
    (congrArg (fun x => x.2.2) hsignature).symm
  have hunlisted : ¬ s.stores.db.Lists (t.signature S) := by
    intro hlisted
    apply hne
    have heq : existing.signature = t.signature S := by
      apply h.uploading.registered.unique _ _ h.listed hlisted
      apply hsha.trans htsha.symm
    rw [← hsignature] at heq
    apply congrArg Prod.fst heq
  constructor
  · have hlosing := h.losing
    generalize s.submissions i = submission at hlosing hended
    cases submission with
    | raised error => rw [hlosing]
    | conflicted | lookingUp | compensating => cases hended
    | _ => cases hlosing
  · obtain ⟨row, hrow, hrowSignature⟩ := h.listed
    obtain ⟨u, hu, hunames, husignature, hfile⟩ := h.uploading.exists_ticket hrow
    use row, hrow, congrArg Prod.fst hrowSignature
    rw [Uploading.read_eq hunames hfile]
    apply congrArg Except.ok
    apply hinj ⟨u, hu, rfl⟩ ⟨t, ht, rfl⟩
    rw [htsha, ← hsha]
    exact congrArg (fun x => x.2.2) (husignature.symm.trans hrowSignature)
  · intro hmem
    obtain ⟨u, hu, hid, hlisted⟩ := h.uploading.posted _ hmem
    have heq : u = t := hdistinct.jobs u hu t ht (hid.trans hjob)
    rw [heq] at hlisted
    apply hunlisted hlisted
  · intro row hrow hid
    obtain ⟨u, hu, hunames, husignature, -⟩ := h.uploading.exists_ticket hrow
    have heq : u = t := by
      apply hdistinct.documents u hu t ht
      rw [← hunames.id_eq, hid, hnames.id_eq]
    rw [heq] at husignature
    apply hunlisted ⟨row, hrow, husignature⟩

/-- In every run of uploads in which no clock goes back between the creation of a document and its
transition to the queue, the contents of the rows are distinct; files and rows correspond when no
call is under way; and a call whose content is in a row when it inserts its own raises an error that
names the row which has the content, and sends no message. -/
theorem uploads_distinct {es : List Event} (hes : ∀ e ∈ es, e.Smooth ∧ e.Steady)
    (hrun : (machine S).run initial es = some s) :
  (∀ document ∈ s.stores.db.documents, ∃ content,
      s.stores.fs.read S.root document.storageKey = .ok content
      ∧ ∀ document' ∈ s.stores.db.documents,
        s.stores.fs.read S.root document'.storageKey = .ok content → document' = document)
  ∧ ((∀ i, (s.submissions i).ids = none) →
      (∀ f ∈ s.stores.fs.files, ∃! document,
        document ∈ s.stores.db.documents ∧ f.BelongsTo S document)
      ∧ ∀ document ∈ s.stores.db.documents, ∃! f,
        f ∈ s.stores.fs.files ∧ f.BelongsTo S document)
  ∧ ∀ i document job existing event fs s',
      s.submissions i = .built document job → event.Contends →
      existing ∈ s.stores.db.documents → existing.sha256 = document.sha256 →
      (∀ e ∈ fs, e.Smooth ∧ e.Steady) → (∀ event, .submission i event ∈ fs → ¬ event.IsBegin) →
      (machine S).run s (.submission i event :: fs) = some s' →
      Set.InjOn S.sha256 {content | ∃ t ∈ s'.issued, t.content = content} →
      (s'.submissions i).ids = none →
      ∃ content, s.stores.fs.read S.root document.storageKey = .ok content
        ∧ s'.Lost S i document job existing content
  := by
  have h : s.Uploading S := Uploading.initial.run hes hrun
  refine ⟨?_, ?_, ?_⟩
  · intro document hdocument
    obtain ⟨t, -, hnames, -, hfile⟩ := h.exists_ticket hdocument
    have hread := Uploading.read_eq (S := S) hnames hfile
    use t.content, hread
    intro document' hdocument' hread'
    apply h.eq_of_read_eq hdocument' hdocument hread' hread
  · intro hended
    constructor
    · intro f hf
      apply h.existsUnique_document hended hf
    · intro document hdocument
      apply h.existsUnique_file hdocument
  · intro i document job existing event fs s' hcall hcontends hexisting hsha hfs hagain hrun' hinj
      hended
    obtain ⟨s₁, hstep, hrest⟩ := (machine S).run_cons_iff.mp hrun'
    have hlosing := (Losing.of_insert h hcall hcontends hexisting hsha hstep).run hsha hfs hagain hrest
    have hfollows := h.sound.submissions i
    rw [hcall] at hfollows
    obtain ⟨t, ht, hnames, -, hjob, -⟩ := hfollows
    have hheld : (s.submissions i).held = some t.path := by
      rw [hcall, ← hnames.path_eq]
      rfl
    obtain ⟨u, hu, hpath, hfile, hunlisted⟩ := h.registered.held i t.path hheld
    obtain rfl : u = t := Stores.Registered.ticket_eq h.sound.distinct hu ht hpath
    use u.content, Uploading.read_eq hnames hfile
    apply hlosing.lost hended (issued_subset_of_run hrun' hu) hnames hjob hsha _ hinj
    -- the row of the document itself is still to be inserted
    intro hid
    apply hunlisted
    obtain ⟨v, hv, hvnames, hvsignature, -⟩ := h.exists_ticket hexisting
    have heq : v = u := by
      apply h.sound.distinct.documents v hv u hu
      rw [← hvnames.id_eq, hid, hnames.id_eq]
    rw [heq] at hvsignature
    exact ⟨existing, hexisting, hvsignature⟩

/-- The content of the sample document is uploaded again, up to the insertion of the row. -/
def sampleRival : List Event :=
  sampleUpload ++ [.submission 1 (.begin "beta.txt".toList (some "text/plain".toList)
      [Services.sampleContent] 0x3333333333334333a333333333333333
      0x4444444444444444a444444444444444),
    .submission 1 (.save none), .submission 1 (.build (clockFrom 5))]

/-- The document whose row a call is about to insert. -/
def sampleBuilt : Submission → Option (Document × IngestionJob)
  | .built document job => some (document, job)
  | _ => none

theorem sampleBuilt_eq_some {submission : Submission} {rows : Document × IngestionJob}
    (h : sampleBuilt submission = some rows) :
  submission = .built rows.1 rows.2
  := by
  cases submission with
  | built document job => rw [← Option.some.inj h]
  | _ => cases h

/-- The second upload of the sample document loses to the first. -/
theorem uploads_distinct_sample :
  ∃ document job existing content,
    existing.id = Services.sampleDocumentId
    ∧ (sampleAfter (sampleRival ++ [.submission 1 (.insert none), .submission 1 (.removeFile none)])).Lost
      .sample 1 document job existing content
  := by
  have hrun : (machine .sample).run initial sampleRival = some (sampleAfter sampleRival) :=
    run_sampleAfter [] _ (by decide +kernel)
  have hes : ∀ e ∈ sampleRival, e.Smooth ∧ e.Steady := by
    simp [sampleRival, sampleUpload, Event.Smooth, Event.Steady, SubmissionEvent.Smooth,
      SubmissionEvent.Steady, clockFrom]
  have hbuilt : ((sampleBuilt ((sampleAfter sampleRival).submissions 1)).any fun rows =>
      (sampleAfter sampleRival).stores.db.documents.rows.any fun existing =>
        decide (existing.id = Services.sampleDocumentId ∧ existing.sha256 = rows.1.sha256)) = true := by
    decide +kernel
  obtain ⟨⟨document, job⟩, hrows, hany⟩ := (Option.any_eq_true _ _).mp hbuilt
  obtain ⟨existing, hexisting, heq⟩ := List.any_eq_true.mp hany
  obtain ⟨hid, hsha⟩ := of_decide_eq_true heq
  have hissued : ((sampleAfter (sampleRival ++ [.submission 1 (.insert none),
      .submission 1 (.removeFile none)])).issued.all
      fun t => t.content = Services.sampleContent) = true := by
    decide +kernel
  obtain ⟨-, -, hlost⟩ := uploads_distinct hes hrun
  obtain ⟨content, -, hcontent⟩ := hlost 1 document job existing (.insert none)
    [.submission 1 (.removeFile none)] _ (sampleBuilt_eq_some hrows) (Or.inl rfl) hexisting hsha
    (by simp [Event.Smooth, Event.Steady, SubmissionEvent.Smooth, SubmissionEvent.Steady])
    (by simp [SubmissionEvent.IsBegin]) (run_sampleAfter _ _ (by decide +kernel))
    (by
      rintro _ ⟨t, ht, rfl⟩ _ ⟨u, hu, rfl⟩ -
      rw [of_decide_eq_true (List.all_eq_true.mp hissued t ht),
        of_decide_eq_true (List.all_eq_true.mp hissued u hu)])
    (by decide +kernel)
  use document, job, existing, content

/-- A clock that goes back leaves a file that belongs to no row. -/
theorem not_uploads_distinct_sampleClockBack :
  ¬ ∀ S es s, (∀ e ∈ es, e.Smooth) → (machine S).run initial es = some s →
    (∀ i, (s.submissions i).ids = none) →
    ∀ f ∈ s.stores.fs.files, ∃! document,
      document ∈ s.stores.db.documents ∧ f.BelongsTo S document
  := by
  intro hall
  have hrun : (machine .sample).run initial sampleClockBack = some (sampleAfter sampleClockBack) :=
    run_sampleAfter [] _ (by decide +kernel)
  have hquiescent : (sampleAfter sampleClockBack).Quiescent :=
    quiescent_sampleAfter (by decide +kernel) (by simp [sampleClockBack, Event.call])
      (by decide +kernel)
  have hrows : (sampleAfter sampleClockBack).stores.db.documents.rows = [] := by
    decide +kernel
  have hfiles : (sampleAfter sampleClockBack).stores.fs.files.rows ≠ [] := by
    decide +kernel
  obtain ⟨f, hf⟩ := List.exists_mem_of_ne_nil _ hfiles
  obtain ⟨document, ⟨hdocument, -⟩, -⟩ := hall .sample sampleClockBack _
    (by simp [sampleClockBack, Event.Smooth, SubmissionEvent.Smooth]) hrun hquiescent.1 f hf
  have hmem : document ∈ (sampleAfter sampleClockBack).stores.db.documents.rows := hdocument
  rw [hrows] at hmem
  cases hmem

end System

end KnowledgeSearch

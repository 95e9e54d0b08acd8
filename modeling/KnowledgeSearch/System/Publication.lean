import KnowledgeSearch.System.Admission
import KnowledgeSearch.System.Filtering
import KnowledgeSearch.System.Recovery
import KnowledgeSearch.System.Results

/-!
# Publication

A call of `process` in which nothing fails makes a queued document ready, when its passages can be prepared
and stored: this is `System.Between.processes`. `SearchSystem.upload_found` follows an upload from any
reachable state to the search that finds it, by timed steps.
-/

namespace KnowledgeSearch

open Database

/-! ### The rows that are finalised -/

/-- The chunks of a processing document are inserted, and it is made ready. -/
theorem Database.At.finalise_isOk {db : Database} {d : Uuid} {document : Document} {job : IngestionJob}
    {clock : Clock} {chunks : List Chunk} (h : db.At d .processing document job) (hdocument : document.updatedAt ≤ clock 0)
    (hjob : job.updatedAt ≤ clock 1) (hstarted : ∀ started ∈ job.startedAt, started ≤ clock 1)
    (htexts : ∀ chunk ∈ chunks, rejectsText chunk.text = false
      ∧ ∀ part ∈ chunk.locator.sectionPath, rejectsText part = false)
    (hchunks : ∀ chunk ∈ chunks, chunk.documentId = d)
    (hids : ((db.chunks.rows ++ chunks).map fun chunk => chunk.id).Nodup)
    (hplaces : ((db.chunks.rows ++ chunks).map fun chunk => (chunk.documentId, chunk.ordinal)).Nodup) :
  ∃ db', finalise clock d job.id chunks db = .ok db'
  := by
  have hds : document.status = .processing := h.document_status
  have hjs : job.status = .running := h.job_status
  obtain ⟨document', hready⟩ : ∃ document', document.markReady (clock 0) = .ok document' := by
    apply Document.transition_isOk _ hdocument rfl
    simp [hds, documentTransitions]
  obtain ⟨job', hsucceed⟩ : ∃ job', job.succeed (clock 1) = .ok job' := by
    obtain ⟨-, -, hcreated⟩ := job.times
    apply IngestionJob.transition_isOk
    · simp [hjs, jobTransitions]
    · apply hjob
    · simp
    · apply hcreated
    · simp
    · cases hat : job.startedAt with
      | none => rfl
      | some started =>
          simp only [precedes, decide_eq_false_iff_not, not_lt]
          apply hstarted started hat
    · simp
    · simp
    · rfl
  obtain ⟨-, -, hrevises⟩ := Document.transition_spec hready
  obtain ⟨-, -, hjobRevises, -⟩ := IngestionJob.transition_spec hsucceed
  have hrows : finaliseRows clock job document = .ok (document', job') := by
    simp [finaliseRows, hready, hsucceed, liftDomain, bind, Except.bind]
  -- a processing document has no chunks, so nothing is deleted
  have hkept : db.deleteChunksForDocument d = db := by
    have hrows : (db.chunks.discard fun chunk => chunk.documentId = d) = db.chunks := by
      apply Table.ext_rows
      apply List.filter_eq_self.mpr
      intro chunk hchunk
      have hne : chunk.documentId ≠ d := by
        intro hcd
        have hindexed := h.chunks.mp ⟨chunk, hchunk, hcd⟩
        cases hindexed
      simp [hne]
    rw [deleteChunksForDocument, hrows]
  obtain ⟨rows, hinsert⟩ : ∃ rows, db.chunks.insertAll? chunks = some rows := by
    rw [List.map_append, List.nodup_append] at hids
    obtain ⟨-, hnodup, hapart⟩ := hids
    apply Table.insertAll?_isSome _ hnodup
    intro chunk hchunk
    apply Table.get_eq_none_iff.mpr
    intro row hrow
    apply hapart _ (List.mem_map_of_mem hrow) _ (List.mem_map_of_mem hchunk)
  have hadd : db.addChunks chunks = .ok { db with chunks := rows } := by
    have htext : (chunks.any fun chunk =>
        rejectsText chunk.text || chunk.locator.sectionPath.any rejectsText) = false := by
      apply List.any_eq_false.mpr
      intro chunk hchunk
      obtain ⟨htext, hpath⟩ := htexts chunk hchunk
      simpa [htext] using hpath
    have howned : (chunks.any fun chunk => (db.documents.get chunk.documentId).isNone) = false := by
      apply List.any_eq_false.mpr
      intro chunk hchunk
      rw [hchunks chunk hchunk, h.get_document]
      simp
    rw [addChunks, if_neg (by simp [htext]), if_neg (by simp [howned]), if_pos hplaces, hinsert]
  have hsave : ({ db with chunks := rows } : Database).saveDocument document'
      = .ok { db with chunks := rows, documents := db.documents.replace document' } := by
    apply saveDocument_eq_ok_iff.mpr
    rw [hrevises.id_eq]
    use ⟨document, Table.get_key h.document_mem⟩
  have hsaveJob :
      ({ db with chunks := rows, documents := db.documents.replace document' } : Database).saveJob job'
        = .ok { db with
            chunks := rows, documents := db.documents.replace document', jobs := db.jobs.replace job' } := by
    apply saveJob_eq_ok_iff.mpr
    rw [hjobRevises.1]
    use ⟨job, Table.get_key h.job_mem⟩
  have hget : db.getDocument d = some document := h.get_document
  have hgetJob : db.getJob job.id = some job := h.get_job
  simp only [finalise, hget, hgetJob, bind_of_eq_ok hrows, hkept, bind_of_eq_ok hadd,
    bind_of_eq_ok hsave, bind_of_eq_ok hsaveJob]
  exact ⟨_, rfl⟩

/-! ### The chunks of a ticket -/

namespace Services

variable {S : Services} {tickets : List Ticket} {t : Ticket} {chunks : List Chunk}

theorem nodup_ordinal_chunksOf (h : S.chunksOf t = .ok chunks) :
  (chunks.map fun chunk => chunk.ordinal).Nodup
  := by
  obtain ⟨segments, -, hprepare⟩ := bind_eq_ok_iff.mp h
  obtain ⟨created, hcreated, hprepare⟩ := bind_eq_ok_iff.mp hprepare
  split at hprepare
  · cases hprepare
  · cases hprepare
    apply nodup_ordinal_createChunks hcreated

/-- Chunks of tickets that have different identifiers have different places. -/
theorem nodup_places {rows : List Chunk} (hdistinct : Distinct tickets)
    (hderives : ∀ chunk ∈ rows, ∃ t ∈ tickets, S.Derives t chunk)
    (hids : (rows.map fun chunk => chunk.id).Nodup) :
  (rows.map fun chunk => (chunk.documentId, chunk.ordinal)).Nodup
  := by
  rw [List.Nodup, List.pairwise_map] at hids ⊢
  apply hids.imp_of_mem
  intro chunk chunk' hchunk hchunk' hne heq
  obtain ⟨hdocument, hordinal⟩ := Prod.mk.inj heq
  obtain ⟨t, ht, hderived⟩ := hderives chunk hchunk
  obtain ⟨u, hu, hderived'⟩ := hderives chunk' hchunk'
  obtain rfl : t = u := by
    apply hdistinct.documents t ht u hu
    rw [← hderived.documentId_eq, ← hderived'.documentId_eq, hdocument]
  obtain ⟨chunks, hchunks, hmem⟩ := hderived
  obtain ⟨chunks', hchunks', hmem'⟩ := hderived'
  rw [hchunks] at hchunks'
  obtain rfl := Except.ok.inj hchunks'
  apply hne
  rw [List.inj_on_of_nodup_map (nodup_ordinal_chunksOf hchunks) hmem hmem' hordinal]

/-- The chunks of a ticket and the rows of other documents have different identifiers. -/
theorem nodup_ids (hdistinct : Distinct tickets)
    (hinj : Set.InjOn (S.uuid5 chunkNamespace) (S.chunkKeys tickets)) (ht : t ∈ tickets)
    (hchunks : S.chunksOf t = .ok chunks) {rows : List Chunk}
    (hderives : ∀ row ∈ rows, row.documentId ≠ t.documentId ∧ ∃ u ∈ tickets, S.Derives u row)
    (hrows : (rows.map fun row => row.id).Nodup) :
  ((rows ++ chunks).map fun chunk => chunk.id).Nodup
  := by
  have hderived : ∀ chunk ∈ chunks, S.Derives t chunk := fun chunk hchunk => ⟨chunks, hchunks, hchunk⟩
  rw [List.map_append, List.nodup_append]
  refine ⟨hrows, ?_, ?_⟩
  · have hnodup := nodup_ordinal_chunksOf hchunks
    rw [List.Nodup, List.pairwise_map] at hnodup ⊢
    apply hnodup.imp_of_mem
    intro chunk chunk' hchunk hchunk' hne heq
    apply hne
    have hsame := ((hderived chunk hchunk).isKeyed ht).id_eq_iff hinj ((hderived chunk' hchunk').isKeyed ht)
    apply (hsame.mp heq).2.1
  · rintro id hid id' hid' rfl
    obtain ⟨row, hrow, rfl⟩ := List.mem_map.mp hid
    obtain ⟨chunk, hchunk, heq⟩ := List.mem_map.mp hid'
    obtain ⟨hne, u, hu, hrowDerived⟩ := hderives row hrow
    apply hne
    rw [hrowDerived.documentId_eq,
      hrowDerived.ticket_eq hdistinct hinj (hderived chunk hchunk) hu ht heq.symm]

end Services

/-! ### The run of a call -/

/-- The steps of a call of `process` in which nothing fails. -/
def processSteps (jobId : Uuid) (clock clock' : Clock) : List DeliveryEvent :=
  [.start jobId clock none, .load none, .prepare none, .embed none, .ensure none, .upsert none,
    .finalise clock' none]

/-- The steps of a call of `submit` and of a call of `process` for its job, one after the other. -/
def publishSteps (i k : ℕ) (filename : Text) (contentType : Option Text) (source : List Bytes)
    (documentId jobId : Uuid) (time : ℕ → Clock) : List Event :=
  (submitSteps filename contentType source documentId jobId (time 0)).map (.submission i)
    ++ (processSteps jobId (time 1) (time 2)).map (.delivery k)

namespace System

variable {S : Services} {s s' : System} {k : ℕ} {t : Ticket} {chunks : List Chunk}

/-- A run that begins with a timed step of a delivery. -/
theorem run_delivery {event : DeliveryEvent} {events : List Event} {stores : Stores}
    {before delivery : Delivery} (hbefore : s.deliveries k = before)
    (htimed : s.Timed (.delivery k event))
    (hstep : before.step S s.stores event = some (stores, delivery))
    (hrun : (timed S).run { s with
      stores, deliveries := Function.update s.deliveries k delivery } events = some s') :
  (timed S).run s (.delivery k event :: events) = some s'
  := by
  subst hbefore
  apply (timed S).run_cons_iff.mpr
  refine ⟨_, step_timed_iff.mpr ⟨htimed, ?_⟩, hrun⟩
  simp [step, hstep]

/-- The run of a call of `process` whose parts succeed, and whose transactions stamp the rows with new
times. -/
theorem run_processSteps {clock clock' : Clock} {db db' : Database} {document : Document}
    {index : VectorIndex} (hidle : (s.deliveries k).attempt = none)
    (hstart : startJob clock t.jobId s.stores.db = .ok (some t.documentId, db))
    (hload : db.getDocument t.documentId = some document)
    (hprepare : prepareStored S { s.stores with db } document = .ok chunks)
    (hupsert : s.stores.index.upsert document chunks
      (S.embedDocuments (chunks.map fun chunk => chunk.text)) (fun _ => true) = .ok index)
    (hfinalise : finalise clock' t.documentId t.jobId chunks db = .ok db')
    (htimed : s.Timed (.delivery k (.start t.jobId clock none)))
    (hnew : db.NewDocumentTime t.documentId [.processing] (clock' 0)
      ∧ db.NewJobTime t.documentId [.running] (clock' 1)) :
  (timed S).run s ((processSteps t.jobId clock clock').map (.delivery k)) = some { s with
    stores := { s.stores with db := db', index }
    deliveries := Function.update s.deliveries k .returned }
  := by
  set a : Attempt := ⟨t.jobId, t.documentId⟩
  have hstarted : (s.deliveries k).step S s.stores (.start t.jobId clock none)
      = some ({ s.stores with db }, .started a) := by
    simp [Delivery.step, hidle, hstart, a]
  have hloaded : (Delivery.started a).step S { s.stores with db } (.load none)
      = some ({ s.stores with db }, .loaded a document) := by
    simp [Delivery.step, a, hload]
  have hprepared : (Delivery.loaded a document).step S { s.stores with db } (.prepare none)
      = some ({ s.stores with db }, .prepared a document chunks) := by
    simp [Delivery.step, hprepare]
  have hupserted : (Delivery.ensured a document chunks
      (S.embedDocuments (chunks.map fun chunk => chunk.text))).step S { s.stores with db } (.upsert none)
        = some ({ s.stores with db, index }, .upserted a chunks) := by
    simp [Delivery.step, hupsert]
  have hfinalised : (Delivery.upserted a chunks).step S { s.stores with db, index } (.finalise clock' none)
      = some ({ s.stores with db := db', index }, .returned) := by
    simp [Delivery.step, a, hfinalise]
  -- the steps between the two transactions stamp no rows
  have hunstamped : ∀ (s : System) (event : DeliveryEvent), s.stamping (.delivery k event) = none →
      s.Timed (.delivery k event) := by
    intro s event hnone stamping hstamping
    rw [hnone] at hstamping
    cases hstamping
  refine run_delivery rfl htimed hstarted ?_
  refine run_delivery (Function.update_self ..) (hunstamped _ _ rfl) hloaded ?_
  refine run_delivery (Function.update_self ..) (hunstamped _ _ rfl) hprepared ?_
  refine run_delivery (Function.update_self ..) (hunstamped _ _ rfl) rfl ?_
  refine run_delivery (Function.update_self ..) (hunstamped _ _ rfl) rfl ?_
  refine run_delivery (Function.update_self ..) (hunstamped _ _ rfl) hupserted ?_
  refine run_delivery (Function.update_self ..) ?_ hfinalised ?_
  · intro stamping hstamping
    obtain ⟨b, hb, rfl⟩ := Option.map_eq_some_iff.mp hstamping
    simp only [Function.update_self] at hb
    obtain rfl := Option.some.inj hb
    apply hnew
  · simp only [Function.update_idem]
    rfl

/-- A queued document whose file holds its content is made ready by a call of `process` in which nothing
fails, when its passages can be prepared and stored. -/
theorem Between.processes (h : Between S s t) (hidle : (s.deliveries k).attempt = none)
    {document : Document} {job : IngestionJob} (hat : s.stores.db.At t.documentId .queued document job)
    (hread : s.stores.fs.read S.root (storageKey t.documentId t.mediaType) = .ok t.content)
    (hchunks : S.chunksOf t = .ok chunks)
    (htexts : ∀ chunk ∈ chunks, rejectsText chunk.text = false
      ∧ ∀ part ∈ chunk.locator.sectionPath, rejectsText part = false)
    (hinj : Set.InjOn (S.uuid5 chunkNamespace) (S.chunkKeys s.issued)) {time : ℕ → Clock}
    (htime : Chronological time) (hstored : s.stores.db.StoredBefore t.documentId (time 0 0)) :
  ∃ s', (timed S).run s ((processSteps t.jobId (time 0) (time 1)).map (.delivery k)) = some s'
    ∧ s'.deliveries k = .returned ∧ s'.stores.Completed S t 1 ∧ s'.issued = s.issued
  := by
  have hjobId : job.id = t.jobId := (h.sound.linked h.issued job hat.job_mem).mp hat.job_document
  obtain ⟨hjobTime, -⟩ := hstored.jobs job hat.job_mem hat.job_document
  have hcount : job.attemptCount = 0 := h.sound.coherent.unattempted job hat.job_mem hat.job_status
  obtain ⟨db, hstart⟩ : ∃ db, startJob (time 0) t.jobId s.stores.db = .ok (some t.documentId, db) := by
    rw [← hjobId]
    apply hat.startJob_isOk
    · apply le_trans (hstored.documents document hat.document_mem hat.document_id).le (htime.first_le 0 2)
    · apply le_trans hjobTime.le (htime.first_le 0 3)
  have hstored₁ : db.StoredBefore t.documentId (time 1 0) := by
    apply (hstored.mono (htime.across 0 0 0).le).startJob _ hstart
    intro n
    apply htime.across 0 n 0
  -- the attempt begins
  obtain ⟨s₁, hstep, hdb₁, hissued₁, hstarted⟩ : ∃ s₁,
      System.step S s (.delivery k (.start t.jobId (time 0) none)) = some s₁ ∧ s₁.stores.db = db
        ∧ s₁.issued = s.issued ∧ s₁.deliveries k = .started ⟨t.jobId, t.documentId⟩ := by
    simp [System.step, Delivery.step, hidle, hstart]
  have h₁ := h.step hstep
  obtain ⟨-, halone⟩ := h.start ⟨document, job, hat, hcount⟩ hstep hstarted
  have hrunning : (s₁.deliveries k).running = some ⟨t.jobId, t.documentId⟩ := by
    rw [hstarted]
    rfl
  obtain ⟨-, ⟨document₁, job₁, hat₁, -⟩, -⟩ := halone.stage_of_running hrunning
  subst hdb₁
  have hjobId₁ : job₁.id = t.jobId := (h₁.sound.linked h₁.issued job₁ hat₁.job_mem).mp hat₁.job_document
  have hnames : t.Names document₁ := by
    obtain ⟨u, hu, hnames⟩ := h₁.sound.ticket hat₁.document_mem
    rw [h₁.sound.distinct.documents t h₁.issued u hu (hat₁.document_id.symm.trans hnames.id_eq)]
    apply hnames
  -- its chunks are new
  have hderives : ∀ row ∈ s₁.stores.db.chunks.rows,
      row.documentId ≠ t.documentId ∧ ∃ u ∈ s₁.issued, S.Derives u row := by
    intro row hrow
    constructor
    · intro hid
      have hindexed := hat₁.chunks.mp ⟨row, hrow, hid⟩
      cases hindexed
    · obtain ⟨u, hu, hderived, -⟩ := h₁.derived.chunks row hrow
      use u, hu
  have hids : ((s₁.stores.db.chunks.rows ++ chunks).map fun chunk => chunk.id).Nodup := by
    rw [← hissued₁] at hinj
    apply Services.nodup_ids h₁.sound.distinct hinj h₁.issued hchunks hderives s₁.stores.db.chunks.nodup
  have hplaces : ((s₁.stores.db.chunks.rows ++ chunks).map fun chunk =>
      (chunk.documentId, chunk.ordinal)).Nodup := by
    apply Services.nodup_places (S := S) h₁.sound.distinct _ hids
    intro chunk hchunk
    rcases List.mem_append.mp hchunk with hrow | hnew
    · apply (hderives chunk hrow).2
    · exact ⟨t, h₁.issued, chunks, hchunks, hnew⟩
  -- its parts succeed
  have hprepare : prepareStored S { s.stores with db := s₁.stores.db } document₁ = .ok chunks := by
    rw [prepareStored, hnames.storageKey_eq, bind_of_eq_ok hread, hnames.id_eq, hnames.mediaType_eq]
    apply hchunks
  obtain ⟨index, hupsert⟩ : ∃ index, s.stores.index.upsert document₁ chunks
      (S.embedDocuments (chunks.map fun chunk => chunk.text)) (fun _ => true) = .ok index := by
    rw [VectorIndex.upsert, if_neg (by simp [S.length_embedDocuments])]
    exact ⟨_, rfl⟩
  obtain ⟨hjobTime₁, hstarted₁⟩ := hstored₁.jobs job₁ hat₁.job_mem hat₁.job_document
  obtain ⟨db', hfinalise⟩ : ∃ db', finalise (time 1) t.documentId t.jobId chunks s₁.stores.db = .ok db' := by
    rw [← hjobId₁]
    refine hat₁.finalise_isOk ?_ ?_ ?_ htexts ?_ hids hplaces
    · apply (hstored₁.documents document₁ hat₁.document_mem hat₁.document_id).le
    · apply le_trans hjobTime₁.le (htime.first_le 1 1)
    · intro started hs
      apply le_trans (hstarted₁ started hs).le (htime.first_le 1 1)
    · intro chunk hchunk
      apply Services.Derives.documentId_eq ⟨chunks, hchunks, hchunk⟩
  have htimed := h.timed_start hstored htime (i := k)
  have hrun := run_processSteps hidle hstart hat₁.get_document hprepare hupsert hfinalise htimed
    (hstored₁.new le_rfl _ _ (htime.first_le 1 1))
  refine ⟨_, hrun, Function.update_self .., ?_, rfl⟩
  -- so that the attempt is one on its own
  obtain ⟨s₁', hstep', hrest⟩ := (machine S).run_cons_iff.mp (run_timed_iff.mp hrun).1
  obtain rfl : s₁ = s₁' := Option.some.inj (hstep.symm.trans hstep')
  obtain ⟨-, halone'⟩ := h₁.run_alone halone (by simp [DeliveryEvent.IsStart]) hrest
  simp only [Function.update_self] at halone'
  cases halone' with
  | returned hcompleted _ => apply hcompleted
  | running hrunning => cases hrunning

end System

/-! ### The search for what is published -/

/-- A full-text search with a limit that all the matches keep finds every matching chunk of a ready
document. -/
theorem SearchServices.exists_result {C : SearchServices} {db : Database} {q : SearchQuery}
    (hmode : q.mode = .keyword) (hlimit : 0 < q.limit.toNat)
    (hfits : (C.matching db q).length ≤ q.limit.toNat) {document : Document} {chunk : Chunk}
    (hrow : (⟨chunk, document⟩ : SearchableChunk) ∈ db.searchable)
    (hmatches : C.matchesQuery (normalizeQuery q.query) chunk.text = true)
    (hadmits : q.filters.admits document.id document.mediaType = true) :
  ∃ result ∈ (C.keywordExecution db q).results, result.citation = .ofChunk document chunk
  := by
  have hmatch : (chunk.id, C.tsRank (normalizeQuery q.query) chunk.text)
      ∈ (C.matching db q).take q.limit.toNat := by
    rw [List.take_of_length_le hfits]
    apply (List.mem_insertionSort _).mpr
    apply List.mem_map.mpr
    refine ⟨⟨chunk, document⟩, List.mem_filter.mpr ⟨hrow, ?_⟩, rfl⟩
    simp [hmatches, hadmits]
  rw [← map_results_keywordExecution hmode hlimit] at hmatch
  obtain ⟨result, hresult, heq⟩ := List.mem_map.mp hmatch
  refine ⟨result, hresult, ?_⟩
  rw [keywordExecution, results_hydrate hlimit] at hresult
  obtain ⟨candidate, -, hresultOf⟩ := List.mem_filterMap.mp (List.mem_of_mem_take hresult)
  obtain ⟨row, hrow', -, rfl⟩ := resultOf_eq_some hresultOf
  have hsame : row = ⟨chunk, document⟩ := Database.eq_of_id_eq hrow' hrow (Prod.mk.inj heq).1
  rw [hsame]
  rfl

namespace SearchSystem

variable {κ : Type} [DecidableEq κ] {C : SearchServices} {S : Services} {digest : Text → κ}
  {s s' : SearchSystem κ}

/-- The calls of search take no part in what the other calls do. -/
theorem reachable_system (h : (machine C S digest).Reachable s) :
  (System.machine S).Reachable s.system
  := by
  apply h.induction
  · rintro s rfl
    exact ⟨System.initial, [], rfl, rfl⟩
  · intro s event s' hreachable hstep
    rcases step_eq_some hstep with ⟨e, system, -, hsystem, rfl⟩ | ⟨_, _, _, _, -, -, rfl⟩
    · apply hreachable.step hsystem
    · apply hreachable

/-- A run of the other calls while no call of search takes a step. -/
theorem run_service {events : List Event} {system : System}
    (hrun : (System.machine S).run s.system events = some system) :
  (machine C S digest).run s (events.map .service) = some { s with system }
  := by
  induction events generalizing s with
  | nil =>
      obtain rfl := Option.some.inj hrun
      rfl
  | cons e events ih =>
      obtain ⟨next, hstep, hrest⟩ := (System.machine S).run_cons_iff.mp hrun
      change System.step S s.system e = some next at hstep
      apply (machine C S digest).run_cons_iff.mpr
      refine ⟨{ s with system := next }, ?_, ih hrest⟩
      simp [machine, step, hstep]

/-- From every reachable state an upload there is no reason to refuse, with passages that can be prepared
and stored, is published when nothing fails in its call of `submit` and in a call of `process` for its job,
and the clock goes on from step to step: the steps are enabled and timed, and then the document is ready with
all its passages and points. A full-text search from then on, while no transaction changes the database,
finds each of its passages that matches, however many others match, when the limit keeps them all. -/
theorem upload_found (hdigest : Function.Injective digest) (hreachable : (machine C S digest).Reachable s)
    {i k : ℕ} (hsubmission : (s.system.submissions i).ids = none)
    (hdelivery : (s.system.deliveries k).attempt = none) {t : Ticket} {filename : Text}
    {contentType : Option Text} {source : List Bytes}
    (hadmits : s.system.Admits S t filename contentType source) {chunks : List Chunk}
    (hchunks : S.chunksOf t = .ok chunks)
    (htexts : ∀ chunk ∈ chunks, rejectsText chunk.text = false
      ∧ ∀ part ∈ chunk.locator.sectionPath, rejectsText part = false)
    (hinj : Set.InjOn (S.uuid5 chunkNamespace) (S.chunkKeys (t :: s.system.issued))) {time : ℕ → Clock}
    (htime : Chronological time) :
  ∃ s', (machine C S digest).run s
      ((publishSteps i k filename contentType source t.documentId t.jobId time).map .service) = some s'
    ∧ (System.timed S).run s.system
      (publishSteps i k filename contentType source t.documentId t.jobId time) = some s'.system
    ∧ s'.system.stores.Completed S t 1
    ∧ ∃ document, ∀ q j s₁ events s₂ execution, q.mode = .keyword →
      step C S digest s' (.request j (.begin q)) = some s₁ →
      (machine C S digest).run s₁ events = some s₂ →
      (machine C S digest).Meets (Undisturbed S j) s₁ events → s₂.requests j = .returned execution →
      (C.matching s'.system.stores.db q).length ≤ q.limit.toNat → ∀ chunk ∈ chunks,
        C.matchesQuery (normalizeQuery q.query) chunk.text = true →
        q.filters.admits t.documentId t.mediaType = true →
        ∃ result ∈ execution.results, result.citation = .ofChunk document chunk
  := by
  have hsystem := reachable_system hreachable
  obtain ⟨system₁, document₁, job₁, hrun₁, hissued, hdeliveries, -, hat, hread, hupdated, hjobUpdated,
    hstarted⟩ := hadmits.submits hsystem hsubmission (htime.first_le 0 1)
  have hreachable₁ := hsystem.run hrun₁
  have hbetween : System.Between S system₁ t := by
    use System.Sound.of_reachable hreachable₁, System.derived_of_reachable hreachable₁
    rw [hissued]
    apply List.mem_cons_self
  have hidle : (system₁.deliveries k).attempt = none := by
    rw [hdeliveries]
    apply hdelivery
  -- what the upload has stored is before the times the clock shows then
  have hstored : system₁.stores.db.StoredBefore t.documentId (time 1 0) := by
    constructor
    · intro row hrow hid
      rw [Table.eq_of_key_eq hrow hat.document_mem (hid.trans hat.document_id.symm), hupdated]
      apply htime.across
    · intro row hrow hid
      rw [hat.job_unique row hrow hid, hjobUpdated, hstarted]
      use htime.across 0 2 0
      simp
  rw [← hissued] at hinj
  obtain ⟨system₂, hrun₂, -, hcompleted, -⟩ :=
    hbetween.processes hidle hat hread hchunks htexts hinj htime.tail hstored
  have htimed : (System.timed S).run s.system
      (publishSteps i k filename contentType source t.documentId t.jobId time) = some system₂ := by
    apply (System.timed S).run_append_iff.mpr
    refine ⟨system₁, System.run_timed_iff.mpr ⟨hrun₁, ?_⟩, hrun₂⟩
    -- a call of `submit` stamps the rows of no document that is there
    apply Machine.meets_of_forall
    intro s e he stamping hstamping
    simp only [submitSteps, List.map_cons, List.map_nil, List.mem_cons, List.not_mem_nil, or_false] at he
    rcases he with rfl | rfl | rfl | rfl | rfl <;> cases hstamping
  obtain ⟨hrun, -⟩ := System.run_timed_iff.mp htimed
  refine ⟨{ s with system := system₂ }, run_service hrun, htimed, hcompleted, ?_⟩
  -- the document is searched
  obtain ⟨document, job, hready, -⟩ := hcompleted.stage
  use document
  intro q j s₁ events s₂ execution hmode hbegin hsearch hundisturbed hreturned hfits chunk hchunk
    hmatches hadmitted
  obtain ⟨rfl, hlimit⟩ := eq_keywordExecution hdigest (hreachable.run (run_service hrun)) hmode hbegin
    hsearch hundisturbed hreturned
  obtain ⟨hmem, hid⟩ := (hcompleted.chunks chunk).mpr ⟨chunks, hchunks, hchunk⟩
  have hnames : t.Names document := by
    have hsound₂ := System.Sound.of_reachable (hsystem.run hrun)
    obtain ⟨u, hu, hnames⟩ := hsound₂.ticket hready.document_mem
    have ht : t ∈ system₂.issued :=
      System.issued_subset_of_run (System.run_timed_iff.mp hrun₂).1 hbetween.issued
    rw [hsound₂.distinct.documents t ht u hu (hready.document_id.symm.trans hnames.id_eq)]
    apply hnames
  apply SearchServices.exists_result hmode hlimit hfits _ hmatches
  · rw [hnames.id_eq, hnames.mediaType_eq]
    apply hadmitted
  · apply Database.mem_searchable.mpr
    exact ⟨hmem, hready.document_mem, hready.document_id.trans hid.symm, hready.document_status⟩

/-- The sample document is published in a new deployment. -/
theorem upload_found_sample :
  ∃ s' : SearchSystem Text, (machine .sample .sample id).run initial ((publishSteps 0 0 "alpha.txt".toList
      (some "text/plain".toList) [Services.sampleContent] Services.sampleDocumentId System.sampleJobId
      fun n _ => n).map .service) = some s'
    ∧ (System.timed .sample).run System.initial (publishSteps 0 0 "alpha.txt".toList
      (some "text/plain".toList) [Services.sampleContent] Services.sampleDocumentId System.sampleJobId
      fun n _ => n) = some s'.system
    ∧ s'.system.stores.Completed .sample
        ⟨Services.sampleDocumentId, System.sampleJobId, .text, Services.sampleContent⟩ 1
  := by
  let t : Ticket := ⟨Services.sampleDocumentId, System.sampleJobId, .text, Services.sampleContent⟩
  have hreachable : (machine .sample .sample (id : Text → Text)).Reachable initial := ⟨_, [], rfl, rfl⟩
  have hadmits : (initial : SearchSystem Text).system.Admits .sample t "alpha.txt".toList
      (some "text/plain".toList) [Services.sampleContent] := by
    refine ⟨?_, rfl, ?_, ?_, ?_, ?_, ?_⟩
    · simp [System.Fresh, initial, System.initial]
    · decide +kernel
    · decide +kernel
    · decide +kernel
    · decide +kernel
    · simp [initial, System.initial, Stores.initial, Database.initial]
  have hkeys : [t].flatMap Services.sample.keysOf
      = [stableKey Services.sampleDocumentId 0 Services.sampleDigest] := by
    decide +kernel
  have htime : Chronological fun n _ => (n : ℤ) := by
    constructor
    · intro _ _ _ _
      apply le_refl
    · intro k _ _
      simp
  obtain ⟨chunks, hchunks, htexts⟩ : ∃ chunks, Services.sample.chunksOf t = .ok chunks
      ∧ ∀ chunk ∈ chunks, rejectsText chunk.text = false
        ∧ ∀ part ∈ chunk.locator.sectionPath, rejectsText part = false := by
    have hchecked : ((Services.sample.chunksOf t).toOption.any fun chunks =>
        chunks.all fun chunk => !rejectsText chunk.text
          && chunk.locator.sectionPath.all fun part => !rejectsText part) = true := by
      decide +kernel
    cases hchunks : Services.sample.chunksOf t with
    | error error =>
        rw [hchunks] at hchecked
        cases hchecked
    | ok chunks =>
        rw [hchunks] at hchecked
        refine ⟨chunks, rfl, ?_⟩
        simpa [Except.toOption] using hchecked
  obtain ⟨s', hrun, htimed, hcompleted, -⟩ := upload_found Function.injective_id hreachable rfl rfl hadmits hchunks
    htexts (Services.injOn_chunkKeys hkeys) htime
  exact ⟨s', hrun, htimed, hcompleted⟩

end SearchSystem

end KnowledgeSearch

import KnowledgeSearch.System.Indexing

/-!
# An attempt on its own

What a call of `process` does from its start to its end while no other call takes a step.
`Alone` says, for each point of the call, which rows its document has and what the index holds.
-/

namespace KnowledgeSearch

open Database

/-- The points of a ticket whose chunks have distinct identifiers are those its upsert leaves. -/
theorem Services.Indexes.mem_putAll {S : Services} {t : Ticket} {point : Point}
    (h : S.Indexes t point) {index : VectorIndex} {document : Document} {chunks : List Chunk}
    (hnames : t.Names document) (hchunks : S.chunksOf t = .ok chunks)
    (hnodup : (chunks.map fun chunk => chunk.id).Nodup) :
  point ∈ index.putAll (S.expectedPoints document chunks)
  := by
  obtain ⟨document', chunks', hnames', hchunks', hpoint⟩ := h
  rw [hchunks] at hchunks'
  obtain rfl := Except.ok.inj hchunks'
  rw [Services.expectedPoints_congr (hnames'.mediaType_eq.trans hnames.mediaType_eq.symm)] at hpoint
  apply Table.mem_putAll_of_mem_rows hpoint
  intro r hr hid
  rw [← Services.map_id_expectedPoints] at hnodup
  apply List.inj_on_of_nodup_map hnodup hr hpoint hid

/-- The rows of the document of a ticket are those of a phase, after a number of attempts. -/
def Stores.Stage (s : Stores) (t : Ticket) (p : Phase) (count : ℤ) : Prop :=
  ∃ document job, s.db.At t.documentId p document job ∧ job.attemptCount = count

/-- The document is ready, with all the chunks and points of its ticket. -/
structure Stores.Completed (S : Services) (s : Stores) (t : Ticket) (count : ℤ) : Prop where
  stage : s.Stage t .ready count
  chunks : ∀ chunk, chunk ∈ s.db.chunks ∧ chunk.documentId = t.documentId ↔ S.Derives t chunk
  points : ∀ point, point ∈ s.index ∧ point.documentId = t.documentId ↔ S.Indexes t point

/-- Where the document of a ticket stands while a delivery at it is the only call that takes
steps. -/
inductive Delivery.Alone (S : Services) (s : Stores) (t : Ticket) (count : ℤ) (revision : ℕ) :
    Delivery → Prop
  | running {delivery : Delivery} {a : Attempt} (ha : delivery.running = some a)
      (hid : a.documentId = t.documentId) (hstage : s.Stage t .processing count)
      (hrevision : s.db.revision = revision)
      (hupserted : ∀ b chunks, delivery = .upserted b chunks → ∃ index document, t.Names document
        ∧ S.chunksOf t = .ok chunks
        ∧ s.index = Table.putAll index (S.expectedPoints document chunks)) :
      Alone S s t count revision delivery
  | recorded {a : Attempt} {error : AppError} (hid : a.documentId = t.documentId)
      (hstage : s.Stage t .failed count) (hrevision : s.db.revision = revision) :
      Alone S s t count revision (.cleaning a error)
  | returned (hcompleted : s.Completed S t count) (hrevision : s.db.revision = revision + 1) :
      Alone S s t count revision .returned
  | raised {error : AppError} : Alone S s t count revision (.raised error)
  | died : Alone S s t count revision .died

section Alone

variable {S : Services} {s s' : Stores} {tickets : List Ticket} {t : Ticket} {count : ℤ}
  {revision : ℕ} {delivery delivery' : Delivery} {event : DeliveryEvent}

/-- A document that moves takes its stage along. -/
theorem Stores.Stage.moved {p : Phase} {move : Move} {document document' : Document}
    {job job' : IngestionJob} {added : List Chunk} {db : Database} (h : s.Stage t p count)
    (hs : s.db.Coherent) (hmoved : Moved move s.db db document document' job job' added)
    (hid : document.id = t.documentId) :
  ∃ q, p.next move = some q ∧ ∀ s' : Stores, s'.db = db →
    s'.Stage t q (count + (job'.attemptCount - job.attemptCount))
  := by
  obtain ⟨document₁, job₁, hat, rfl⟩ := h
  obtain ⟨p', hat'⟩ := hs.at_of_job hmoved.document_mem hmoved.job_mem hmoved.job_document
  rw [hid] at hat'
  obtain ⟨rfl, rfl, rfl⟩ := hat.unique hat'
  rw [← hid] at hat
  obtain ⟨q, hnext, hat''⟩ := hmoved.at_self hat
  rw [hid] at hat''
  use q, hnext
  rintro s' rfl
  use document', job', hat''
  omega

namespace Delivery.Alone

/-- What is known of a delivery that is running. -/
theorem stage_of_running (h : Alone S s t count revision delivery) {a : Attempt}
    (ha : delivery.running = some a) :
  a.documentId = t.documentId ∧ s.Stage t .processing count ∧ s.db.revision = revision
  := by
  cases h with
  | running hb hid hstage hrevision hupserted =>
      rw [ha] at hb
      obtain rfl := Option.some.inj hb
      use hid, hstage, hrevision
  | recorded | returned | raised | died => cases ha

/-- A step of a running delivery that leaves the database alone, and is not an upsert. -/
theorem proceed (h : Alone S s t count revision delivery) {a : Attempt}
    (ha : delivery.running = some a) (ha' : delivery'.running = some a) (hdb : s'.db = s.db)
    (hne : ∀ b chunks, delivery' ≠ .upserted b chunks) :
  Alone S s' t count revision delivery'
  := by
  obtain ⟨hid, hstage, hrevision⟩ := h.stage_of_running ha
  apply Alone.running ha' hid
  · rw [Stores.Stage, hdb]
    apply hstage
  · rw [hdb]
    apply hrevision
  · intro b chunks hb
    exact absurd hb (hne b chunks)

/-- The steps of a delivery that is alone. -/
theorem step (h : Alone S s t count revision delivery) (hdistinct : Distinct tickets)
    (hs : s.db.Coherent) (hderived : s.Derived S tickets) (ht : t ∈ tickets)
    (hfollows : delivery.Follows S tickets) (hevent : ¬ event.IsStart)
    (hdel : Delivery.Steps S s delivery event s' delivery') :
  Alone S s' t count revision delivery'
  := by
  cases hdel with
  | refuse | skip | start => exact absurd trivial hevent
  | load | prepare | embed | ensure | upsertPart =>
      apply h.proceed rfl
      · rfl
      · rfl
      · simp
  | interrupt hrunning _ =>
      apply h.proceed hrunning
      · rfl
      · rfl
      · simp
  | @upsert a document chunks vectors fault =>
      obtain ⟨hid, hstage, hrevision⟩ := h.stage_of_running rfl
      apply Alone.running
      · rfl
      · apply hid
      · apply hstage
      · apply hrevision
      · intro b chunks' hb
        cases hb
        obtain ⟨u, hu, hattempt, hnames, hchunks, rfl⟩ := hfollows
        obtain rfl := hdistinct.documents u hu t ht (hattempt.documentId_eq.symm.trans hid)
        use s.index, document, hnames, hchunks
        rfl
  | @finalise a chunks clock fault db document document' job job' hdocument hcount hnone hrows
      hmoved =>
      obtain ⟨hid, hstage, hrevision⟩ := h.stage_of_running rfl
      obtain ⟨q, hnext, hstage'⟩ := hstage.moved hs hmoved (hdocument.trans hid)
      cases hnext
      rw [hcount, sub_self, add_zero] at hstage'
      cases h with
      | running _ _ _ _ hupserted =>
          obtain ⟨index, document₁, hnames, hchunks, hindex⟩ := hupserted a chunks rfl
          apply Alone.returned
          · constructor
            · apply hstage' _ rfl
            · intro chunk
              change chunk ∈ db.chunks ∧ chunk.documentId = t.documentId ↔ S.Derives t chunk
              rw [hmoved.chunks]
              constructor
              · rintro ⟨hold | hnew, hcd⟩
                · have hmem : chunk ∈ s.db.chunksForDocument a.documentId :=
                    mem_chunksForDocument.mpr ⟨hold, hcd.trans hid.symm⟩
                  rw [hnone] at hmem
                  cases hmem
                · use chunks
              · intro hderives
                obtain ⟨chunks', hchunks', hmem⟩ := id hderives
                rw [hchunks] at hchunks'
                obtain rfl := Except.ok.inj hchunks'
                use Or.inr hmem, hderives.documentId_eq
            · intro point
              change point ∈ s.index ∧ point.documentId = t.documentId ↔ S.Indexes t point
              constructor
              · rintro ⟨hpoint, hpd⟩
                obtain ⟨u, hu, hindexes⟩ := hderived.points point hpoint
                obtain ⟨_, -, -, hud⟩ := hindexes.chunk
                rw [hdistinct.documents t ht u hu (hpd.symm.trans hud)]
                apply hindexes
              · intro hindexes
                -- the chunk rows the transaction inserted have distinct identifiers
                have hnodup := db.chunks.nodup
                rw [hrows, List.map_append] at hnodup
                obtain ⟨_, -, -, hud⟩ := hindexes.chunk
                rw [hindex]
                use hindexes.mem_putAll hnames hchunks hnodup.of_append_right
          · change db.revision = revision + 1
            rw [hmoved.revision, hrevision]
            rfl
  | unrecorded => apply Alone.raised
  | @recordNothing a error clock fault hstatus =>
      obtain ⟨hid, ⟨document, job, hat, -⟩, -⟩ := h.stage_of_running rfl
      exact absurd hat.document_status
        (hstatus document hat.document_mem (hat.document_id.trans hid.symm))
  | record hdocument hcount hstatus hmoved =>
      obtain ⟨hid, hstage, hrevision⟩ := h.stage_of_running rfl
      obtain ⟨q, hnext, hstage'⟩ := hstage.moved hs hmoved (hdocument.trans hid)
      cases hnext
      rw [hcount, sub_self, add_zero] at hstage'
      apply Alone.recorded hid
      · apply hstage' _ rfl
      · rw [hmoved.revision, hrevision]
        rfl
  | clean => apply Alone.raised
  | crash => apply Alone.died

end Delivery.Alone

end Alone

end KnowledgeSearch

import KnowledgeSearch.System.Soundness

/-!
# Ready documents and the vector index

Chunk rows and points come from the tickets of their documents (`Stores.Derived`). That a ready
document has all its points is not preserved by every step: the cleanup after a failed attempt
deletes the points of the document whatever has happened to it since the failure was recorded.
`System.Harmless` is the condition on a step under which it is preserved.
-/

namespace KnowledgeSearch

open Database

/-! ### What is derived from tickets -/

/-- The index holds a point for the chunk. -/
def VectorIndex.Holds (index : VectorIndex) (chunk : Chunk) : Prop :=
  ∃ point ∈ index, point.id = chunk.id

/-- Putting points keeps those of other chunks. -/
theorem VectorIndex.Holds.putAll {index : VectorIndex} {chunk : Chunk} (h : index.Holds chunk)
    (points : List Point) :
  Holds (index.putAll points) chunk
  := Table.exists_mem_putAll (Or.inr h)

/-- Putting the points of chunks puts a point for each. -/
theorem VectorIndex.holds_putAll {index : VectorIndex} {document : Document} {chunks : List Chunk}
    {vectors : List Vector} (hlength : chunks.length = vectors.length) {chunk : Chunk}
    (hchunk : chunk ∈ chunks) :
  Holds (index.putAll (pointsOf document chunks vectors)) chunk
  := by
  apply Table.exists_mem_putAll
  left
  have hid : chunk.id ∈ (pointsOf document chunks vectors).map Point.id := by
    rw [map_id_pointsOf hlength]
    apply List.mem_map_of_mem hchunk
  apply List.mem_map.mp hid

/-- The chunk is one of the document of the ticket. -/
def Services.Derives (S : Services) (t : Ticket) (chunk : Chunk) : Prop :=
  ∃ chunks, S.chunksOf t = .ok chunks ∧ chunk ∈ chunks

/-- The point is one of the document of the ticket. -/
def Services.Indexes (S : Services) (t : Ticket) (point : Point) : Prop :=
  ∃ document chunks, t.Names document ∧ S.chunksOf t = .ok chunks
    ∧ point ∈ S.expectedPoints document chunks

theorem Services.Derives.documentId_eq {S : Services} {t : Ticket} {chunk : Chunk}
    (h : S.Derives t chunk) :
  chunk.documentId = t.documentId
  := by
  obtain ⟨chunks, hchunks, hmem⟩ := h
  apply (Services.prepare_eq_ok hchunks).1 chunk hmem

/-- A point of a ticket is the point of one of its chunks. -/
theorem Services.Indexes.chunk {S : Services} {t : Ticket} {point : Point}
    (h : S.Indexes t point) :
  ∃ chunk, S.Derives t chunk ∧ point.id = chunk.id ∧ point.documentId = t.documentId
  := by
  obtain ⟨document, chunks, -, hchunks, hpoint⟩ := h
  obtain ⟨chunk, hmem, vector, -, rfl⟩ := mem_pointsOf hpoint
  have hderives : S.Derives t chunk := ⟨chunks, hchunks, hmem⟩
  use chunk, hderives, rfl
  apply hderives.documentId_eq

/-- Points and chunk rows come from tickets, and with a chunk of a ticket all its chunks have
rows. -/
structure Stores.Derived (S : Services) (tickets : List Ticket) (s : Stores) : Prop where
  points : ∀ point ∈ s.index, ∃ t ∈ tickets, S.Indexes t point
  chunks : ∀ chunk ∈ s.db.chunks, ∃ t ∈ tickets, S.Derives t chunk
    ∧ ∀ c, S.Derives t c → c ∈ s.db.chunks

namespace Stores.Derived

variable {S : Services} {tickets : List Ticket} {s s' : Stores}

theorem mono {tickets' : List Ticket} (h : s.Derived S tickets) (hsub : tickets ⊆ tickets') :
  s.Derived S tickets'
  where
  points := by
    intro point hpoint
    obtain ⟨t, ht, hindexes⟩ := h.points point hpoint
    use t, hsub ht
  chunks := by
    intro chunk hchunk
    obtain ⟨t, ht, hderives, hall⟩ := h.chunks chunk hchunk
    use t, hsub ht

/-- The same chunk rows, and points of tickets beside the old ones. -/
theorem same_chunks (h : s.Derived S tickets)
    (hchunks : ∀ chunk, chunk ∈ s'.db.chunks ↔ chunk ∈ s.db.chunks)
    (hindex : ∀ point ∈ s'.index, point ∈ s.index ∨ ∃ t ∈ tickets, S.Indexes t point) :
  s'.Derived S tickets
  where
  points := by
    intro point hpoint
    rcases hindex point hpoint with hold | hnew
    · apply h.points point hold
    · apply hnew
  chunks := by
    simp only [hchunks]
    apply h.chunks

/-- Adding all the chunks of a ticket. -/
theorem added (h : s.Derived S tickets) (hindex : s'.index = s.index) {chunks : List Chunk}
    (hchunks : ∀ chunk, chunk ∈ s'.db.chunks ↔ chunk ∈ s.db.chunks ∨ chunk ∈ chunks)
    {t : Ticket} (ht : t ∈ tickets) (ht' : S.chunksOf t = .ok chunks) :
  s'.Derived S tickets
  where
  points := by
    rw [hindex]
    apply h.points
  chunks := by
    intro chunk hchunk
    rcases (hchunks chunk).mp hchunk with hold | hnew
    · obtain ⟨u, hu, hderives, hall⟩ := h.chunks chunk hold
      use u, hu, hderives
      intro c hc
      apply (hchunks c).mpr (Or.inl (hall c hc))
    · use t, ht, ⟨chunks, ht', hnew⟩
      rintro c ⟨chunks', hchunks', hc⟩
      rw [ht'] at hchunks'
      obtain rfl := Except.ok.inj hchunks'
      apply (hchunks c).mpr (Or.inr hc)

/-- Removing a document with its chunks. -/
theorem removed (h : s.Derived S tickets) (hindex : s'.index = s.index) {d : Uuid}
    (hremoved : Removed s.db s'.db d) :
  s'.Derived S tickets
  where
  points := by
    rw [hindex]
    apply h.points
  chunks := by
    intro chunk hchunk
    obtain ⟨hchunk, hne⟩ := (hremoved.mem_chunks chunk).mp hchunk
    obtain ⟨t, ht, hderives, hall⟩ := h.chunks chunk hchunk
    use t, ht, hderives
    intro c hc
    apply (hremoved.mem_chunks c).mpr ⟨hall c hc, _⟩
    rw [hc.documentId_eq, ← hderives.documentId_eq]
    apply hne

end Stores.Derived

/-- Moves other than finalising add no chunks. -/
theorem Database.Moved.mem_chunks {move : Move} {db db' : Database}
    {document document' : Document} {job job' : IngestionJob}
    (h : Moved move db db' document document' job job' []) (chunk : Chunk) :
  chunk ∈ db'.chunks ↔ chunk ∈ db.chunks
  := by simp [h.chunks]

/-- The points a delivery upserts are those of its ticket. -/
theorem Delivery.Follows.indexes {S : Services} {tickets : List Ticket} {a : Attempt}
    {document : Document} {chunks : List Chunk} {vectors : List Vector}
    (h : (Delivery.ensured a document chunks vectors).Follows S tickets) :
  ∃ t ∈ tickets, t.Attempts a ∧ S.chunksOf t = .ok chunks
    ∧ ∀ point ∈ pointsOf document chunks vectors, S.Indexes t point
  := by
  obtain ⟨t, ht, hattempt, hnames, hchunks, rfl⟩ := h
  use t, ht, hattempt, hchunks
  intro point hpoint
  use document, chunks, hnames, hchunks, hpoint

namespace System

variable {S : Services} {s s' : System}

/-- Every step preserves that points and chunk rows come from tickets. -/
theorem derived_step (hs : s.Sound S) (h : s.stores.Derived S s.issued) {e : Event}
    (hstep : System.step S s e = some s') :
  s'.stores.Derived S s'.issued
  := by
  rcases hs.step_cases hstep with ⟨i, event, stores, submission, issued, -, hsub, hissue, rfl⟩
    | ⟨i, event, stores, delivery, -, hdel, rfl⟩ | ⟨i, event, stores, deletion, -, hdel, rfl⟩
  · have hderived : stores.Derived S s.issued := by
      apply h.same_chunks
      · intro chunk
        rcases hsub.changes (hs.submissions i) with hdb | ⟨_, _, -, -, hinserted⟩
          | ⟨_, _, _, _, hmoved⟩
        · rw [hdb]
        · rw [hinserted.chunks]
        · rw [hmoved.mem_chunks]
      · rw [hsub.index_eq]
        exact fun point hpoint => Or.inl hpoint
    apply hderived.mono
    apply subset_of_issue hissue
  · have hfollows := hs.deliveries i
    generalize s.deliveries i = before at hdel hfollows
    cases hdel with
    | start hidle hcount hmoved =>
        apply h.same_chunks
        · apply hmoved.mem_chunks
        · exact fun point hpoint => Or.inl hpoint
    | upsert =>
        obtain ⟨t, ht, -, -, hindexes⟩ := hfollows.indexes
        apply h.same_chunks
        · exact fun chunk => Iff.rfl
        · intro point hpoint
          rcases Table.mem_of_mem_putAll hpoint with hnew | hold
          · apply Or.inr ⟨t, ht, hindexes point hnew⟩
          · apply Or.inl hold
    | upsertPart =>
        obtain ⟨t, ht, -, -, hindexes⟩ := hfollows.indexes
        apply h.same_chunks
        · exact fun chunk => Iff.rfl
        · intro point hpoint
          rcases Table.mem_of_mem_putAll hpoint with hnew | hold
          · apply Or.inr ⟨t, ht, hindexes point (List.mem_of_mem_filter hnew)⟩
          · apply Or.inl hold
    | finalise hid hcount hnone hrows hmoved =>
        obtain ⟨t, ht, -, hchunks⟩ := hfollows
        apply h.added _ hmoved.chunks ht hchunks
        rfl
    | record hid hcount hstatus hmoved =>
        apply h.same_chunks
        · apply hmoved.mem_chunks
        · exact fun point hpoint => Or.inl hpoint
    | clean =>
        apply h.same_chunks
        · exact fun chunk => Iff.rfl
        · intro point hpoint
          apply Or.inl (VectorIndex.mem_deleteDocument.mp hpoint).1
    | _ => apply h
  · generalize s.deletions i = before at hdel
    cases hdel with
    | mark hidle hmem hstatus hmoved =>
        apply h.same_chunks
        · apply hmoved.mem_chunks
        · exact fun point hpoint => Or.inl hpoint
    | cancel | removeFile =>
        apply h.same_chunks
        · exact fun chunk => Iff.rfl
        · exact fun point hpoint => Or.inl hpoint
    | clear | clearPart =>
        apply h.same_chunks
        · exact fun chunk => Iff.rfl
        · intro point hpoint
          apply Or.inl (VectorIndex.mem_deleteDocument.mp hpoint).1
    | finish =>
        apply h.removed _ (deleteDocument_removed hs.coherent _)
        rfl
    | _ => apply h

/-- In reachable states points and chunk rows come from tickets. -/
theorem derived_of_reachable (h : (machine S).Reachable s) :
  s.stores.Derived S s.issued
  := by
  have hboth : s.Sound S ∧ s.stores.Derived S s.issued := by
    apply h.induction
    · rintro s rfl
      use Sound.initial
      constructor
      · simp [initial, Stores.initial]
      · simp [initial, Stores.initial, Database.initial]
    · rintro s e s' ⟨hs, hderived⟩ hstep
      use hs.step hstep
      apply derived_step hs hderived hstep
  apply hboth.2

/-! ### Ready documents -/

/-- The points of a ready document are those of its chunks. -/
def FullyIndexed (s : System) : Prop :=
  ∀ document ∈ s.stores.db.documents, document.status = .ready → ∀ id,
    (∃ point ∈ s.stores.index, point.documentId = document.id ∧ point.id = id)
      ↔ ∃ chunk ∈ s.stores.db.chunks, chunk.documentId = document.id ∧ chunk.id = id

/-- A failed attempt may delete the points of the document `d`: the document is being deleted or
gone, or it is not ready and no delivery is about to make it so. -/
def Abandoned (s : System) (d : Uuid) : Prop :=
  s.stores.db.Marked d
    ∨ (∀ document ∈ s.stores.db.documents, document.id = d → document.status ≠ .ready)
      ∧ ∀ i a chunks, s.deliveries i = .upserted a chunks → a.documentId ≠ d

/-- The steps that leave ready documents indexed: a cleanup after a failed attempt finds the
document abandoned, and a submission draws identifiers such that no chunk gets the identifier
of a chunk of another document. -/
def Harmless (S : Services) (s : System) : Event → Prop
  | .submission _ (.begin filename contentType source documentId jobId) =>
      ∀ mediaType, validateMediaType filename contentType = .ok mediaType →
        ∀ u ∈ s.issued, ∀ c c', S.Derives ⟨documentId, jobId, mediaType, sourceBytes source⟩ c →
          S.Derives u c' → c.id ≠ c'.id
  | .delivery i (.cleanup _) =>
      ∀ a error, s.deliveries i = .cleaning a error → s.Abandoned a.documentId
  | _ => True

/-- The chunks of different tickets have different identifiers. -/
def Apart (S : Services) (tickets : List Ticket) : Prop :=
  ∀ t ∈ tickets, ∀ u ∈ tickets, t ≠ u → ∀ c c', S.Derives t c → S.Derives u c' → c.id ≠ c'.id

/-- The chunks of a ready document have points, and so have the chunks a delivery is about to
commit. -/
structure Indexed (S : Services) (s : System) : Prop where
  apart : Apart S s.issued
  ready : ∀ document ∈ s.stores.db.documents, document.status = .ready →
    ∀ chunk ∈ s.stores.db.chunks, chunk.documentId = document.id → s.stores.index.Holds chunk
  upserted : ∀ i a chunks, s.deliveries i = .upserted a chunks →
    ¬ s.stores.db.Marked a.documentId → ∀ chunk ∈ chunks, s.stores.index.Holds chunk

/-- Deleting points of one document keeps the points of the chunks of another. -/
theorem holds_deleteDocument {tickets : List Ticket} {stores : Stores} {d : Uuid}
    {reached : Uuid → Bool} {u : Ticket} {chunk : Chunk} (hapart : Apart S tickets)
    (hderived : stores.Derived S tickets) (hu : u ∈ tickets) (hchunk : S.Derives u chunk)
    (hne : u.documentId ≠ d) (h : stores.index.Holds chunk) :
  (stores.index.deleteDocument d reached).Holds chunk
  := by
  obtain ⟨point, hpoint, hid⟩ := h
  have hkept : point.documentId ≠ d := by
    obtain ⟨t, ht, hindexes⟩ := hderived.points point hpoint
    obtain ⟨c, hc, hcid, hcd⟩ := hindexes.chunk
    by_cases htu : t = u
    · rw [hcd, htu]
      apply hne
    · exact absurd (hcid.symm.trans hid) (hapart t ht u hu htu c chunk hc hchunk)
  use point, VectorIndex.mem_deleteDocument.mpr ⟨hpoint, fun hdeleted => hkept hdeleted.1⟩

/-- Ready documents keep their points when a transaction moves a document, provided a document
that becomes ready has its points. -/
theorem Indexed.ready_moved {move : Move} {db : Database} {document document' : Document}
    {job job' : IngestionJob} {added : List Chunk} (h : Indexed S s) (hs : s.Sound S)
    (hmoved : Moved move s.stores.db db document document' job job' added)
    (hadded : ∀ chunk ∈ added, s.stores.index.Holds chunk) :
  ∀ row ∈ db.documents, row.status = .ready →
    ∀ chunk ∈ db.chunks, chunk.documentId = row.id → s.stores.index.Holds chunk
  := by
  intro row hrow hready chunk hchunk hid
  rcases (hmoved.chunks chunk).mp hchunk with hold | hnew
  · rcases (hmoved.mem_documents row).mp hrow with rfl | ⟨hrow, -⟩
    · -- the document has just become ready, so it was processing and had no chunks
      exfalso
      obtain ⟨p, hat⟩ := hs.coherent.at_of_job hmoved.document_mem hmoved.job_mem
        hmoved.job_document
      obtain ⟨q, hnext, hat'⟩ := hmoved.at_self hat
      rw [hat'.document_status] at hready
      rw [hmoved.document_revises.id_eq] at hid
      obtain ⟨rfl, -⟩ := Phase.next_ready hnext hready
      cases hat.chunks.mp ⟨chunk, hold, hid⟩
    · apply h.ready row hrow hready chunk hold hid
  · apply hadded chunk hnew

/-- A submission that draws identifiers of its own keeps tickets apart. -/
theorem apart_issue {event : SubmissionEvent} {submission submission' : Submission} {i : ℕ}
    {stores : Stores} {issued : List Ticket} (hapart : Apart S s.issued)
    (hharmless : Harmless S s (.submission i event))
    (hsub : Submission.Steps s.stores submission event stores submission')
    (hissue : issue s.issued submission' = some issued) :
  Apart S issued
  := by
  cases hsub with
  | @begin _ filename contentType source documentId jobId mediaType hidle hmedia =>
      simp only [issue] at hissue
      split at hissue
      · obtain rfl := Option.some.inj hissue
        have hnew := hharmless mediaType hmedia
        intro t ht u hu hne c c' hc hc'
        rcases List.mem_cons.mp ht with rfl | ht' <;> rcases List.mem_cons.mp hu with rfl | hu'
        · exact absurd rfl hne
        · apply hnew u hu' c c' hc hc'
        · apply (hnew t ht' c' c hc' hc).symm
        · apply hapart t ht' u hu' hne c c' hc hc'
      · cases hissue
  | other hfs hfollows hids hpending =>
      rw [Sound.issue_of_pending hissue (by
        rintro t filename source rfl
        cases hpending)]
      apply hapart
  | _ =>
      rw [Sound.issue_of_pending hissue (by simp)]
      apply hapart

/-- What is to be shown of a step of a delivery. -/
theorem Indexed.of_delivery {i : ℕ} {stores : Stores} {delivery : Delivery} (h : Indexed S s)
    (hready : ∀ row ∈ stores.db.documents, row.status = .ready →
      ∀ chunk ∈ stores.db.chunks, chunk.documentId = row.id → stores.index.Holds chunk)
    (hself : ∀ a chunks, delivery = .upserted a chunks →
      ∀ chunk ∈ chunks, stores.index.Holds chunk)
    (hothers : ∀ j a chunks, s.deliveries j = .upserted a chunks →
      ¬ stores.db.Marked a.documentId → ∀ chunk ∈ chunks, stores.index.Holds chunk) :
  Indexed S { s with stores, deliveries := Function.update s.deliveries i delivery }
  where
  apart := h.apart
  ready := hready
  upserted := by
    intro j a chunks hj hmarked
    by_cases hji : j = i
    · subst hji
      simp only [Function.update_self] at hj
      apply hself a chunks hj
    · simp only [Function.update_of_ne hji] at hj
      apply hothers j a chunks hj hmarked

/-- Steps of a delivery leave ready documents indexed, when its cleanup finds the document
abandoned. -/
theorem Indexed.delivery {i : ℕ} {event : DeliveryEvent} {stores : Stores} {delivery : Delivery}
    (h : Indexed S s) (hs : s.Sound S) (hderived : s.stores.Derived S s.issued)
    (hharmless : Harmless S s (.delivery i event))
    (hdel : Delivery.Steps S s.stores (s.deliveries i) event stores delivery)
    (hmarked : ∀ j a chunks, s.deliveries j = .upserted a chunks →
      ¬ stores.db.Marked a.documentId → ¬ s.stores.db.Marked a.documentId) :
  Indexed S { s with stores, deliveries := Function.update s.deliveries i delivery }
  := by
  have hothers : ∀ j a chunks, s.deliveries j = .upserted a chunks →
      ¬ stores.db.Marked a.documentId → ∀ chunk ∈ chunks, s.stores.index.Holds chunk := by
    intro j a chunks hj hm
    apply h.upserted j a chunks hj (hmarked j a chunks hj hm)
  have hfollows := hs.deliveries i
  generalize hbefore : s.deliveries i = before at hdel hfollows
  cases hdel with
  | start hidle hcount hmoved =>
      apply h.of_delivery _ (by simp) hothers
      apply h.ready_moved hs hmoved (by simp)
  | @upsert a document chunks vectors fault =>
      obtain ⟨t, -, -, -, -, hvectors⟩ := hfollows
      have hlength : chunks.length = vectors.length := by
        rw [hvectors, S.length_embedDocuments, List.length_map]
      apply h.of_delivery
      · intro row hrow hready chunk hchunk hid
        apply (h.ready row hrow hready chunk hchunk hid).putAll
      · intro b chunks' hb chunk hchunk
        cases hb
        apply VectorIndex.holds_putAll hlength hchunk
      · intro j b chunks' hj hm chunk hchunk
        apply (hothers j b chunks' hj hm chunk hchunk).putAll
  | upsertPart =>
      apply h.of_delivery
      · intro row hrow hready chunk hchunk hid
        apply (h.ready row hrow hready chunk hchunk hid).putAll
      · simp
      · intro j b chunks' hj hm chunk hchunk
        apply (hothers j b chunks' hj hm chunk hchunk).putAll
  | @finalise a chunks clock fault db document document' job job' hid hcount hnone hrows hmoved =>
      apply h.of_delivery _ (by simp) hothers
      apply h.ready_moved hs hmoved
      apply h.upserted i a chunks hbefore
      rw [← hid]
      apply hmoved.not_marked
  | record hid hcount hstatus hmoved =>
      apply h.of_delivery _ (by simp) hothers
      apply h.ready_moved hs hmoved (by simp)
  | @clean a error error' fault reached =>
      have habandoned := hharmless a error hbefore
      apply h.of_delivery
      · intro row hrow hready chunk hchunk hid
        have hne : row.id ≠ a.documentId := by
          intro heq
          rcases habandoned with hm | ⟨hm, -⟩
          · have hdeleting := hm row hrow heq
            rw [hready] at hdeleting
            cases hdeleting
          · apply hm row hrow heq hready
        obtain ⟨u, hu, hderives, -⟩ := hderived.chunks chunk hchunk
        apply holds_deleteDocument h.apart hderived hu hderives
        · rw [← hderives.documentId_eq, hid]
          apply hne
        · apply h.ready row hrow hready chunk hchunk hid
      · simp
      · intro j b chunks' hj hm chunk hchunk
        have hb := hs.deliveries j
        rw [hj] at hb
        obtain ⟨u, hu, hattempt, hchunks⟩ := hb
        apply holds_deleteDocument h.apart hderived hu ⟨chunks', hchunks, hchunk⟩
        · rw [← hattempt.documentId_eq]
          intro heq
          rcases habandoned with hab | ⟨-, hab⟩
          · apply hmarked j b chunks' hj hm
            rw [heq]
            apply hab
          · apply hab j b chunks' hj heq
        · apply hothers j b chunks' hj hm chunk hchunk
  | _ => apply h.of_delivery h.ready (by simp) hothers

/-- Steps of a deletion leave ready documents indexed. -/
theorem Indexed.deletion {i : ℕ} {event : DeletionEvent} {stores : Stores} {deletion : Deletion}
    (h : Indexed S s) (hs : s.Sound S) (hderived : s.stores.Derived S s.issued)
    (hdel : Deletion.Steps S s.stores (s.deletions i) event stores deletion)
    (hmarked : ∀ j a chunks, s.deliveries j = .upserted a chunks →
      ¬ stores.db.Marked a.documentId → ¬ s.stores.db.Marked a.documentId) :
  Indexed S { s with stores, deletions := Function.update s.deletions i deletion }
  := by
  have hothers : ∀ j a chunks, s.deliveries j = .upserted a chunks →
      ¬ stores.db.Marked a.documentId → ∀ chunk ∈ chunks, s.stores.index.Holds chunk := by
    intro j a chunks hj hm
    apply h.upserted j a chunks hj (hmarked j a chunks hj hm)
  -- the points of a document that is being deleted matter no more
  have hclear : ∀ document, (s.deletions i).document = some document → stores.db = s.stores.db →
      ∀ reached, stores.index = s.stores.index.deleteDocument document.id reached →
        Indexed S { s with stores, deletions := Function.update s.deletions i deletion } := by
    intro document hdocument hdb reached hindex
    have hm := hs.deleting i document hdocument
    constructor
    · apply h.apart
    · intro row hrow hready chunk hchunk hid
      rw [hdb] at hrow hchunk
      rw [hindex]
      obtain ⟨u, hu, hderives, -⟩ := hderived.chunks chunk hchunk
      apply holds_deleteDocument h.apart hderived hu hderives
      · rw [← hderives.documentId_eq, hid]
        intro heq
        have hdeleting := hm row hrow heq
        rw [hready] at hdeleting
        cases hdeleting
      · apply h.ready row hrow hready chunk hchunk hid
    · intro j b chunks hj hmb chunk hchunk
      have hb := hs.deliveries j
      rw [hj] at hb
      obtain ⟨u, hu, hattempt, hchunks⟩ := hb
      rw [hindex]
      apply holds_deleteDocument h.apart hderived hu ⟨chunks, hchunks, hchunk⟩
      · rw [← hattempt.documentId_eq]
        intro heq
        apply hmarked j b chunks hj hmb
        rw [heq]
        apply hm
      · apply hothers j b chunks hj hmb chunk hchunk
  generalize hbefore : s.deletions i = before at hdel
  cases hdel with
  | mark hidle hmem hstatus hmoved =>
      constructor
      · apply h.apart
      · apply h.ready_moved hs hmoved (by simp)
      · apply hothers
  | @clear document fault =>
      apply hclear document _ rfl (fun _ => true) rfl
      rw [hbefore]
      rfl
  | @clearPart document fault reached error =>
      apply hclear document _ rfl reached rfl
      rw [hbefore]
      rfl
  | @finish document fault =>
      have hremoved := deleteDocument_removed hs.coherent document.id
      constructor
      · apply h.apart
      · intro row hrow hready chunk hchunk hid
        apply h.ready row ((hremoved.mem_documents row).mp hrow).1 hready chunk
          ((hremoved.mem_chunks chunk).mp hchunk).1 hid
      · apply hothers
  | _ =>
      constructor
      · apply h.apart
      · apply h.ready
      · apply hothers

/-- Harmless steps leave ready documents indexed. -/
theorem Indexed.step (h : Indexed S s) (hs : s.Sound S) (hderived : s.stores.Derived S s.issued)
    {e : Event} (hharmless : Harmless S s e) (hstep : System.step S s e = some s') :
  Indexed S s'
  := by
  have hmarked : ∀ j a chunks, s.deliveries j = .upserted a chunks →
      ¬ s'.stores.db.Marked a.documentId → ¬ s.stores.db.Marked a.documentId := by
    intro j a chunks hj
    apply hs.not_marked_of_step hstep (j := j)
    rw [hj]
    rfl
  rcases hs.step_cases hstep with ⟨i, event, stores, submission, issued, rfl, hsub, hissue, rfl⟩
    | ⟨i, event, stores, delivery, rfl, hdel, rfl⟩ | ⟨i, event, stores, deletion, rfl, hdel, rfl⟩
  · constructor
    · apply apart_issue h.apart hharmless hsub hissue
    · rw [hsub.index_eq]
      rcases hsub.changes (hs.submissions i) with hdb | ⟨document, job, -, -, hinserted⟩
        | ⟨_, _, _, _, hmoved⟩
      · rw [hdb]
        apply h.ready
      · intro row hrow hready chunk hchunk hid
        rw [hinserted.chunks] at hchunk
        rcases (hinserted.mem_documents row).mp hrow with hrow | rfl
        · apply h.ready row hrow hready chunk hchunk hid
        · rw [hinserted.document_status] at hready
          cases hready
      · apply h.ready_moved hs hmoved (by simp)
    · intro j a chunks hj hm
      rw [hsub.index_eq]
      apply h.upserted j a chunks hj (hmarked j a chunks hj hm)
  · apply h.delivery hs hderived hharmless hdel hmarked
  · apply h.deletion hs hderived hdel hmarked

/-- In a run all of whose steps are harmless, ready documents are fully indexed. -/
theorem fullyIndexed_of_harmless {es : List Event} (hrun : (machine S).run initial es = some s)
    (hharmless : (machine S).Meets (Harmless S) initial es) :
  FullyIndexed s
  := by
  have hall : s.Sound S ∧ s.stores.Derived S s.issued ∧ Indexed S s := by
    apply (machine S).run_induction _ _ hharmless hrun
    · rintro s e s' ⟨hs, hderived, hindexed⟩ hh hstep
      use hs.step hstep, derived_step hs hderived hstep
      apply hindexed.step hs hderived hh hstep
    · use Sound.initial, derived_of_reachable ⟨initial, [], rfl, rfl⟩
      constructor
      · simp [Apart, initial]
      · simp [initial, Stores.initial, Database.initial]
      · simp [initial]
  obtain ⟨hs, hderived, hindexed⟩ := hall
  intro document hmem hready id
  constructor
  · rintro ⟨point, hpoint, hdocument, rfl⟩
    obtain ⟨t, ht, hindexes⟩ := hderived.points point hpoint
    obtain ⟨c, hc, hcid, hcd⟩ := hindexes.chunk
    -- the document has chunk rows, and with one chunk of a ticket all have rows
    obtain ⟨p, job, hat⟩ := hs.coherent.documents document hmem
    have hp : p.indexed = true := by
      rw [hat.document_status] at hready
      cases p <;> simp [Phase.document] at hready
      rfl
    obtain ⟨chunk, hchunk, hchunkd⟩ := hat.chunks.mpr hp
    obtain ⟨u, hu, hderives, hrows⟩ := hderived.chunks chunk hchunk
    obtain rfl : u = t := by
      apply hs.distinct.documents u hu t ht
      rw [← hderives.documentId_eq, hchunkd, ← hdocument, hcd]
    use c, hrows c hc
    rw [hc.documentId_eq, ← hcd, hdocument, hcid]
    use rfl
  · rintro ⟨chunk, hchunk, hdocument, rfl⟩
    obtain ⟨point, hpoint, hid⟩ := hindexed.ready document hmem hready chunk hchunk hdocument
    use point, hpoint
    apply And.intro _ hid
    obtain ⟨t, ht, hindexes⟩ := hderived.points point hpoint
    obtain ⟨c, hc, hcid, hcd⟩ := hindexes.chunk
    obtain ⟨u, hu, hderives, -⟩ := hderived.chunks chunk hchunk
    by_cases htu : t = u
    · rw [hcd, htu, ← hderives.documentId_eq, hdocument]
    · exact absurd (hcid.symm.trans hid) (hindexed.apart t ht u hu htu c chunk hc hderives)

/-- The first delivery of the sample job fails and records its failure. -/
def sampleMarkedFailed : List Event :=
  sampleUpload
    ++ [.delivery 0 (.start sampleJobId (clockFrom 10) none), .delivery 0 (.load none),
      .delivery 0 (.prepare (some .os)), .delivery 0 (.markFailed (clockFrom 20) none)]

/-- The first delivery fails and deletes the points, and a second one makes the document ready. -/
theorem fullyIndexed_of_harmless_sample :
  ∃ s, (machine .sample).run initial
      (sampleMarkedFailed ++ [.delivery 0 (.cleanup none)] ++ sampleIndexing 1 30
        ++ [.delivery 1 (.finalise (clockFrom 40) none)]) = some s
    ∧ s.stores.db.documents.rows.map (fun document => document.status) = [.ready]
    ∧ s.stores.db.jobs.rows.map (fun job => job.attemptCount) = [2]
    ∧ FullyIndexed s
  := by
  set retried := sampleMarkedFailed ++ [.delivery 0 (.cleanup none)] ++ sampleIndexing 1 30
    ++ [.delivery 1 (.finalise (clockFrom 40) none)] with hretried
  have hcheck : ((machine .sample).run initial retried).any fun s =>
      s.stores.db.documents.rows.map (fun document => document.status) = [.ready]
        && s.stores.db.jobs.rows.map (fun job => job.attemptCount) = [2] := by
    decide +kernel
  obtain ⟨s, hrun, hrows⟩ := (Option.any_eq_true _ _).mp hcheck
  simp only [Bool.and_eq_true, decide_eq_true_eq] at hrows
  refine ⟨s, hrun, hrows.1, hrows.2, ?_⟩
  apply fullyIndexed_of_harmless hrun
  have hmarked : (machine .sample).run initial sampleMarkedFailed = some (sampleAfter sampleMarkedFailed) :=
    run_sampleAfter [] sampleMarkedFailed (by decide +kernel)
  have hretry : ∀ t, ∀ e ∈ sampleIndexing 1 30 ++ [.delivery 1 (.finalise (clockFrom 40) none)],
      Harmless .sample t e := by
    intro t e he
    simp only [sampleIndexing, List.cons_append, List.nil_append, List.mem_cons,
      List.not_mem_nil, or_false] at he
    rcases he with rfl | rfl | rfl | rfl | rfl | rfl | rfl <;> trivial
  rw [hretried, List.append_assoc, List.append_assoc]
  apply ((machine .sample).meets_append_iff hmarked).mpr
  constructor
  · simp only [sampleMarkedFailed, sampleUpload, List.cons_append, List.nil_append]
    constructor
    · intro mediaType _ u hu
      cases hu
    · intro s' _
      apply Machine.meets_of_forall
      intro t e he
      simp only [List.mem_cons, List.not_mem_nil, or_false] at he
      rcases he with rfl | rfl | rfl | rfl | rfl | rfl | rfl | rfl <;> trivial
  · constructor
    -- the cleanup finds the document failed, and no other delivery has begun
    · intro a error ha
      right
      constructor
      · have hfailed : (sampleAfter sampleMarkedFailed).stores.db.documents.rows.all fun document =>
            document.status ≠ .ready := by
          decide +kernel
        intro document hdocument _
        apply of_decide_eq_true (List.all_eq_true.mp hfailed document hdocument)
      · intro i b chunks hi
        by_cases h0 : i = 0
        · rw [h0, ha] at hi
          cases hi
        · rw [(idle_sampleAfter (by decide +kernel)
            (by simp [sampleMarkedFailed, sampleUpload, Event.call]) h0).2.1] at hi
          cases hi
    · intro s' _
      apply Machine.meets_of_forall _ hretry

/-- A cleanup that comes after the document was taken up again: the first delivery fails and
records its failure, the second one makes the document ready, and then the first one deletes
the points. -/
def overtakenCleanup : List Event :=
  sampleMarkedFailed ++ sampleIndexing 1 30
    ++ [.delivery 1 (.finalise (clockFrom 40) none), .delivery 0 (.cleanup none)]

/-- After an overtaken cleanup the sample document is ready and has no points. -/
theorem not_fullyIndexed_overtakenCleanup :
  ¬ ∀ S es s, (machine S).run initial es = some s → FullyIndexed s
  := by
  intro hall
  have hcheck : ((machine .sample).run initial overtakenCleanup).any fun s =>
      s.stores.db.documents.rows.any (fun document =>
          document.id = Services.sampleDocumentId && document.status = .ready)
        && s.stores.db.chunks.rows.any (fun chunk => chunk.documentId = Services.sampleDocumentId)
        && s.stores.index.rows = [] := by decide +kernel
  obtain ⟨s, hrun, hs⟩ := (Option.any_eq_true _ _).mp hcheck
  simp only [Bool.and_eq_true, List.any_eq_true, decide_eq_true_eq] at hs
  obtain ⟨⟨⟨document, hdocument, hid, hready⟩, chunk, hchunk, hchunkd⟩, hindex⟩ := hs
  obtain ⟨point, hpoint, -⟩ := (hall .sample overtakenCleanup s hrun document hdocument hready
    chunk.id).mpr ⟨chunk, hchunk, hchunkd.trans hid.symm, rfl⟩
  rw [Table.mem_def, hindex] at hpoint
  cases hpoint

end System

end KnowledgeSearch

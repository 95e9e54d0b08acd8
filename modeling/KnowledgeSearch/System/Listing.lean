import KnowledgeSearch.Application.Queries
import KnowledgeSearch.System.Soundness

/-!
# Reading the listing page by page

A reader asks for the pages of the listing one after the other, while calls of `submit`, `process` and
`delete` go on between its requests. `Reading.machine` is the machine of the reader and the calls.

The reader misses no document before which no document is removed (`Reading.lists_document`), and finds
none twice as long as none is added (`Reading.lists_once`).
-/

namespace KnowledgeSearch

open Database

/-! ### Ranks that change -/

/-- Documents with the same identifier and creation time have the same place in the listing. -/
theorem Document.ListedBefore.congr {a b document : Document} (hid : b.id = a.id)
    (hcreated : b.createdAt = a.createdAt) :
  (document.ListedBefore b ↔ document.ListedBefore a)
    ∧ (b.ListedBefore document ↔ a.ListedBefore document)
  := by
  simp only [Document.ListedBefore, hid, hcreated, iff_self, and_self]

theorem Database.listingRank_congr {db : Database} {a b : Document} (hid : a.id = b.id)
    (hcreated : a.createdAt = b.createdAt) :
  db.listingRank a = db.listingRank b
  := by
  apply List.countP_congr
  intro row _
  simp only [decide_not, Bool.not_eq_true', decide_eq_false_iff_not]
  rw [(Document.ListedBefore.congr hid hcreated).2]

/-- The rank of a document is no less when the documents listed before it are still there. -/
theorem Database.listingRank_le {db db' : Database} {document : Document}
    (h : ∀ row ∈ db.documents, ¬ document.ListedBefore row →
      ∃ row' ∈ db'.documents, row'.id = row.id ∧ row'.createdAt = row.createdAt) :
  db.listingRank document ≤ db'.listingRank document
  := by
  have hnodup : ((db.documents.rows.filter fun row => ¬ document.ListedBefore row).map
      fun row => row.id).Nodup :=
    (List.filter_sublist.map _).nodup db.documents.nodup
  have hsubset : ((db.documents.rows.filter fun row => ¬ document.ListedBefore row).map fun row => row.id)
      ⊆ (db'.documents.rows.filter fun row => ¬ document.ListedBefore row).map fun row => row.id := by
    intro id hid
    obtain ⟨row, hrow, rfl⟩ := List.mem_map.mp hid
    obtain ⟨hmem, hbefore⟩ := List.mem_filter.mp hrow
    simp only [decide_not, Bool.not_eq_true', decide_eq_false_iff_not] at hbefore
    obtain ⟨row', hrow', hid', hcreated⟩ := h row hmem hbefore
    have hbefore' : ¬ document.ListedBefore row' := by
      rw [(Document.ListedBefore.congr hid' hcreated).1]
      apply hbefore
    apply List.mem_map.mpr
    use row', List.mem_filter.mpr ⟨hrow', by simpa using hbefore'⟩
  have hlength := (List.subperm_of_subset hnodup hsubset).length_le
  rw [List.length_map, List.length_map] at hlength
  rw [listingRank, listingRank, List.rank, List.rank, List.countP_eq_length_filter,
    List.countP_eq_length_filter]
  apply hlength

/-- A step keeps the creation time of a document. -/
theorem System.Sound.createdAt_eq_of_step {S : Services} {s s' : System} {e : Event} (h : s.Sound S)
    (hstep : System.step S s e = some s') {row row' : Document} (hrow : row ∈ s.stores.db.documents)
    (hrow' : row' ∈ s'.stores.db.documents) (hid : row'.id = row.id) :
  row'.createdAt = row.createdAt
  := by
  have hsame : row' ∈ s.stores.db.documents → row'.createdAt = row.createdAt := by
    intro hmem
    rw [Table.eq_of_key_eq hmem hrow hid]
  rcases h.changed hstep with hdb | ⟨_, document, document', _, _, _, hmoved⟩
    | ⟨i, document, job, hpending, hinserted⟩ | ⟨_, _, -, hremoved⟩
  · apply hsame
    rw [← hdb]
    apply hrow'
  · rcases (hmoved.mem_documents row').mp hrow' with rfl | ⟨hmem, -⟩
    · have hfields := hmoved.document_revises
      obtain rfl : row = document := by
        apply Table.eq_of_key_eq hrow hmoved.document_mem
        rw [← hid, hfields.id_eq]
      apply congrArg DocumentFields.createdAt hfields
    · apply hsame hmem
  · rcases (hinserted.mem_documents row').mp hrow' with hmem | rfl
    · apply hsame hmem
    · exact absurd (System.Known.row row hrow hid.symm) (h.pending i _ hpending)
  · apply hsame ((hremoved.mem_documents row').mp hrow').1

/-! ### The reader -/

/-- The calls, and the pages that have been read. -/
structure Reading where
  system : System
  pages : List (List Document)

/-- A step of one of the calls, or the request for the next page. -/
inductive ReadingEvent where
  | call (event : Event)
  | turn

namespace Reading

/-- The documents the reader has seen, in the order of the pages. -/
def seen (r : Reading) : List Document :=
  r.pages.flatten

/-- The documents in the database. -/
def rows (r : Reading) : List Document :=
  r.system.stores.db.documents.rows

variable (S : Services) (limit : ℕ)

/-- A step of a call, or a page of the listing. -/
def step (r : Reading) : ReadingEvent → Option Reading
  | .call event => (System.step S r.system event).map fun system => { r with system }
  | .turn =>
      some { r with
        pages := r.pages
          ++ [DocumentQueries.listDocuments r.system.stores.db (r.pages.length * limit) limit] }

/-- The machine of a reader that begins while calls are under way. -/
def machine : Machine Reading ReadingEvent where
  Start r := (System.machine S).Reachable r.system ∧ r.pages = []
  step := step S limit

/-- The step removes no document listed up to the given one. -/
def Retains (document : Document) (r : Reading) (e : ReadingEvent) : Prop :=
  ∀ r' ∈ step S limit r e, ∀ row ∈ r.rows, row.ListedBefore document →
    ∃ row' ∈ r'.rows, row'.id = row.id

/-- The step adds no document. -/
def AddsNone (r : Reading) (e : ReadingEvent) : Prop :=
  ∀ r' ∈ step S limit r e, ∀ row' ∈ r'.rows, ∃ row ∈ r.rows, row.id = row'.id

instance (document : Document) (r : Reading) (e : ReadingEvent) :
    Decidable (Retains S limit document r e) :=
  inferInstanceAs (Decidable (∀ r' ∈ step S limit r e, _))

instance (r : Reading) (e : ReadingEvent) : Decidable (AddsNone S limit r e) :=
  inferInstanceAs (Decidable (∀ r' ∈ step S limit r e, _))

variable {S : Services} {limit : ℕ} {r r' : Reading} {e : ReadingEvent}

/-- A step is one of a call, which leaves the pages as they are, or one that reads a page. -/
theorem step_eq_some (h : step S limit r e = some r') :
  (∃ event, System.step S r.system event = some r'.system ∧ r'.pages = r.pages)
    ∨ r'.system = r.system
      ∧ r'.pages = r.pages ++ [r.system.stores.db.listDocuments (r.pages.length * limit) limit]
  := by
  cases e with
  | call event =>
      obtain ⟨system, hsystem, rfl⟩ := Option.map_eq_some_iff.mp h
      exact Or.inl ⟨event, hsystem, rfl⟩
  | turn =>
      obtain rfl := Option.some.inj h
      exact Or.inr ⟨rfl, rfl⟩

theorem sound_step (hs : r.system.Sound S) (h : step S limit r e = some r') :
  r'.system.Sound S
  := by
  rcases step_eq_some h with ⟨event, hstep, -⟩ | ⟨hsystem, -⟩
  · apply hs.step hstep
  · rw [hsystem]
    apply hs

/-! ### No document is missed -/

/-- The document is still in the database. -/
def Present (r : Reading) (document : Document) : Prop :=
  ∃ row ∈ r.system.stores.db.documents, row.id = document.id ∧ row.createdAt = document.createdAt

/-- The reader has seen the document, or has read full pages only and not come to it. -/
def Unmissed (limit : ℕ) (document : Document) (r : Reading) : Prop :=
  (∃ row ∈ r.seen, row.id = document.id)
    ∨ r.Present document ∧ r.pages.length * limit ≤ r.system.stores.db.listingRank document
      ∧ ∀ page ∈ r.pages, limit ≤ page.length

/-- Reading a page misses no document. -/
theorem Unmissed.turn {document : Document} (h : r.Unmissed limit document)
    (hsystem : r'.system = r.system)
    (hpages : r'.pages
      = r.pages ++ [r.system.stores.db.listDocuments (r.pages.length * limit) limit]) :
  r'.Unmissed limit document
  := by
  rcases h with ⟨row, hrow, hid⟩ | ⟨⟨row, hrow, hid, hcreated⟩, hrank, hfull⟩
  · left
    have hrow' : row ∈ r'.seen := by
      rw [seen, hpages, List.flatten_append]
      apply List.mem_append_left _ hrow
    use row, hrow'
  have hrankrow : r.system.stores.db.listingRank row = r.system.stores.db.listingRank document :=
    listingRank_congr hid hcreated
  by_cases hpage : row ∈ r.system.stores.db.listDocuments (r.pages.length * limit) limit
  · left
    have hrow' : row ∈ r'.seen := by
      rw [seen, hpages, List.flatten_append]
      apply List.mem_append_right
      simpa using hpage
    use row, hrow'
  right
  -- The page is full, since the document comes after it.
  rw [mem_listDocuments_iff, hrankrow] at hpage
  have hpast : r.pages.length * limit + limit ≤ r.system.stores.db.listingRank document := by
    apply not_lt.mp
    intro hlt
    apply hpage ⟨hrow, hrank, hlt⟩
  constructor
  · rw [Present, hsystem]
    use row
  constructor
  · rw [hsystem, hpages, List.length_append, List.length_singleton, Nat.add_one_mul]
    apply hpast
  · intro page hmem
    rw [hpages, List.mem_append, List.mem_singleton] at hmem
    rcases hmem with hmem | rfl
    · apply hfull page hmem
    · have hlength := List.rank_lt_length (r := Document.ListedBefore) hrow
      change r.system.stores.db.listingRank row < _ at hlength
      rw [listDocuments, List.length_page]
      omega

/-- A step of a call misses no document, as long as it removes none listed up to it. -/
theorem Unmissed.call {document : Document} {event : Event} (h : r.Unmissed limit document)
    (hs : r.system.Sound S) (hstep : System.step S r.system event = some r'.system)
    (hpages : r'.pages = r.pages)
    (hretains : ∀ row ∈ r.rows, row.ListedBefore document → ∃ row' ∈ r'.rows, row'.id = row.id) :
  r'.Unmissed limit document
  := by
  rcases h with ⟨row, hrow, hid⟩ | ⟨⟨row, hrow, hid, hcreated⟩, hrank, hfull⟩
  · left
    have hrow' : row ∈ r'.seen := by
      rw [seen, hpages]
      apply hrow
    use row, hrow'
  have hkept : ∀ row ∈ r.system.stores.db.documents, row.ListedBefore document →
      ∃ row' ∈ r'.system.stores.db.documents, row'.id = row.id ∧ row'.createdAt = row.createdAt := by
    intro row hrow hbefore
    obtain ⟨row', hrow', hid⟩ := hretains row hrow hbefore
    exact ⟨row', hrow', hid, hs.createdAt_eq_of_step hstep hrow hrow' hid⟩
  right
  constructor
  · have hself : row.ListedBefore document := by
      apply (Document.ListedBefore.congr hid hcreated).2.mpr
      exact Or.inr ⟨rfl, BitVec.le_refl _⟩
    obtain ⟨row', hrow', hid', hcreated'⟩ := hkept row hrow hself
    exact ⟨row', hrow', hid'.trans hid, hcreated'.trans hcreated⟩
  constructor
  · rw [hpages]
    apply le_trans hrank
    apply listingRank_le
    intro row hrow hnot
    apply hkept row hrow
    rcases Std.Total.total (r := Document.ListedBefore) row document with hle | hle
    · apply hle
    · exact absurd hle hnot
  · rw [hpages]
    apply hfull

/-- A reader that comes to a page that is not full has seen every document that was there when it
began, provided that no document listed up to it was removed meanwhile. -/
theorem lists_document {s : System} {document : Document} {es : List ReadingEvent}
    (hreachable : (System.machine S).Reachable s) (hdocument : document ∈ s.stores.db.documents)
    (hrun : (machine S limit).run ⟨s, []⟩ es = some r)
    (hretained : (machine S limit).Meets (Retains S limit document) ⟨s, []⟩ es)
    (hlast : ∃ page ∈ r.pages, page.length < limit) :
  ∃ row ∈ r.seen, row.id = document.id
  := by
  have hinvariant : r.system.Sound S ∧ r.Unmissed limit document := by
    apply (machine S limit).run_induction
      (I := fun r => r.system.Sound S ∧ r.Unmissed limit document) _ _ hretained hrun
    · rintro t e t' ⟨hs, h⟩ hretains hstep
      use sound_step hs hstep
      rcases step_eq_some hstep with ⟨event, hcall, hpages⟩ | ⟨hsystem, hpages⟩
      · apply h.call hs hcall hpages (hretains t' hstep)
      · apply h.turn hsystem hpages
    · use System.Sound.of_reachable hreachable
      right
      use ⟨document, hdocument, rfl, rfl⟩
      simp
  rcases hinvariant.2 with hseen | ⟨-, -, hfull⟩
  · apply hseen
  · obtain ⟨page, hpage, hshort⟩ := hlast
    exact absurd (hfull page hpage) (not_le.mpr hshort)

/-- The listing of the sample document, which is read while its job is started. -/
def sampleTurns : List ReadingEvent :=
  [.turn, .call (.delivery 0 (.start System.sampleJobId (System.clockFrom 10) none)), .turn]

/-- The sample document is on the first page. -/
theorem lists_document_sample :
  ∃ r, (machine .sample 1).run ⟨System.sampleAfter System.sampleUpload, []⟩ sampleTurns = some r
    ∧ ∃ row ∈ r.seen, row.id = Services.sampleDocumentId
  := by
  have hreachable : (System.machine .sample).Reachable (System.sampleAfter System.sampleUpload) :=
    System.reachable_sampleAfter (by decide +kernel)
  have hrows : ((System.sampleAfter System.sampleUpload).stores.db.documents.rows.any fun document =>
      document.id = Services.sampleDocumentId
        && (machine .sample 1).Meets (Retains .sample 1 document)
          ⟨System.sampleAfter System.sampleUpload, []⟩ sampleTurns) = true := by
    decide +kernel
  obtain ⟨document, hdocument, hrow⟩ := List.any_eq_true.mp hrows
  simp only [Bool.and_eq_true, decide_eq_true_eq] at hrow
  obtain ⟨hid, hretained⟩ := hrow
  have hcheck : ((machine .sample 1).run ⟨System.sampleAfter System.sampleUpload, []⟩
      sampleTurns).any fun r => r.pages.any fun page => page.length < 1 := by
    decide +kernel
  obtain ⟨r, hrun, hlast⟩ := (Option.any_eq_true _ _).mp hcheck
  simp only [List.any_eq_true, decide_eq_true_eq] at hlast
  use r, hrun
  rw [← hid]
  apply lists_document hreachable hdocument hrun hretained hlast

/-! ### No document is found twice -/

/-- The documents that were seen differ, and none that is still there comes again on a later page. -/
structure Unrepeated (limit : ℕ) (r : Reading) : Prop where
  distinct : (r.seen.map fun row => row.id).Nodup
  past : ∀ document ∈ r.seen, ∀ row ∈ r.system.stores.db.documents, row.id = document.id →
    r.system.stores.db.listingRank row < r.pages.length * limit

/-- Reading a page brings no document that was seen before. -/
theorem Unrepeated.turn (h : r.Unrepeated limit) (hsystem : r'.system = r.system)
    (hpages : r'.pages
      = r.pages ++ [r.system.stores.db.listDocuments (r.pages.length * limit) limit]) :
  r'.Unrepeated limit
  := by
  have hseen : r'.seen
      = r.seen ++ r.system.stores.db.listDocuments (r.pages.length * limit) limit := by
    rw [seen, hpages, List.flatten_append, List.flatten_singleton, seen]
  have hlength : r'.pages.length * limit = r.pages.length * limit + limit := by
    rw [hpages, List.length_append, List.length_singleton, Nat.add_one_mul]
  constructor
  · rw [hseen, List.map_append, List.nodup_append']
    use h.distinct
    constructor
    · apply List.Nodup.map_on _ (nodup_listDocuments ..)
      intro a ha b hb hid
      apply Table.eq_of_key_eq (mem_listDocuments_iff.mp ha).1 (mem_listDocuments_iff.mp hb).1 hid
    · intro id hid hid'
      obtain ⟨document, hdocument, rfl⟩ := List.mem_map.mp hid
      obtain ⟨row, hrow, hsame⟩ := List.mem_map.mp hid'
      obtain ⟨hmem, hrank, -⟩ := mem_listDocuments_iff.mp hrow
      exact absurd (h.past document hdocument row hmem hsame) (not_lt.mpr hrank)
  · intro document hdocument row hrow hid
    rw [hsystem] at hrow ⊢
    rw [hlength]
    rw [hseen, List.mem_append] at hdocument
    rcases hdocument with hdocument | hdocument
    · apply lt_of_lt_of_le (h.past document hdocument row hrow hid) (Nat.le_add_right _ _)
    · obtain ⟨hmem, -, hrank⟩ := mem_listDocuments_iff.mp hdocument
      rw [Table.eq_of_key_eq hrow hmem hid]
      apply hrank

/-- A step of a call that adds no document brings none that was seen before to a later page. -/
theorem Unrepeated.call {event : Event} (h : r.Unrepeated limit) (hs : r.system.Sound S)
    (hstep : System.step S r.system event = some r'.system) (hpages : r'.pages = r.pages)
    (hadds : ∀ row' ∈ r'.rows, ∃ row ∈ r.rows, row.id = row'.id) :
  r'.Unrepeated limit
  := by
  have hseen : r'.seen = r.seen := by
    rw [seen, hpages, seen]
  have hearlier : ∀ row' ∈ r'.system.stores.db.documents, ∃ row ∈ r.system.stores.db.documents,
      row.id = row'.id ∧ row.createdAt = row'.createdAt := by
    intro row' hrow'
    obtain ⟨row, hrow, hid⟩ := hadds row' hrow'
    exact ⟨row, hrow, hid, (hs.createdAt_eq_of_step hstep hrow hrow' hid.symm).symm⟩
  constructor
  · rw [hseen]
    apply h.distinct
  · intro document hdocument row' hrow' hid'
    rw [hseen] at hdocument
    rw [hpages]
    obtain ⟨row, hrow, hid, hcreated⟩ := hearlier row' hrow'
    have hrank : r'.system.stores.db.listingRank row' ≤ r.system.stores.db.listingRank row' := by
      apply listingRank_le
      intro y hy _
      apply hearlier y hy
    have hsame : r.system.stores.db.listingRank row' = r.system.stores.db.listingRank row :=
      listingRank_congr hid.symm hcreated.symm
    apply lt_of_le_of_lt (hrank.trans_eq hsame)
    apply h.past document hdocument row hrow (hid.trans hid')

/-- A reader finds no document twice, provided that no document was added meanwhile. -/
theorem lists_once {s : System} {es : List ReadingEvent} (hreachable : (System.machine S).Reachable s)
    (hrun : (machine S limit).run ⟨s, []⟩ es = some r)
    (hadded : (machine S limit).Meets (AddsNone S limit) ⟨s, []⟩ es) :
  (r.seen.map fun row => row.id).Nodup
  := by
  have hinvariant : r.system.Sound S ∧ r.Unrepeated limit := by
    apply (machine S limit).run_induction (I := fun r => r.system.Sound S ∧ r.Unrepeated limit) _ _
      hadded hrun
    · rintro t e t' ⟨hs, h⟩ hadds hstep
      use sound_step hs hstep
      rcases step_eq_some hstep with ⟨event, hcall, hpages⟩ | ⟨hsystem, hpages⟩
      · apply h.call hs hcall hpages (hadds t' hstep)
      · apply h.turn hsystem hpages
    · use System.Sound.of_reachable hreachable
      constructor
      · apply List.nodup_nil
      · intro document hdocument
        cases hdocument
  apply hinvariant.2.distinct

/-- The sample document is seen once on two pages. -/
theorem lists_once_sample :
  ∃ r, (machine .sample 1).run ⟨System.sampleAfter System.sampleUpload, []⟩ sampleTurns = some r
    ∧ r.seen ≠ [] ∧ (r.seen.map fun row => row.id).Nodup
  := by
  have hreachable : (System.machine .sample).Reachable (System.sampleAfter System.sampleUpload) :=
    System.reachable_sampleAfter (by decide +kernel)
  have hcheck : ((machine .sample 1).run ⟨System.sampleAfter System.sampleUpload, []⟩
      sampleTurns).any fun r => !r.seen.isEmpty := by
    decide +kernel
  obtain ⟨r, hrun, hseen⟩ := (Option.any_eq_true _ _).mp hcheck
  use r, hrun
  constructor
  · rintro hnil
    rw [hnil] at hseen
    cases hseen
  · apply lists_once hreachable hrun (by decide +kernel)

end Reading

end KnowledgeSearch

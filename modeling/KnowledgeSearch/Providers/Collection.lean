import KnowledgeSearch.Foundations.Calls
import KnowledgeSearch.Providers.QdrantIndex

/-!
# The collection of the vector index

The methods of `QdrantVectorIndex` as the requests they make to the server, one after the other, while
other calls make theirs. Any request may fail, whether it has been carried out or not. Two things are
assumed of one that fails: it raises `ApiException` or `ResponseHandlingException`, which are the
exceptions the methods catch, and if the server carries it out it does so before the call ends.

The server keeps a collection once it has been created, refuses to create it again, and refuses vectors
that are not of its size. It orders the points of an answer and tells their similarity.

`Collection.calls_atomic` says that the calls are operations of one `VectorIndex`, and
`Collection.ensured_accepts` what a call of `ensure_collection` that returns is good for.
-/

namespace KnowledgeSearch

/-- A field of the payload that can be indexed. -/
inductive PayloadField where
  | documentId
  | mediaType
  deriving DecidableEq

structure Collection where
  /-- The size of the vectors, unless they are named. -/
  size : Option ℕ
  indexed : List PayloadField
  points : VectorIndex

/-- The methods with their arguments. -/
inductive IndexOperation where
  | ensureCollection (dimensions : ℕ)
  | upsert (document : Document) (chunks : List Chunk) (vectors : List Vector)
  | search (vector : Vector) (limit : ℤ) (filters : SearchFilters)
  | deleteDocument (documentId : Uuid)

/-- The candidates of a search, and none for the other methods. -/
abbrev IndexResult := Except AppError (List RetrievalCandidate)

/-- The request a call makes next: it asks whether the collection exists, gets its configuration,
creates it, creates the index of a field, or does what the method is for. -/
inductive IndexStage where
  | asking
  | comparing
  | creating
  | indexing (field : PayloadField)
  | acting

/-- How a request fails: whether it has been carried out, and which points it has reached. -/
structure RequestFault where
  done : Bool
  reached : Uuid → Bool

namespace Collection

/-- `create_collection`. -/
def create (dimensions : ℕ) : Collection where
  size := some dimensions
  indexed := []
  points := .empty

/-- `create_payload_index`. -/
def indexPayload (collection : Collection) (field : PayloadField) : Collection :=
  { collection with indexed := collection.indexed.insert field }

/-- The vector has the size of the collection. -/
def fits (collection : Collection) (vector : Vector) : Bool :=
  collection.size = some vector.length

/-- The points a request that fails may have stored: those of an identifier when all of them fit. -/
def stored (collection : Collection) (points : List Point) (fault : RequestFault) (id : Uuid) : Bool :=
  fault.reached id && points.all fun point => point.id ≠ id || collection.fits point.vector

/-- The points of the collection, if there is one. -/
def pointsOf : Option Collection → VectorIndex
  | none => .empty
  | some collection => collection.points

/-! ### The methods -/

/-- The collection after a request of a method, and the next request or the result. -/
abbrev Answer := Option Collection × (IndexStage ⊕ IndexResult)

/-- `QdrantVectorIndex.ensure_collection`. -/
def ensureCollection (dimensions : ℕ) :
    IndexStage → Option RequestFault → Option Collection → Answer
  | .asking, none, collection =>
      (collection, .inl (if collection.isSome then .comparing else .creating))
  | .comparing, none, some collection =>
      (some collection,
        if collection.size = some dimensions then .inl (.indexing .documentId)
        else .inr (.error
          (.vectorIndex "Existing Qdrant collection has incompatible vector dimensions.")))
  | .creating, none, none => (some (create dimensions), .inl (.indexing .documentId))
  | .creating, some fault, none =>
      (if fault.done then some (create dimensions) else none,
        .inr (.error (.vectorIndex "Qdrant collection setup failed.")))
  | .indexing .documentId, none, some collection =>
      (some (collection.indexPayload .documentId), .inl (.indexing .mediaType))
  | .indexing .mediaType, none, some collection =>
      (some (collection.indexPayload .mediaType), .inr (.ok []))
  | .indexing field, some fault, some collection =>
      (some (if fault.done then collection.indexPayload field else collection),
        .inr (.error (.vectorIndex "Qdrant collection setup failed.")))
  -- the request fails, or is refused: another call has created the collection meanwhile
  | _, _, collection => (collection, .inr (.error (.vectorIndex "Qdrant collection setup failed.")))

/-- `QdrantVectorIndex.upsert`. -/
def upsert (document : Document) (chunks : List Chunk) (vectors : List Vector)
    (fault : Option RequestFault) (collection : Option Collection) : Answer :=
  if chunks.length ≠ vectors.length then
    (collection, .inr (.error (.vectorIndex "Chunk and vector counts do not match.")))
  else
    let points := KnowledgeSearch.pointsOf document chunks vectors
    match fault, collection with
    | none, some collection =>
        if points.all fun point => collection.fits point.vector then
          (some { collection with points := collection.points.putAll points }, .inr (.ok []))
        else (some collection, .inr (.error (.vectorIndex "Qdrant vector upsert failed.")))
    | some fault, some collection =>
        let reached := points.filter fun point => collection.stored points fault point.id
        (some { collection with points := collection.points.putAll reached },
          .inr (.error (.vectorIndex "Qdrant vector upsert failed.")))
    | _, none => (none, .inr (.error (.vectorIndex "Qdrant vector upsert failed.")))

section

variable (precedes : Vector → Point → Point → Prop) [∀ vector, DecidableRel (precedes vector)]
  (similarity : Vector → Vector → Score)

/-- `QdrantVectorIndex.search`. -/
def search (vector : Vector) (limit : ℤ) (filters : SearchFilters) :
    IndexStage → Option RequestFault → Option Collection → Answer
  | .asking, none, none => (none, .inr (.ok []))
  | .asking, none, some collection => (some collection, .inl .acting)
  | .acting, none, some collection =>
      (some collection,
        .inr (if collection.fits vector then
            .ok (collection.points.search precedes similarity vector limit filters)
          else .error (.vectorIndex "Qdrant vector search failed.")))
  | _, _, collection => (collection, .inr (.error (.vectorIndex "Qdrant vector search failed.")))

/-- `QdrantVectorIndex.delete_document`. -/
def deleteDocument (documentId : Uuid) :
    IndexStage → Option RequestFault → Option Collection → Answer
  | .asking, none, none => (none, .inr (.ok []))
  | .asking, none, some collection => (some collection, .inl .acting)
  | .acting, none, some collection =>
      (some { collection with points := collection.points.deleteDocument documentId fun _ => true },
        .inr (.ok []))
  | .acting, some fault, some collection =>
      (some { collection with points := collection.points.deleteDocument documentId fault.reached },
        .inr (.error (.vectorIndex "Qdrant document cleanup failed.")))
  | _, _, collection =>
      (collection, .inr (.error (.vectorIndex "Qdrant document cleanup failed.")))

/-- The methods of `QdrantVectorIndex`. -/
def methods : Staged (Option Collection) IndexOperation IndexStage IndexResult (Option RequestFault) where
  first
    | .upsert _ _ _ => .acting
    | _ => .asking
  go
    | _, .ensureCollection dimensions, stage, fault, collection =>
        some (ensureCollection dimensions stage fault collection)
    | _, .upsert document chunks vectors, _, fault, collection =>
        some (upsert document chunks vectors fault collection)
    | _, .search vector limit filters, stage, fault, collection =>
        some (search precedes similarity vector limit filters stage fault collection)
    | _, .deleteDocument documentId, stage, fault, collection =>
        some (deleteDocument documentId stage fault collection)

end

end Collection

/-! ### The operations of the index -/

/-- The result of an operation that may fail. -/
def indexResult (fault : Option (AppError × (Uuid → Bool))) (candidates : List RetrievalCandidate) :
    IndexResult :=
  match fault with
  | none => .ok candidates
  | some f => .error f.1

/-- An operation on the index as a whole. One that fails may have been carried out in part. -/
def VectorIndex.perform (precedes : Vector → Point → Point → Prop)
    [∀ vector, DecidableRel (precedes vector)] (similarity : Vector → Vector → Score) :
    IndexOperation → Option (AppError × (Uuid → Bool)) → VectorIndex → VectorIndex × IndexResult
  | .ensureCollection _, fault, index => (index, indexResult fault [])
  | .upsert document chunks vectors, fault, index =>
      match index.upsert document chunks vectors fun id => fault.all fun f => f.2 id with
      | .error e => (index, .error e)
      | .ok index => (index, indexResult fault [])
  | .search vector limit filters, fault, index =>
      (index, indexResult fault (index.search precedes similarity vector limit filters))
  | .deleteDocument documentId, fault, index =>
      (index.deleteDocument documentId fun id => fault.all fun f => f.2 id, indexResult fault [])

namespace Collection

variable {precedes : Vector → Point → Point → Prop} [∀ vector, DecidableRel (precedes vector)]
  {similarity : Vector → Vector → Score} {collection collection' : Option Collection}

/-- An operation that fails before it has an effect. An upsert fails otherwise when the counts differ. -/
theorem perform_refuse {operation : IndexOperation} {error : AppError} {index : VectorIndex}
    (h : ∀ document chunks vectors, operation = .upsert document chunks vectors →
      chunks.length = vectors.length) :
  index.perform precedes similarity operation (some (error, fun _ => false)) = (index, .error error)
  := by
  cases operation with
  | ensureCollection | search => rfl
  | upsert document chunks vectors =>
      simp [VectorIndex.perform, VectorIndex.upsert, h document chunks vectors rfl, indexResult]
  | deleteDocument documentId =>
      have hsame : index.deleteDocument documentId (fun _ => false) = index := by
        apply Table.ext_rows
        simp [VectorIndex.deleteDocument, Table.discard]
      simp [VectorIndex.perform, indexResult, hsame]

/-- The vectors of the points have the size of the collection. -/
def Sized (collection : Option Collection) : Prop :=
  ∀ c, collection = some c → ∀ point ∈ c.points, c.fits point.vector = true

/-- The collection stays, with its size and the indexes of its payload. -/
def Grows (collection collection' : Option Collection) : Prop :=
  ∀ c, collection = some c → ∃ c', collection' = some c' ∧ c'.size = c.size ∧ c.indexed ⊆ c'.indexed

theorem Grows.refl (collection : Option Collection) :
  Grows collection collection
  := by
  intro c hc
  use c, hc, rfl
  apply List.Subset.refl

theorem Sized.of_pointsOf_eq (h : Sized collection) (hgrows : Grows collection collection')
    (hpoints : pointsOf collection' = pointsOf collection) :
  Sized collection'
  := by
  intro c' hc' point hpoint
  subst hc'
  cases collection with
  | none =>
      have hempty : c'.points = .empty := hpoints
      rw [hempty] at hpoint
      exact absurd hpoint (Table.not_mem_empty point)
  | some c =>
      obtain ⟨_, hsome, hsize, -⟩ := hgrows c rfl
      obtain rfl := Option.some.inj hsome
      have hsame : c'.points = c.points := hpoints
      rw [hsame] at hpoint
      rw [fits, hsize]
      apply h c rfl point hpoint

/-- What the answer to a request of an operation does. -/
structure Answers (precedes : Vector → Point → Point → Prop) [∀ vector, DecidableRel (precedes vector)]
    (similarity : Vector → Vector → Score) (operation : IndexOperation) (collection : Option Collection)
    (answer : Answer) : Prop where
  grows : Grows collection answer.1
  sized : Sized collection → Sized answer.1
  next : ∀ stage, answer.2 = .inl stage → pointsOf answer.1 = pointsOf collection
  last : ∀ result, answer.2 = .inr result → ∃ fault,
    (pointsOf collection).perform precedes similarity operation fault = (pointsOf answer.1, result)
  raises : ∀ error, answer.2 = .inr (.error error) → ∃ message, error = .vectorIndex message

/-- A request that leaves the points as they are. -/
theorem Answers.of_pointsOf_eq {operation : IndexOperation} {answer : Answer}
    (hgrows : Grows collection answer.1) (hpoints : pointsOf answer.1 = pointsOf collection)
    (hcounts : ∀ document chunks vectors, operation = .upsert document chunks vectors →
      chunks.length = vectors.length)
    (hresult : ∀ result, answer.2 = .inr result → (∃ message, result = .error (.vectorIndex message))
      ∨ ∃ candidates, result = .ok candidates
        ∧ (pointsOf collection).perform precedes similarity operation none
          = (pointsOf collection, .ok candidates)) :
  Answers precedes similarity operation collection answer
  := by
  constructor
  · apply hgrows
  · intro h
    apply h.of_pointsOf_eq hgrows hpoints
  · intro _ _
    apply hpoints
  · intro result h
    rw [hpoints]
    rcases hresult result h with ⟨message, rfl⟩ | ⟨candidates, rfl, hperform⟩
    · use some (.vectorIndex message, fun _ => false)
      apply perform_refuse hcounts
    · use none, hperform
  · intro error h
    rcases hresult _ h with ⟨message, hmessage⟩ | ⟨candidates, hok, -⟩
    · use message
      apply Except.error.inj hmessage
    · cases hok

theorem mem_indexed_indexPayload {c : Collection} {field : PayloadField} :
  c.indexed ⊆ (c.indexPayload field).indexed ∧ field ∈ (c.indexPayload field).indexed
  := by
  constructor
  · intro field' h
    apply List.mem_insert_of_mem h
  · apply List.mem_insert_self

theorem ensureCollection_answers (dimensions : ℕ) (stage : IndexStage) (fault : Option RequestFault) :
  Answers precedes similarity (.ensureCollection dimensions) collection
    (ensureCollection dimensions stage fault collection)
  := by
  have hanswer : ∀ {answer : Answer}, Grows collection answer.1 →
      pointsOf answer.1 = pointsOf collection →
      (∀ result, answer.2 = .inr result →
        (∃ message, result = .error (.vectorIndex message)) ∨ result = .ok []) →
      Answers precedes similarity (.ensureCollection dimensions) collection answer := by
    intro answer hgrows hpoints hresult
    apply Answers.of_pointsOf_eq hgrows hpoints
    · intro _ _ _ h
      cases h
    · intro result h
      rcases hresult result h with herror | rfl
      · apply Or.inl herror
      · right
        use [], rfl
        rfl
  have hmissing : Grows none (some (create dimensions)) := by
    rintro c ⟨⟩
  have hgrows : ∀ c field, Grows (some c) (some (indexPayload c field)) := by
    rintro c field _ ⟨⟩
    use c.indexPayload field, rfl, rfl
    apply mem_indexed_indexPayload.1
  fun_cases ensureCollection dimensions stage fault collection
  case case1 =>
    apply hanswer (Grows.refl _) rfl
    rintro _ ⟨⟩
  case case2 c =>
    apply hanswer (Grows.refl _) rfl
    intro result h
    simp only at h
    split at h
    · cases h
    · obtain rfl := Sum.inr.inj h
      left
      exact ⟨_, rfl⟩
  case case3 =>
    apply hanswer hmissing rfl
    rintro _ ⟨⟩
  case case4 f =>
    cases hdone : f.done with
    | true =>
        apply hanswer hmissing rfl
        rintro _ ⟨⟩
        left
        exact ⟨_, rfl⟩
    | false =>
        apply hanswer (Grows.refl _) rfl
        rintro _ ⟨⟩
        left
        exact ⟨_, rfl⟩
  case case5 c =>
    apply hanswer (hgrows c .documentId) rfl
    rintro _ ⟨⟩
  case case6 c =>
    apply hanswer (hgrows c .mediaType) rfl
    rintro _ ⟨⟩
    apply Or.inr rfl
  case case7 field f c =>
    cases hdone : f.done with
    | true =>
        apply hanswer (hgrows c field) rfl
        rintro _ ⟨⟩
        left
        exact ⟨_, rfl⟩
    | false =>
        apply hanswer (Grows.refl _) rfl
        rintro _ ⟨⟩
        left
        exact ⟨_, rfl⟩
  case case8 =>
    apply hanswer (Grows.refl _) rfl
    rintro _ ⟨⟩
    left
    exact ⟨_, rfl⟩

/-- The collection after points of its size have been put. -/
theorem Sized.putAll {c : Collection} {points : List Point} (h : Sized (some c))
    (hpoints : ∀ point ∈ points, c.fits point.vector = true) :
  Sized (some { c with points := c.points.putAll points })
  := by
  rintro _ ⟨⟩ point hpoint
  rcases Table.mem_of_mem_putAll hpoint with hput | hold
  · apply hpoints point hput
  · apply h c rfl point hold

theorem grows_points (c : Collection) (points : VectorIndex) :
  Grows (some c) (some { c with points })
  := by
  rintro _ ⟨⟩
  exact ⟨_, rfl, rfl, List.Subset.refl _⟩

theorem upsert_answers (document : Document) (chunks : List Chunk) (vectors : List Vector)
    (fault : Option RequestFault) :
  Answers precedes similarity (.upsert document chunks vectors) collection
    (upsert document chunks vectors fault collection)
  := by
  by_cases hcounts : chunks.length = vectors.length
  · have hrefuse : Answers precedes similarity (.upsert document chunks vectors) collection
        (collection, .inr (.error (.vectorIndex "Qdrant vector upsert failed."))) := by
      refine Answers.of_pointsOf_eq (Grows.refl collection) rfl ?_ ?_
      · rintro _ _ _ ⟨⟩
        apply hcounts
      · rintro _ ⟨⟩
        left
        exact ⟨_, rfl⟩
    simp only [upsert, hcounts, ne_eq, not_true_eq_false, if_false]
    split
    · rename_i c
      split
      · rename_i hfits
        constructor
        · apply grows_points
        · intro h
          apply h.putAll
          simpa using hfits
        · rintro _ ⟨⟩
        · rintro _ ⟨⟩
          use none
          simp [VectorIndex.perform, VectorIndex.upsert, hcounts, indexResult, pointsOf]
        · rintro _ ⟨⟩
      · apply hrefuse
    · rename_i f c
      constructor
      · apply grows_points
      · intro h
        apply h.putAll
        intro point hpoint
        obtain ⟨hmem, hstored⟩ := List.mem_filter.mp hpoint
        simp only [stored, Bool.and_eq_true, List.all_eq_true] at hstored
        simpa using hstored.2 point hmem
      · rintro _ ⟨⟩
      · rintro _ ⟨⟩
        use some (.vectorIndex "Qdrant vector upsert failed.",
          c.stored (KnowledgeSearch.pointsOf document chunks vectors) f)
        simp [VectorIndex.perform, VectorIndex.upsert, hcounts, indexResult, pointsOf]
      · rintro _ ⟨⟩
        exact ⟨_, rfl⟩
    · apply hrefuse
  · simp only [upsert, hcounts, ne_eq, not_false_eq_true, if_true]
    constructor
    · apply Grows.refl
    · apply id
    · rintro _ ⟨⟩
    · rintro _ ⟨⟩
      use none
      simp [VectorIndex.perform, VectorIndex.upsert, hcounts]
    · rintro _ ⟨⟩
      exact ⟨_, rfl⟩

/-- There is nothing to find in an index without points. -/
theorem search_empty (vector : Vector) (limit : ℤ) (filters : SearchFilters) :
  VectorIndex.search Table.empty precedes similarity vector limit filters = []
  := by
  simp [VectorIndex.search, Table.empty, rankedFrom]

theorem search_answers (vector : Vector) (limit : ℤ) (filters : SearchFilters) (stage : IndexStage)
    (fault : Option RequestFault) :
  Answers precedes similarity (.search vector limit filters) collection
    (search precedes similarity vector limit filters stage fault collection)
  := by
  have hanswer : ∀ {next : IndexStage ⊕ IndexResult},
      (∀ result, next = .inr result → (∃ message, result = .error (.vectorIndex message))
        ∨ result = .ok ((pointsOf collection).search precedes similarity vector limit filters)) →
      Answers precedes similarity (.search vector limit filters) collection (collection, next) := by
    intro next hresult
    refine Answers.of_pointsOf_eq (Grows.refl collection) rfl ?_ ?_
    · rintro _ _ _ ⟨⟩
    · intro result h
      rcases hresult result h with herror | hok
      · apply Or.inl herror
      · right
        exact ⟨_, hok, rfl⟩
  fun_cases search precedes similarity vector limit filters stage fault collection
  case case1 =>
    apply hanswer
    rintro _ ⟨⟩
    right
    rw [pointsOf, search_empty]
  case case2 c =>
    apply hanswer
    rintro _ ⟨⟩
  case case3 c =>
    apply hanswer
    rintro _ ⟨⟩
    split
    · apply Or.inr rfl
    · left
      exact ⟨_, rfl⟩
  case case4 =>
    apply hanswer
    rintro _ ⟨⟩
    left
    exact ⟨_, rfl⟩

theorem Sized.deleteDocument {c : Collection} (h : Sized (some c)) (documentId : Uuid)
    (reached : Uuid → Bool) :
  Sized (some { c with points := c.points.deleteDocument documentId reached })
  := by
  rintro _ ⟨⟩ point hpoint
  apply h c rfl point (VectorIndex.mem_deleteDocument.mp hpoint).1

theorem deleteDocument_answers (documentId : Uuid) (stage : IndexStage) (fault : Option RequestFault) :
  Answers precedes similarity (.deleteDocument documentId) collection
    (deleteDocument documentId stage fault collection)
  := by
  have hanswer : ∀ {next : IndexStage ⊕ IndexResult},
      (∀ result, next = .inr result → (∃ message, result = .error (.vectorIndex message))
        ∨ result = .ok [] ∧ pointsOf collection = .empty) →
      Answers precedes similarity (.deleteDocument documentId) collection (collection, next) := by
    intro next hresult
    refine Answers.of_pointsOf_eq (Grows.refl collection) rfl ?_ ?_
    · rintro _ _ _ ⟨⟩
    · intro result h
      rcases hresult result h with herror | ⟨hok, hempty⟩
      · apply Or.inl herror
      · right
        use [], hok
        rw [hempty]
        rfl
  fun_cases deleteDocument documentId stage fault collection
  case case1 =>
    apply hanswer
    rintro _ ⟨⟩
    apply Or.inr ⟨rfl, rfl⟩
  case case2 c =>
    apply hanswer
    rintro _ ⟨⟩
  case case3 c =>
    constructor
    · apply grows_points
    · intro h
      apply h.deleteDocument
    · rintro _ ⟨⟩
    · rintro _ ⟨⟩
      use none
      rfl
    · rintro _ ⟨⟩
  case case4 f c =>
    constructor
    · apply grows_points
    · intro h
      apply h.deleteDocument
    · rintro _ ⟨⟩
    · rintro _ ⟨⟩
      use some (.vectorIndex "Qdrant document cleanup failed.", f.reached)
      rfl
    · rintro _ ⟨⟩
      exact ⟨_, rfl⟩
  case case5 =>
    apply hanswer
    rintro _ ⟨⟩
    left
    exact ⟨_, rfl⟩

/-- What a request of any method does. -/
theorem go_answers {i : ℕ} {operation : IndexOperation} {stage : IndexStage}
    {fault : Option RequestFault} {answer : Answer}
    (h : (methods precedes similarity).go i operation stage fault collection = some answer) :
  Answers precedes similarity operation collection answer
  := by
  cases operation with
  | ensureCollection dimensions =>
      obtain rfl := Option.some.inj h
      apply ensureCollection_answers
  | upsert document chunks vectors =>
      obtain rfl := Option.some.inj h
      apply upsert_answers
  | search vector limit filters =>
      obtain rfl := Option.some.inj h
      apply search_answers
  | deleteDocument documentId =>
      obtain rfl := Option.some.inj h
      apply deleteDocument_answers

/-! ### A call of `ensure_collection` that returns -/

/-- The collection has this size, and the indexes of its payload. -/
def Ensured (dimensions : ℕ) (collection : Option Collection) : Prop :=
  ∃ c, collection = some c ∧ c.size = some dimensions ∧ ∀ field, field ∈ c.indexed

/-- What a call of `ensure_collection` has achieved when it indexes the payload. -/
def Prepared (dimensions : ℕ) (collection : Option Collection) : IndexStage → Prop
  | .indexing field => ∃ c, collection = some c ∧ c.size = some dimensions
      ∧ (field = .mediaType → PayloadField.documentId ∈ c.indexed)
  | _ => True

theorem Ensured.grows {dimensions : ℕ} (h : Ensured dimensions collection)
    (hgrows : Grows collection collection') :
  Ensured dimensions collection'
  := by
  obtain ⟨c, hc, hsize, hindexed⟩ := h
  obtain ⟨c', hc', hsize', hsubset⟩ := hgrows c hc
  use c', hc', hsize'.trans hsize
  intro field
  apply hsubset (hindexed field)

theorem Prepared.grows {dimensions : ℕ} {stage : IndexStage} (h : Prepared dimensions collection stage)
    (hgrows : Grows collection collection') :
  Prepared dimensions collection' stage
  := by
  cases stage with
  | indexing field =>
      obtain ⟨c, hc, hsize, hindexed⟩ := h
      obtain ⟨c', hc', hsize', hsubset⟩ := hgrows c hc
      use c', hc', hsize'.trans hsize
      intro hfield
      apply hsubset (hindexed hfield)
  | _ => trivial

/-- A call of `ensure_collection` indexes the payload of a collection of the right size only. -/
theorem Prepared.answer {dimensions : ℕ} {stage : IndexStage} (fault : Option RequestFault)
    (h : Prepared dimensions collection stage) :
  (∀ stage', (ensureCollection dimensions stage fault collection).2 = .inl stage' →
      Prepared dimensions (ensureCollection dimensions stage fault collection).1 stage')
    ∧ ∀ candidates, (ensureCollection dimensions stage fault collection).2 = .inr (.ok candidates) →
      Ensured dimensions (ensureCollection dimensions stage fault collection).1
  := by
  revert h
  fun_cases ensureCollection dimensions stage fault collection
  case case1 =>
    intro _
    constructor
    · rintro _ ⟨⟩
      split
      · trivial
      · trivial
    · rintro _ ⟨⟩
  case case2 c =>
    intro _
    simp only
    split
    · rename_i hsize
      constructor
      · rintro _ ⟨⟩
        exact ⟨c, rfl, hsize, by simp⟩
      · rintro _ ⟨⟩
    · constructor
      · rintro _ ⟨⟩
      · rintro _ ⟨⟩
  case case3 =>
    intro _
    constructor
    · rintro _ ⟨⟩
      exact ⟨_, rfl, rfl, by simp⟩
    · rintro _ ⟨⟩
  case case5 c =>
    rintro ⟨_, ⟨⟩, hsize, -⟩
    constructor
    · rintro _ ⟨⟩
      refine ⟨_, rfl, hsize, ?_⟩
      intro _
      apply mem_indexed_indexPayload.2
    · rintro _ ⟨⟩
  case case6 c =>
    rintro ⟨_, ⟨⟩, hsize, hindexed⟩
    constructor
    · rintro _ ⟨⟩
    · rintro _ ⟨⟩
      refine ⟨_, rfl, hsize, ?_⟩
      intro field
      cases field with
      | documentId => apply mem_indexed_indexPayload.1 (hindexed rfl)
      | mediaType => apply mem_indexed_indexPayload.2
  case case4 | case7 | case8 =>
    intro _
    constructor
    · rintro _ ⟨⟩
    · rintro _ ⟨⟩

/-! ### The calls -/

/-- The invariant of the calls that have ended. -/
structure Logged (start collection : Option Collection) (log : List (IndexOperation × IndexResult)) :
    Prop where
  sized : Sized start → Sized collection
  ensured : ∀ dimensions candidates, (.ensureCollection dimensions, .ok candidates) ∈ log →
    Ensured dimensions collection
  raises : ∀ operation error, (operation, .error error) ∈ log → ∃ message, error = .vectorIndex message

/-- The invariant of the other calls. -/
def Underway (_ : ℕ) (collection : Option Collection) : Option (IndexOperation × IndexStage) → Prop
  | some (.ensureCollection dimensions, stage) => Prepared dimensions collection stage
  | _ => True

theorem Underway.grows {i : ℕ} {call : Option (IndexOperation × IndexStage)}
    (h : Underway i collection call) (hgrows : Grows collection collection') :
  Underway i collection' call
  := by
  match call with
  | some (.ensureCollection dimensions, stage) => apply Prepared.grows h hgrows
  | none | some (.upsert _ _ _, _) | some (.search _ _ _, _) | some (.deleteDocument _, _) => trivial

/-- Nothing has been logged yet. -/
theorem holds_quiet (start : Option Collection) :
  Staged.Holds (Logged start) Underway (Staged.quiet start)
  := by
  constructor
  · constructor
    · apply id
    · intro _ _ hmem
      cases hmem
    · intro _ _ hmem
      cases hmem
  · intro i
    trivial

/-- Every request of every call keeps the invariants. -/
theorem keeps (start : Option Collection) :
  (methods precedes similarity).Keeps (Logged start) Underway
  := by
  constructor
  · intro _ _ _ operation _ _
    cases operation with
    | _ => trivial
  · intro i shared shared' log operation stage stage' fault hlogged hunderway hgo
    have h := go_answers hgo
    constructor
    · constructor
      · intro hstart
        apply h.sized (hlogged.sized hstart)
      · intro dimensions candidates hmem
        apply (hlogged.ensured dimensions candidates hmem).grows h.grows
      · apply hlogged.raises
    · cases operation with
      | ensureCollection dimensions =>
          have hnext := (Prepared.answer fault hunderway).1 stage'
          have hanswer := Option.some.inj hgo
          rw [hanswer] at hnext
          apply hnext rfl
      | _ => trivial
  · intro i shared shared' log operation stage result fault hlogged hunderway hgo
    have h := go_answers hgo
    refine ⟨⟨?_, ?_, ?_⟩, trivial⟩
    · intro hstart
      apply h.sized (hlogged.sized hstart)
    · intro dimensions candidates hmem
      rcases List.mem_append.mp hmem with hmem | hmem
      · apply (hlogged.ensured dimensions candidates hmem).grows h.grows
      · obtain ⟨rfl, rfl⟩ := Prod.mk.inj (List.mem_singleton.mp hmem)
        have hlast := (Prepared.answer fault hunderway).2 candidates
        have hanswer := Option.some.inj hgo
        rw [hanswer] at hlast
        apply hlast rfl
    · intro operation' error hmem
      rcases List.mem_append.mp hmem with hmem | hmem
      · apply hlogged.raises operation' error hmem
      · obtain ⟨rfl, rfl⟩ := Prod.mk.inj (List.mem_singleton.mp hmem)
        apply h.raises error rfl
  · intro i j shared shared' log operation stage r fault call _ _ hgo _ hother
    apply hother.grows (go_answers hgo).grows

/-- The calls take their effect with their last requests. -/
theorem atomic (start : Option Collection) :
  (methods precedes similarity).Atomic (Logged start) Underway (VectorIndex.perform precedes similarity)
    pointsOf
  := by
  constructor
  · intro i shared shared' log operation stage stage' fault _ _ hgo
    apply (go_answers hgo).next stage' rfl
  · intro i shared shared' log operation stage result fault _ _ hgo
    apply (go_answers hgo).last result rfl

/-- However the requests of the calls interleave, fail, or are carried out in part, the calls that have
ended are operations of one index, performed one after the other in the order in which they ended; and
those that raise, raise errors of the index. -/
theorem calls_atomic {s : Staged.State (Option Collection) IndexOperation IndexStage IndexResult}
    (hs : ((methods precedes similarity).machine collection).Reachable s) :
  Staged.Replays (VectorIndex.perform precedes similarity) (pointsOf collection) s.log (pointsOf s.shared)
    ∧ ∀ operation error, (operation, .error error) ∈ s.log → ∃ message, error = .vectorIndex message
  := by
  constructor
  · apply (atomic collection).replays (keeps collection) (holds_quiet collection) hs
  · apply ((keeps collection).of_reachable (holds_quiet collection) hs).shared.raises

/-- Once a call of `ensure_collection` has returned, the collection has its dimensions and both indexes
for good, no call for other dimensions returns, all points have vectors of these dimensions, and an upsert of
such vectors raises only if its request fails. -/
theorem ensured_accepts {s : Staged.State (Option Collection) IndexOperation IndexStage IndexResult}
    {dimensions : ℕ} {candidates : List RetrievalCandidate} (hsized : Sized collection)
    (hs : ((methods precedes similarity).machine collection).Reachable s)
    (hensured : (.ensureCollection dimensions, .ok candidates) ∈ s.log) :
  (∃ c, s.shared = some c ∧ c.size = some dimensions ∧ (∀ field, field ∈ c.indexed)
      ∧ ∀ point ∈ c.points, point.vector.length = dimensions)
    ∧ (∀ dimensions' candidates', (.ensureCollection dimensions', .ok candidates') ∈ s.log →
      dimensions' = dimensions)
    ∧ ∀ i document chunks vectors stage, s.calls i = some (.upsert document chunks vectors, stage) →
      chunks.length = vectors.length → (∀ vector ∈ vectors, vector.length = dimensions) →
      ∃ s', (methods precedes similarity).step s (.go i none) = some s'
        ∧ s'.log = s.log ++ [(.upsert document chunks vectors, .ok [])]
        ∧ pointsOf s'.shared
          = (pointsOf s.shared).putAll (KnowledgeSearch.pointsOf document chunks vectors)
  := by
  have h := ((keeps collection).of_reachable (holds_quiet collection) hs).shared
  obtain ⟨c, hc, hsize, hindexed⟩ := h.ensured dimensions candidates hensured
  refine ⟨⟨c, hc, hsize, hindexed, ?_⟩, ?_, ?_⟩
  · intro point hpoint
    have hfits := h.sized hsized c hc point hpoint
    simpa [fits, hsize, eq_comm] using hfits
  · intro dimensions' candidates' hmem
    obtain ⟨c', hc', hsize', -⟩ := h.ensured dimensions' candidates' hmem
    obtain rfl := Option.some.inj (hc.symm.trans hc')
    apply Option.some.inj (hsize'.symm.trans hsize)
  · intro i document chunks vectors stage hcall hcounts hvectors
    have hfits : (KnowledgeSearch.pointsOf document chunks vectors).all
        (fun point => c.fits point.vector) = true := by
      rw [List.all_eq_true]
      intro point hpoint
      obtain ⟨chunk, -, vector, hvector, rfl⟩ := mem_pointsOf hpoint
      simp [fits, hsize, pointOf, hvectors vector hvector]
    have hupsert : upsert document chunks vectors none s.shared
        = (some { c with points := c.points.putAll (KnowledgeSearch.pointsOf document chunks vectors) },
          .inr (.ok [])) := by
      simp [upsert, hcounts, hc, hfits]
    refine ⟨s.settle i (.upsert document chunks vectors) (upsert document chunks vectors none s.shared),
      ?_, ?_, ?_⟩
    · simp only [Staged.step, hcall]
      rfl
    · rw [hupsert]
      rfl
    · rw [hupsert, hc]
      rfl

/-! ### A race for the collection -/

def sampleMethods : Staged (Option Collection) IndexOperation IndexStage IndexResult (Option RequestFault) :=
  methods (fun _ a b => a.id ≤ b.id) fun _ _ => 1

/-- An upsert of one chunk. -/
def sampleUpsert : IndexOperation :=
  .upsert
    ⟨{ id := 1
       originalFilename := ['a']
       storageKey := ['b']
       mediaType := .text
       sha256 := List.replicate 64 'c'
       sizeBytes := 1
       status := .processing
       createdAt := 1
       updatedAt := 1
       failureCode := none }, by decide⟩
    [⟨⟨2, 1, 0, "alpha".toList, 1, List.replicate 64 'd', ⟨⟨[], none, 2, 7⟩, by decide⟩⟩, by decide⟩]
    [[1]]

/-- Two calls find that there is no collection. The first creates it, so that the second raises. Then an
upsert begins. -/
def sampleRace : List (Staged.Event IndexOperation (Option RequestFault)) :=
  [.invoke 0 (.ensureCollection 1), .invoke 1 (.ensureCollection 1), .go 0 none, .go 1 none, .go 0 none,
    .go 1 none, .go 0 none, .go 0 none, .invoke 1 sampleUpsert]

def sampleAfterRace : Staged.State (Option Collection) IndexOperation IndexStage IndexResult :=
  ((sampleMethods.machine none).run (Staged.quiet none) sampleRace).getD (Staged.quiet none)

theorem reachable_sampleAfterRace :
  (sampleMethods.machine none).Reachable sampleAfterRace
  := by
  use Staged.quiet none, sampleRace, rfl
  rfl

theorem log_sampleAfterRace :
  sampleAfterRace.log = [(.ensureCollection 1, .error (.vectorIndex "Qdrant collection setup failed.")),
    (.ensureCollection 1, .ok [])]
  := rfl

theorem calls_atomic_sample :
  Staged.Replays (VectorIndex.perform (fun _ a b => a.id ≤ b.id) fun _ _ => 1) .empty sampleAfterRace.log
    (pointsOf sampleAfterRace.shared)
  := (calls_atomic reachable_sampleAfterRace).1

/-- The upsert goes on and returns. -/
theorem ensured_accepts_sample :
  ∃ s, sampleMethods.step sampleAfterRace (.go 1 none) = some s
    ∧ s.log = sampleAfterRace.log ++ [(sampleUpsert, .ok [])]
  := by
  have hensured : (IndexOperation.ensureCollection 1, (.ok [] : IndexResult)) ∈ sampleAfterRace.log := by
    rw [log_sampleAfterRace]
    apply List.mem_cons_of_mem _ List.mem_cons_self
  have hsized : Sized none := by
    rintro _ ⟨⟩
  obtain ⟨s, hstep, hlog, -⟩ := (ensured_accepts hsized reachable_sampleAfterRace hensured).2.2 1 _ _ _
    .acting rfl rfl (by decide)
  use s, hstep, hlog

end Collection

end KnowledgeSearch

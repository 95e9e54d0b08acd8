import KnowledgeSearch.Foundations.Once
import KnowledgeSearch.Providers.QdrantIndex

/-!
# The embedding provider

`FastEmbedProvider.embed_documents`, called by any number of threads at once. The model is made by the
first call that has texts to embed; what it makes of texts is not part of the repository, and neither is
whether making it succeeds.

`Embedding.one_model` says that all calls use one model and return vectors that fit the collection, and
`Embedding.calls_complete` that no call blocks another for good.
-/

namespace KnowledgeSearch

/-- What the model makes of texts, if it does not raise. -/
abbrev Embed (M : Type) := M → List Text → Option (List Vector)

/-- The end of `embed_documents`: the checks of the vectors, if the model has not raised. -/
def checkVectors (dimensions : ℕ) (texts : List Text) :
    Option (List Vector) → Except AppError (List Vector)
  | none => .error (.embedding "Local embedding inference failed.")
  | some vectors =>
      if vectors.length ≠ texts.length then
        .error (.embedding "Embedding provider returned an unexpected vector count.")
      else if vectors.any fun vector => vector.length ≠ dimensions then
        .error (.embedding "Embedding dimensions do not match the configured collection.")
      else .ok vectors

theorem checkVectors_eq_ok {dimensions : ℕ} {texts : List Text} {output : Option (List Vector)}
    {vectors : List Vector} (h : checkVectors dimensions texts output = .ok vectors) :
  output = some vectors ∧ vectors.length = texts.length ∧ ∀ vector ∈ vectors, vector.length = dimensions
  := by
  cases output with
  | none => cases h
  | some output =>
      simp only [checkVectors] at h
      split at h
      · cases h
      rename_i hlength
      split at h
      · cases h
      rename_i hdimensions
      obtain rfl := Except.ok.inj h
      use rfl, not_not.mp hlength
      simpa using hdimensions

theorem checkVectors_eq_error {dimensions : ℕ} {texts : List Text} {output : Option (List Vector)}
    {error : AppError} (h : checkVectors dimensions texts output = .error error) :
  ∃ message, error = .embedding message
  := by
  unfold checkVectors at h
  split at h
  · exact ⟨_, (Except.error.inj h).symm⟩
  split at h
  · exact ⟨_, (Except.error.inj h).symm⟩
  split at h
  · exact ⟨_, (Except.error.inj h).symm⟩
  · cases h

/-- Where a call of `embed_documents` stands. -/
inductive EmbedCall where
  | idle
  | loading (texts : List Text)
  | returned (texts : List Text) (vectors : List Vector)
  | raised (error : AppError)

/-- The model with its lock and the calls of `_get_model`, and the calls of `embed_documents` they belong
to. -/
structure Embedding (M : Type) where
  model : Once M
  calls : ℕ → EmbedCall

/-- A step of a call: it begins, takes a step of `_get_model` in which making the model may succeed, or
uses the model. -/
inductive EmbedEvent (M : Type) where
  | begin (call : ℕ) (texts : List Text)
  | load (call : ℕ) (outcome : Option M)
  | infer (call : ℕ)

namespace Embedding

variable {M : Type}

section

variable (dimensions : ℕ) (embed : Embed M)

/-- The output of the model in `embed_documents` once `_get_model` has ended. -/
def output (texts : List Text) : Once.Caller M → Option (Option (List Vector))
  | .returned (some model) => some (embed model texts)
  | .returned none | .raised => some none
  | _ => none

/-- A step. -/
def step (e : Embedding M) : EmbedEvent M → Option (Embedding M)
  | .begin i texts =>
      match e.calls i with
      | .loading _ => none
      | _ =>
          if texts.isEmpty then some { e with calls := Function.update e.calls i (.returned [] []) }
          else do
            let model ← e.model.step (i, none)
            some { model, calls := Function.update e.calls i (.loading texts) }
  | .load i outcome =>
      if (e.model.callers i).Underway then do
        let model ← e.model.step (i, outcome)
        some { e with model }
      else none
  | .infer i =>
      match e.calls i with
      | .loading texts => do
          let output ← output embed texts (e.model.callers i)
          match checkVectors dimensions texts output with
          | .ok vectors => some { e with calls := Function.update e.calls i (.returned texts vectors) }
          | .error error => some { e with calls := Function.update e.calls i (.raised error) }
      | _ => none

def initial : Embedding M where
  model := .initial
  calls := fun _ => .idle

/-- The machine of the calls. -/
def machine : Machine (Embedding M) (EmbedEvent M) where
  Start e := e = initial
  step := step dimensions embed

end

/-- What a call that stands there has to do with the model. -/
def Fits (dimensions : ℕ) (embed : Embed M) (model : Once M) (i : ℕ) : EmbedCall → Prop
  | .returned texts vectors => ¬ (model.callers i).Underway ∧ vectors.length = texts.length
      ∧ (∀ vector ∈ vectors, vector.length = dimensions)
      ∧ (texts ≠ [] → ∃ m, model.made = [m] ∧ embed m texts = some vectors)
  | .idle | .raised _ => ¬ (model.callers i).Underway
  | .loading _ => model.callers i ≠ .idle

/-- The invariant of the calls. -/
structure Sound (dimensions : ℕ) (embed : Embed M) (e : Embedding M) : Prop where
  model : e.model.Sound
  fits : ∀ i, Fits dimensions embed e.model i (e.calls i)

variable {dimensions : ℕ} {embed : Embed M} {e e' : Embedding M}

/-- A step of `_get_model` of another call. -/
theorem Fits.other {model model' : Once M} {i j : ℕ} {outcome : Option M} {call : EmbedCall}
    (h : Fits dimensions embed model j call) (hmodel : model.Sound)
    (hstep : model.step (i, outcome) = some model') (hj : j ≠ i) :
  Fits dimensions embed model' j call
  := by
  have hsame : model'.callers j = model.callers j := Once.callers_of_step hstep hj
  cases call with
  | idle | raised | loading =>
      rw [Fits, hsame]
      apply h
  | returned texts vectors =>
      obtain ⟨hended, hlength, hdimensions, hmade⟩ := h
      rw [Fits, hsame]
      refine ⟨hended, hlength, hdimensions, ?_⟩
      intro htexts
      obtain ⟨m, hm, hembed⟩ := hmade htexts
      exact ⟨m, hmodel.made_of_step hstep hm, hembed⟩

/-- A call that has begun has not ended. -/
theorem Sound.loading (h : e.Sound dimensions embed) {i : ℕ} (hi : (e.model.callers i).Underway) :
  ∃ texts, e.calls i = .loading texts
  := by
  have hfits := h.fits i
  cases hcall : e.calls i with
  | loading texts => use texts
  | idle | raised =>
      rw [hcall] at hfits
      exact absurd hi hfits
  | returned =>
      rw [hcall] at hfits
      exact absurd hi hfits.1

/-- Every step preserves the invariant. -/
theorem Sound.step (h : e.Sound dimensions embed) {event : EmbedEvent M}
    (hstep : Embedding.step dimensions embed e event = some e') :
  e'.Sound dimensions embed
  := by
  cases event with
  | begin i texts =>
      simp only [Embedding.step] at hstep
      split at hstep
      · cases hstep
      rename_i hnot
      have hended : ¬ (e.model.callers i).Underway := by
        intro hi
        obtain ⟨texts, htexts⟩ := h.loading hi
        apply hnot texts htexts
      split at hstep
      · cases hstep
        use h.model
        apply (Function.forall_update_iff e.calls (Fits dimensions embed e.model)).mpr
        constructor
        · exact ⟨hended, rfl, by simp, fun hne => absurd rfl hne⟩
        · intro j _
          apply h.fits j
      · obtain ⟨model, hmodel, hstep⟩ := Option.bind_eq_some_iff.mp hstep
        cases hstep
        use h.model.step hmodel
        apply (Function.forall_update_iff e.calls (Fits dimensions embed model)).mpr
        constructor
        · apply Once.ne_idle_of_step hmodel
        · intro j hj
          apply (h.fits j).other h.model hmodel hj
  | load i outcome =>
      simp only [Embedding.step] at hstep
      split at hstep
      · rename_i hi
        obtain ⟨model, hmodel, hstep⟩ := Option.bind_eq_some_iff.mp hstep
        cases hstep
        use h.model.step hmodel
        intro j
        by_cases hj : j = i
        · subst hj
          obtain ⟨texts, htexts⟩ := h.loading hi
          simp only [htexts]
          apply Once.ne_idle_of_step hmodel
        · apply (h.fits j).other h.model hmodel hj
      · cases hstep
  | infer i =>
      simp only [Embedding.step] at hstep
      split at hstep
      · rename_i texts hcall
        obtain ⟨output, houtput, hstep⟩ := Option.bind_eq_some_iff.mp hstep
        have hended : ¬ (e.model.callers i).Underway := by
          intro hi
          cases hcaller : e.model.callers i with
          | idle | returned | raised =>
              rw [hcaller] at hi
              cases hi
          | _ =>
              rw [hcaller] at houtput
              cases houtput
        split at hstep
        · rename_i vectors hvectors
          cases hstep
          obtain ⟨rfl, hlength, hdimensions⟩ := checkVectors_eq_ok hvectors
          use h.model
          apply (Function.forall_update_iff e.calls (Fits dimensions embed e.model)).mpr
          constructor
          · refine ⟨hended, hlength, hdimensions, ?_⟩
            intro _
            obtain ⟨m, hm, hembed⟩ : ∃ m, e.model.callers i = .returned (some m)
                ∧ embed m texts = some vectors := by
              cases hcaller : e.model.callers i with
              | returned result =>
                  cases result with
                  | none =>
                      rw [hcaller] at houtput
                      cases houtput
                  | some m =>
                      rw [hcaller] at houtput
                      exact ⟨m, rfl, Option.some.inj houtput⟩
              | _ =>
                  rw [hcaller] at houtput
                  cases houtput
            obtain ⟨m', hsome, hmade⟩ := h.model.returned_eq hm
            obtain rfl := Option.some.inj hsome
            exact ⟨m, hmade, hembed⟩
          · intro j _
            apply h.fits j
        · cases hstep
          use h.model
          apply (Function.forall_update_iff e.calls (Fits dimensions embed e.model)).mpr
          constructor
          · apply hended
          · intro j _
            apply h.fits j
      · cases hstep

theorem Sound.of_reachable (h : (machine dimensions embed).Reachable e) :
  e.Sound dimensions embed
  := by
  apply h.induction
  · rintro e rfl
    use Once.Sound.of_reachable ⟨Once.initial, [], rfl, rfl⟩
    intro i
    apply id
  · intro e event e' he hstep
    apply he.step hstep

/-- However the calls of `embed_documents` interleave, one model is made at most, and what a call returns
is what that model makes of its texts: as many vectors as texts, each of the dimensions of the
collection. -/
theorem one_model (hreachable : (machine dimensions embed).Reachable e) :
  e.model.made.length ≤ 1
    ∧ ∀ i texts vectors, e.calls i = .returned texts vectors →
      vectors.length = texts.length ∧ (∀ vector ∈ vectors, vector.length = dimensions)
        ∧ (texts ≠ [] → ∃ m, e.model.made = [m] ∧ embed m texts = some vectors)
  := by
  have h := Sound.of_reachable hreachable
  use h.model.length_made_le
  intro i texts vectors hcall
  have hfits := h.fits i
  rw [hcall] at hfits
  apply hfits.2

/-- A model that gives every text a vector of one number. -/
def sampleEmbed : Embed Unit :=
  fun _ texts => some (texts.map fun _ => [1])

/-- Two calls find no model, the first makes it and the second waits for it. -/
def sampleRace : List (EmbedEvent Unit) :=
  [.begin 0 ["alpha".toList], .begin 1 ["beta".toList], .load 0 none, .load 0 none]

/-- The rest of both calls. -/
def sampleRaceEnd : List (EmbedEvent Unit) :=
  [.load 0 (some ()), .load 0 none, .load 0 none, .load 1 none, .load 1 none, .load 1 none, .load 1 none,
    .infer 1]

def sampleAfterRace (es : List (EmbedEvent Unit)) : Embedding Unit :=
  ((machine 1 sampleEmbed).run initial es).getD initial

theorem reachable_sampleAfterRace {es : List (EmbedEvent Unit)}
    (h : ((machine 1 sampleEmbed).run initial es).isSome = true) :
  (machine 1 sampleEmbed).Reachable (sampleAfterRace es)
  := by
  obtain ⟨e, he⟩ := Option.isSome_iff_exists.mp h
  use initial, es, rfl
  rw [sampleAfterRace, he]
  rfl

/-- The second call has used the model of the first one. -/
theorem one_model_sample :
  (sampleAfterRace (sampleRace ++ sampleRaceEnd)).model.made.length ≤ 1
    ∧ (sampleAfterRace (sampleRace ++ sampleRaceEnd)).model.made = [()]
  := by
  have hreachable : (machine 1 sampleEmbed).Reachable (sampleAfterRace (sampleRace ++ sampleRaceEnd)) :=
    reachable_sampleAfterRace rfl
  obtain ⟨hmade, hcalls⟩ := one_model hreachable
  use hmade
  obtain ⟨m, hm, -⟩ := (hcalls 1 ["beta".toList] [[1]] rfl).2.2 (List.cons_ne_nil _ _)
  apply hm

/-! ### Completing a call -/

/-- The step is one of a call that has begun, and making the model succeeds in it. -/
def EmbedEvent.Continues (m : M) (e : Embedding M) : EmbedEvent M → Prop
  | .begin _ _ => False
  | .load i outcome => (∃ texts, e.calls i = .loading texts) ∧ outcome = some m
  | .infer _ => True

/-- Steps of `_get_model` of calls that have begun. -/
theorem Sound.lift {m : M} : ∀ {es : List (ℕ × Option M)} {e : Embedding M} {model : Once M},
    e.Sound dimensions embed → Once.machine.run e.model es = some model →
    Once.machine.Meets (Once.Succeeds m) e.model es →
    (machine dimensions embed).run e (es.map fun label => .load label.1 label.2) = some { e with model }
      ∧ (machine dimensions embed).Meets (EmbedEvent.Continues m) e
        (es.map fun label => .load label.1 label.2)
  | [], e, model, _, hrun, _ => by
      cases hrun
      exact ⟨rfl, trivial⟩
  | (i, outcome) :: es, e, model, h, hrun, ⟨⟨hi, houtcome⟩, hmeets⟩ => by
      obtain ⟨model₁, hmodel, hrun⟩ := Once.machine.run_cons_iff.mp hrun
      have hstep : Embedding.step dimensions embed e (.load i outcome) = some { e with model := model₁ } := by
        have honce : e.model.step (i, outcome) = some model₁ := hmodel
        have hunderway : (e.model.callers i).Underway := hi
        simp only [Embedding.step, hunderway, if_true, honce]
        rfl
      obtain ⟨hrun', hmeets'⟩ := (h.step hstep).lift hrun (hmeets model₁ hmodel)
      constructor
      · exact (machine dimensions embed).run_cons_iff.mpr ⟨_, hstep, hrun'⟩
      · refine ⟨⟨h.loading hi, houtcome⟩, ?_⟩
        intro e₁ hstep₁
        obtain rfl := Option.some.inj (hstep.symm.trans hstep₁)
        apply hmeets'

/-- The end of a call whose call of `_get_model` has ended. -/
theorem infer_eq_some {i : ℕ} {texts : List Text} (hcall : e.calls i = .loading texts)
    (hidle : e.model.callers i ≠ .idle) (hended : ¬ (e.model.callers i).Underway) :
  ∃ e', Embedding.step dimensions embed e (.infer i) = some e'
    ∧ ((∃ vectors, e'.calls i = .returned texts vectors)
      ∨ ∃ message, e'.calls i = .raised (.embedding message))
  := by
  obtain ⟨output, houtput⟩ : ∃ output, Embedding.output embed texts (e.model.callers i) = some output := by
    cases hcaller : e.model.callers i with
    | idle => exact absurd hcaller hidle
    | returned result =>
        cases result with
        | none | some => exact ⟨_, rfl⟩
    | raised => exact ⟨_, rfl⟩
    | _ =>
        rw [hcaller] at hended
        exact absurd trivial hended
  simp only [Embedding.step, hcall, houtput, Option.bind_eq_bind, Option.bind_some]
  cases hchecked : checkVectors dimensions texts output with
  | ok vectors =>
      exact ⟨_, rfl, Or.inl ⟨vectors, Function.update_self ..⟩⟩
  | error error =>
      obtain ⟨message, rfl⟩ := checkVectors_eq_error hchecked
      exact ⟨_, rfl, Or.inr ⟨message, Function.update_self ..⟩⟩

/-- No call of `embed_documents` blocks another for good: in every reachable state a call that has begun
can return or raise `EmbeddingError` through steps of calls that have begun, as long as making the model
succeeds from then on. -/
theorem calls_complete (hreachable : (machine dimensions embed).Reachable e) {i : ℕ} {texts : List Text}
    (hcall : e.calls i = .loading texts) (m : M) :
  ∃ (es : List (EmbedEvent M)) (e' : Embedding M), (machine dimensions embed).run e es = some e'
    ∧ (machine dimensions embed).Meets (EmbedEvent.Continues m) e es
    ∧ ((∃ vectors, e'.calls i = .returned texts vectors)
      ∨ ∃ message, e'.calls i = .raised (.embedding message))
  := by
  have h := Sound.of_reachable hreachable
  have hidle : e.model.callers i ≠ .idle := by
    have hfits := h.fits i
    rw [hcall] at hfits
    apply hfits
  obtain ⟨es, model, hrun, hmeets, hended, hidle⟩ : ∃ es model, Once.machine.run e.model es = some model
      ∧ Once.machine.Meets (Once.Succeeds m) e.model es ∧ ¬ (model.callers i).Underway
      ∧ model.callers i ≠ .idle := by
    by_cases hi : (e.model.callers i).Underway
    · obtain ⟨es, model, hrun, hmeets, hends⟩ := h.model.completes hi m
      refine ⟨es, model, hrun, hmeets, ?_⟩
      rcases hends with ⟨result, hreturned⟩ | ⟨-, hraised⟩
      · rw [hreturned]
        simp [Once.Caller.Underway]
      · rw [hraised]
        simp [Once.Caller.Underway]
    · exact ⟨[], e.model, rfl, trivial, hi, hidle⟩
  obtain ⟨hlift, hcontinues⟩ := h.lift hrun hmeets
  obtain ⟨e', hstep, hends⟩ := infer_eq_some (e := { e with model }) hcall hidle hended
  refine ⟨(es.map fun label => .load label.1 label.2) ++ [.infer i], e', ?_, ?_, hends⟩
  · apply (machine dimensions embed).run_append_iff.mpr
    exact ⟨_, hlift, (machine dimensions embed).run_cons_iff.mpr ⟨e', hstep, rfl⟩⟩
  · apply ((machine dimensions embed).meets_append_iff hlift).mpr
    exact ⟨hcontinues, trivial, fun _ _ => trivial⟩

/-- The second call completes although it waits for the first one. -/
theorem calls_complete_sample :
  ∃ (es : List (EmbedEvent Unit)) (e' : Embedding Unit),
    (machine 1 sampleEmbed).run (sampleAfterRace sampleRace) es = some e'
    ∧ (machine 1 sampleEmbed).Meets (EmbedEvent.Continues ()) (sampleAfterRace sampleRace) es
    ∧ ((∃ vectors, e'.calls 1 = .returned ["beta".toList] vectors)
      ∨ ∃ message, e'.calls 1 = .raised (.embedding message))
  := calls_complete (reachable_sampleAfterRace rfl) rfl ()

end Embedding

end KnowledgeSearch

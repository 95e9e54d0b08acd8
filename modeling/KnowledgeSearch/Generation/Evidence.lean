import KnowledgeSearch.Domain.Json

/-!
# The evidence of an answer

`_evidence_message`, the text of the sources an answer is generated from. A source is a numbered
header line and its excerpt, and there is an empty line between the sources. Nothing is escaped.

An excerpt may imitate the header of the source after it, which is then found in it
(`Imitates`, `Forged`). Among lists of sources that do not do that the message determines the
excerpts, and for every list that does there is another with the same message.
-/

namespace KnowledgeSearch

/-- The text for a field a source does not have. -/
def unspecified : Text :=
  "unspecified".toList

/-- `' > '.join(section_path) or 'unspecified'`. -/
def sectionText (sectionPath : List Text) : Text :=
  let joined := " > ".toList.intercalate sectionPath
  if joined.isEmpty then unspecified else joined

/-- `page_number or 'unspecified'`. -/
def pageText : Option ℤ → Text
  | none => unspecified
  | some n => if n = 0 then unspecified else jsonNumber n

/-- The first line of a source. -/
def sourceHeader (number : ℕ) (citation : CitationFields) : Text :=
  '[' :: (decimalText number ++ "] Document: ".toList ++ citation.originalFilename
    ++ "; section: ".toList ++ sectionText citation.sectionPath
    ++ "; page: ".toList ++ pageText citation.pageNumber)

/-- The sources, numbered from `number` on. -/
def evidence (number : ℕ) (citations : List Citation) : Text :=
  "\n\n".toList.intercalate ((citations.zipIdx number).map fun source =>
    sourceHeader source.2 source.1.toCitationFields ++ '\n' :: source.1.excerpt)

/-- `_evidence_message`. -/
def evidenceMessage (question : Text) (citations : List Citation) : Text :=
  "Question:\n".toList ++ question ++ "\n\nEvidence:\n".toList ++ evidence 1 citations

/-- What comes after an excerpt, with the sources left. -/
def following (number : ℕ) (citations : List Citation) : Text :=
  if citations.isEmpty then [] else '\n' :: '\n' :: evidence number citations

theorem evidence_cons (number : ℕ) (citation : Citation) (citations : List Citation) :
  evidence number (citation :: citations)
    = sourceHeader number citation.toCitationFields
      ++ '\n' :: (citation.excerpt ++ following (number + 1) citations)
  := by
  cases citations with
  | nil => simp [evidence, following]
  | cons next citations =>
      simp only [evidence, following, List.zipIdx_cons, List.map_cons, List.intercalate_cons_cons]
      simp

/-- The header of the citation is a line. -/
structure CitationFields.LineFree (fields : CitationFields) : Prop where
  originalFilename : '\n' ∉ fields.originalFilename
  sectionPath : ∀ entry ∈ fields.sectionPath, '\n' ∉ entry

instance (fields : CitationFields) : Decidable fields.LineFree :=
  decidable_of_iff ('\n' ∉ fields.originalFilename ∧ ∀ entry ∈ fields.sectionPath, '\n' ∉ entry)
    ⟨fun h => ⟨h.1, h.2⟩, fun h => ⟨h.originalFilename, h.sectionPath⟩⟩

theorem CitationFields.LineFree.not_mem_sourceHeader {fields : CitationFields} (h : fields.LineFree)
    (number : ℕ) :
  '\n' ∉ sourceHeader number fields
  := by
  have hdecimal : '\n' ∉ decimalText number := by
    intro hmem
    have hdigit := isDigit_of_mem_decimalText hmem
    revert hdigit
    decide
  have hunspecified : '\n' ∉ unspecified := by
    decide
  have hjoined : '\n' ∉ " > ".toList.intercalate fields.sectionPath := by
    apply List.not_mem_intercalate _ h.sectionPath
    decide
  have hsection : '\n' ∉ sectionText fields.sectionPath := by
    unfold sectionText
    extract_lets joined
    split
    · apply hunspecified
    · apply hjoined
  have hpage : '\n' ∉ pageText fields.pageNumber := by
    cases fields.pageNumber with
    | none => apply hunspecified
    | some n =>
        rw [pageText]
        split
        · apply hunspecified
        · apply not_mem_jsonNumber rfl (by decide)
  simp only [sourceHeader, List.mem_cons, List.mem_append, not_or]
  refine ⟨by decide, ⟨⟨⟨⟨⟨hdecimal, by decide⟩, h.originalFilename⟩, by decide⟩, hsection⟩, by decide⟩,
    hpage⟩

/-! ### Imitated headers -/

/-- In the excerpt there is, after an empty line and something that is not blank, a line that is the
header of a source with the number. What is read as the excerpt of that source, the rest and the
sources that follow, is not blank. -/
def Imitates (number : ℕ) (rest : List Citation) (excerpt : Text) : Prop :=
  ∃ (before : Text) (imitated : Citation) (after : Text),
    excerpt = before ++ '\n' :: '\n' :: (sourceHeader number imitated.toCitationFields ++ after)
    ∧ imitated.LineFree ∧ blank before = false ∧ (after = [] ∨ ∃ line, after = '\n' :: line)
    ∧ (blank after = true → rest ≠ [])

/-- An excerpt of the sources, numbered from `number` on, imitates the header of the next one. -/
inductive Forged : ℕ → List Citation → Prop
  | here {number : ℕ} {citation : Citation} {rest : List Citation}
      (h : Imitates (number + 1) rest citation.excerpt) : Forged number (citation :: rest)
  | there {number : ℕ} {citation : Citation} {rest : List Citation}
      (h : Forged (number + 1) rest) : Forged number (citation :: rest)

/-- Excerpts without an empty line do not imitate a header. -/
theorem not_forged {number : ℕ} {citations : List Citation}
    (h : ∀ citation ∈ citations, ¬ ['\n', '\n'] <:+: citation.excerpt) :
  ¬ Forged number citations
  := by
  intro hforged
  induction hforged with
  | @here number citation rest himitates =>
      obtain ⟨before, imitated, after, hexcerpt, -⟩ := himitates
      apply h citation List.mem_cons_self
      use before, sourceHeader (number + 1) imitated.toCitationFields ++ after
      rw [hexcerpt, List.append_assoc]
      rfl
  | there _ ih =>
      apply ih
      intro citation hmem
      apply h citation (List.mem_cons_of_mem _ hmem)

theorem following_cons (number : ℕ) (citation : Citation) (citations : List Citation) :
  following number (citation :: citations) = '\n' :: '\n' ::
    (sourceHeader number citation.toCitationFields
      ++ '\n' :: (citation.excerpt ++ following (number + 1) citations))
  := by
  rw [← evidence_cons]
  rfl

theorem evidence_cons_ne_nil (number : ℕ) (citation : Citation) (citations : List Citation) :
  evidence number (citation :: citations) ≠ []
  := by
  rw [evidence_cons]
  apply List.append_ne_nil_of_left_ne_nil (List.cons_ne_nil _ _)

/-- What follows is the text of the sources left. -/
theorem following_eq_iff {number : ℕ} {citations citations' : List Citation} :
  following number citations = following number citations'
    ↔ evidence number citations = evidence number citations'
  := by
  cases citations with
  | nil =>
      cases citations' with
      | nil => exact ⟨fun _ => rfl, fun _ => rfl⟩
      | cons citation' citations' =>
          exact iff_of_false (List.cons_ne_nil _ _).symm (evidence_cons_ne_nil _ _ _).symm
  | cons citation citations =>
      cases citations' with
      | nil => exact iff_of_false (List.cons_ne_nil _ _) (evidence_cons_ne_nil _ _ _)
      | cons citation' citations' =>
          simp only [following, List.isEmpty_cons, Bool.false_eq_true, if_false, List.cons.injEq,
            true_and]

theorem blank_following {number : ℕ} {citations : List Citation} (h : citations ≠ []) :
  blank (following number citations) = false
  := by
  obtain ⟨citation, citations, rfl⟩ := List.exists_cons_of_ne_nil h
  have hbracket : isSpace '[' = false := by
    decide
  rw [following_cons, sourceHeader]
  simp [hbracket]

/-- An excerpt that runs into what follows another one imitates a header. -/
theorem eq_nil_of_following_eq {number : ℕ} {before extra : Text} {citations citations' : List Citation}
    (hlines : ∀ citation ∈ citations, citation.LineFree) (hbefore : blank before = false)
    (hnot : ¬ Imitates number citations' (before ++ extra))
    (h : following number citations = extra ++ following number citations') :
  extra = []
  := by
  cases citations with
  | nil => exact (List.append_eq_nil_iff.mp h.symm).1
  | cons citation citations =>
      by_contra hextra
      apply hnot
      have hlineFree := hlines citation List.mem_cons_self
      set line := sourceHeader number citation.toCitationFields with hline
      set more := citation.excerpt ++ following (number + 1) citations with hmore
      have hmoreBlank : blank more = false := by
        rw [hmore, blank_append, citation.proper.excerpt, Bool.false_and]
      have hheader : '\n' ∉ line := hlineFree.not_mem_sourceHeader number
      rw [following_cons, ← hline, ← hmore] at h
      cases citations' with
      | nil =>
          refine ⟨before, citation, '\n' :: more, ?_, hlineFree, hbefore, Or.inr ⟨more, rfl⟩, ?_⟩
          · rw [h]
            congr 1
            exact (List.append_nil _).symm
          · intro hblank
            rw [blank_cons, hmoreBlank, Bool.and_false] at hblank
            cases hblank
      | cons citation' citations' =>
          rw [following_cons] at h
          -- The excerpt ends at the end of the header or after it: no other line of what follows is
          -- an empty one before another header.
          cases extra with
          | nil => exact absurd rfl hextra
          | cons e extra =>
              obtain ⟨rfl, hfirst⟩ := List.cons.inj h
              cases extra with
              | nil => exact absurd (List.cons.inj (List.cons.inj hfirst).2).1 (by decide)
              | cons e extra =>
                  obtain ⟨rfl, hsecond⟩ := List.cons.inj hfirst
                  obtain ⟨after, rfl, hafter⟩ :=
                    List.exists_eq_append_of_append_eq hheader hsecond
                  refine ⟨before, citation, after, rfl, hlineFree, hbefore, ?_,
                    fun _ => List.cons_ne_nil _ _⟩
                  cases after with
                  | nil => exact Or.inl rfl
                  | cons c after =>
                      right
                      use after
                      rw [(List.cons.inj hafter).1]

/-- Sources of which none is forged are determined by their text up to their fields. -/
theorem excerpts_eq_of_evidence_eq {number : ℕ} {citations citations' : List Citation}
    (hlines : ∀ citation ∈ citations, citation.LineFree)
    (hlines' : ∀ citation ∈ citations', citation.LineFree)
    (hforged : ¬ Forged number citations) (hforged' : ¬ Forged number citations')
    (h : evidence number citations = evidence number citations') :
  citations.map (fun citation => citation.excerpt) = citations'.map fun citation => citation.excerpt
  := by
  induction citations generalizing number citations' with
  | nil =>
      cases citations' with
      | nil => rfl
      | cons citation' citations' =>
          rw [evidence_cons] at h
          cases h
  | cons citation citations ih =>
      cases citations' with
      | nil =>
          rw [evidence_cons] at h
          cases h
      | cons citation' citations' =>
          obtain ⟨hline, hrest⟩ := List.forall_mem_cons.mp hlines
          obtain ⟨hline', hrest'⟩ := List.forall_mem_cons.mp hlines'
          rw [evidence_cons, evidence_cons] at h
          obtain ⟨-, h⟩ := List.eq_of_append_cons_eq (hline.not_mem_sourceHeader number)
            (hline'.not_mem_sourceHeader number) h
          have hexcerpt : citation.excerpt = citation'.excerpt := by
            rcases List.append_eq_append_iff.mp h with ⟨extra, hextra, h⟩ | ⟨extra, hextra, h⟩
            · have hnil : extra = [] := by
                apply eq_nil_of_following_eq hrest citation.proper.excerpt _ h
                rw [← hextra]
                exact fun himitates => hforged' (.here himitates)
              rw [hextra, hnil, List.append_nil]
            · have hnil : extra = [] := by
                apply eq_nil_of_following_eq hrest' citation'.proper.excerpt _ h
                rw [← hextra]
                exact fun himitates => hforged (.here himitates)
              rw [hextra, hnil, List.append_nil]
          rw [hexcerpt, List.append_cancel_left_eq] at h
          rw [List.map_cons, List.map_cons, hexcerpt]
          congr 1
          apply ih hrest hrest' (fun hf => hforged (.there hf)) (fun hf => hforged' (.there hf))
          apply following_eq_iff.mp h

/-! ### Forged sources -/

/-- A citation with another excerpt. -/
def Citation.withExcerpt (citation : Citation) (excerpt : Text) (h : blank excerpt = false) :
    Citation where
  toCitationFields := { citation.toCitationFields with excerpt := excerpt }
  valid := CitationFields.firstViolation_checks_iff.mpr
    ⟨citation.proper.originalFilename, h, citation.proper.pageNumber⟩

/-- A forged source can be read as two. -/
theorem exists_of_forged {number : ℕ} {citations : List Citation} (h : Forged number citations)
    (hlines : ∀ citation ∈ citations, citation.LineFree) :
  ∃ citations' : List Citation, (∀ citation ∈ citations', citation.LineFree)
    ∧ evidence number citations = evidence number citations'
    ∧ citations.map (fun citation => citation.excerpt)
      ≠ citations'.map fun citation => citation.excerpt
  := by
  induction h with
  | @here number citation rest h =>
      obtain ⟨before, imitated, after, hexcerpt, himitated, hbefore, hafter, hblank⟩ := h
      have hrest : ∃ read, after ++ following (number + 1) rest = '\n' :: read := by
        rcases hafter with rfl | ⟨line, rfl⟩
        · obtain ⟨next, rest, rfl⟩ := List.exists_cons_of_ne_nil (hblank rfl)
          exact ⟨_, rfl⟩
        · exact ⟨_, rfl⟩
      have hrestBlank : blank (after ++ following (number + 1) rest) = false := by
        rw [blank_append]
        cases hafterBlank : blank after with
        | false => rfl
        | true => apply blank_following (hblank hafterBlank)
      -- What is read as the excerpt of the imitated source.
      obtain ⟨read, hread⟩ := hrest
      have hspace : isSpace '\n' = true := by
        decide
      rw [hread, blank_cons, hspace, Bool.true_and] at hrestBlank
      use [citation.withExcerpt before hbefore, imitated.withExcerpt read hrestBlank]
      refine ⟨?_, ?_, ?_⟩
      · rw [List.forall_mem_cons, List.forall_mem_singleton]
        have hline := hlines citation List.mem_cons_self
        exact ⟨⟨hline.originalFilename, hline.sectionPath⟩,
          ⟨himitated.originalFilename, himitated.sectionPath⟩⟩
      · have hnil : following (number + 1 + 1) [] = [] := rfl
        rw [evidence_cons, evidence_cons, following_cons, hnil, List.append_nil, hexcerpt]
        simp only [Citation.withExcerpt, List.append_assoc, List.cons_append, hread]
        rfl
      · intro heq
        have hsame : citation.excerpt = before := (List.cons.inj heq).1
        rw [hexcerpt] at hsame
        exact List.cons_ne_nil _ _ (List.append_right_eq_self.mp hsame)
  | @there number citation rest h ih =>
      obtain ⟨hline, hrest⟩ := List.forall_mem_cons.mp hlines
      obtain ⟨rest', hrest', hevidence, hexcerpts⟩ := ih hrest
      use citation :: rest'
      refine ⟨List.forall_mem_cons.mpr ⟨hline, hrest'⟩, ?_, ?_⟩
      · rw [evidence_cons, evidence_cons, following_eq_iff.mpr hevidence]
      · rw [List.map_cons, List.map_cons]
        exact fun heq => hexcerpts (List.cons.inj heq).2

theorem evidenceMessage_eq_iff {question : Text} {citations citations' : List Citation} :
  evidenceMessage question citations = evidenceMessage question citations'
    ↔ evidence 1 citations = evidence 1 citations'
  := by
  constructor
  · intro h
    apply List.append_cancel_left h
  · apply congrArg fun text =>
      "Question:\n".toList ++ question ++ "\n\nEvidence:\n".toList ++ text

/-- If two lists of sources have the same message, they have the same excerpts. -/
def Determined (question : Text) (citations citations' : List Citation) : Prop :=
  evidenceMessage question citations = evidenceMessage question citations' →
    citations.length = citations'.length
      ∧ citations.map (fun citation => citation.excerpt)
        = citations'.map fun citation => citation.excerpt

/-- The message determines the excerpts among lists of sources whose headers are lines and of which
none is forged. For every list of sources whose headers are lines and of which one is forged there
is another one with the same message and other excerpts. -/
theorem evidenceMessage_determines (question : Text) :
  (∀ citations citations' : List Citation,
      (∀ citation ∈ citations, citation.LineFree) → (∀ citation ∈ citations', citation.LineFree) →
      ¬ Forged 1 citations → ¬ Forged 1 citations' → Determined question citations citations')
    ∧ ∀ citations : List Citation,
      (∀ citation ∈ citations, citation.LineFree) → Forged 1 citations →
      ∃ citations' : List Citation, (∀ citation ∈ citations', citation.LineFree)
        ∧ ¬ Determined question citations citations'
  := by
  constructor
  · intro citations citations' hlines hlines' hforged hforged' h
    rw [evidenceMessage_eq_iff] at h
    have hexcerpts := excerpts_eq_of_evidence_eq hlines hlines' hforged hforged' h
    have hlength := congrArg List.length hexcerpts
    rw [List.length_map, List.length_map] at hlength
    use hlength, hexcerpts
  · intro citations hlines hforged
    obtain ⟨citations', hlines', hevidence, hexcerpts⟩ := exists_of_forged hforged hlines
    use citations', hlines'
    intro hdetermined
    exact hexcerpts (hdetermined (evidenceMessage_eq_iff.mpr hevidence)).2

/-- The source with the fields given, if the constructor accepts them. -/
def sampleSource (filename : String) (sectionPath : List Text) (excerpt : String) : List Citation :=
  match Citation.construct ⟨0, 0, filename.toList, excerpt.toList, sectionPath, none⟩ with
  | .ok citation => [citation]
  | .error _ => []

/-- Two sources do not have the message of one. -/
theorem evidenceMessage_determines_sample :
  evidenceMessage [] (sampleSource "a.txt" [] "x")
    ≠ evidenceMessage [] (sampleSource "a.txt" [] "x" ++ sampleSource "b.txt" [] "y")
  := by
  intro h
  have hone : ∀ citation ∈ sampleSource "a.txt" [] "x",
      citation.LineFree ∧ ¬ ['\n', '\n'] <:+: citation.excerpt := by
    decide +kernel
  have htwo : ∀ citation ∈ sampleSource "a.txt" [] "x" ++ sampleSource "b.txt" [] "y",
      citation.LineFree ∧ ¬ ['\n', '\n'] <:+: citation.excerpt := by
    decide +kernel
  have hlength := ((evidenceMessage_determines []).1 _ _ (fun citation hmem => (hone citation hmem).1)
    (fun citation hmem => (htwo citation hmem).1)
    (not_forged fun citation hmem => (hone citation hmem).2)
    (not_forged fun citation hmem => (htwo citation hmem).2) h).1
  revert hlength
  decide +kernel

/-- An excerpt that imitates a header is read as two sources, and a file name or a heading with a
line feed is read as the beginning of the excerpt. -/
theorem not_determined_sample :
  ¬ Determined []
      (sampleSource "a.txt" []
        "x\n\n[2] Document: b.txt; section: unspecified; page: unspecified\ny")
      (sampleSource "a.txt" [] "x" ++ sampleSource "b.txt" [] "y")
    ∧ ¬ Determined []
      (sampleSource "a.txt; section: unspecified; page: unspecified\nx" [] "y")
      (sampleSource "a.txt" [] "x; section: unspecified; page: unspecified\ny")
    ∧ ¬ Determined []
      (sampleSource "a.txt" ["s; page: unspecified\nx".toList] "y")
      (sampleSource "a.txt" ["s".toList] "x; page: unspecified\ny")
  := by
  unfold Determined
  decide +kernel

end KnowledgeSearch

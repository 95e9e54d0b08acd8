import KnowledgeSearch.Errors
import KnowledgeSearch.Foundations.Table

/-!
# The file store

Files and directories below the root of the store are named by their path from the root, the
list of its components. `resolveKey` turns a storage key into such a path. The store opens and
deletes the files of its documents, whose paths are short; `Confinement` has the operating system's
limits of paths as well.

Each call of the operating system may raise; `SaveFault` and the flags of `delete` and `read`
say which one does.
-/

namespace KnowledgeSearch

/-- The contents of a file. -/
abbrev Bytes := List UInt8

/-- A file, by its path from the root. -/
structure StoredFile where
  path : List Text
  content : Bytes
  deriving DecidableEq

/-- The directories and the files below the root, the root being the directory `[]`. -/
structure FileSystem where
  directories : List (List Text)
  files : Table StoredFile.path

/-- The file system of a new store. -/
def FileSystem.initial : FileSystem where
  directories := [[]]
  files := .empty

/-- What `save` returns. -/
structure StoredDocument where
  storageKey : Text
  sha256 : Text
  sizeBytes : ℕ
  deriving DecidableEq

def mediaSuffix : DocumentMediaType → Text
  | .pdf => ".pdf".toList
  | .markdown => ".md".toList
  | .text => ".txt".toList

/-- The storage key of a document. -/
def storageKey (documentId : Uuid) (mediaType : DocumentMediaType) : Text :=
  documentId.text ++ '/' :: ("source".toList ++ mediaSuffix mediaType)

/-! ### Resolving keys -/

/-- The components of a path from the file system's root, with `.` and repeated separators
left out and `..` removing the component before it. The components already read stand in
reverse order. -/
def normalize : List Text → List Text → List Text
  | read, [] => read.reverse
  | read, part :: parts =>
      if part = [] ∨ part = ".".toList then normalize read parts
      else if part = "..".toList then normalize read.tail parts
      else normalize (part :: read) parts

/-- `LocalDocumentStore._resolve_key`: the path a storage key names, from the root of the
store. An absolute key replaces the root. -/
def resolveKey (root : List Text) (key : Text) : Except AppError (List Text) :=
  -- `Path.resolve` asks the operating system about each component it reads.
  if '\x00' ∈ key then .error (.value "embedded null byte")
  else
    let candidate :=
      normalize (if key.head? = some '/' then [] else root.reverse) (key.splitOn '/')
    if root <+: candidate ∧ candidate ≠ root then .ok (candidate.drop root.length)
    else .error (.ingestion .invalidStorageKey "Document storage key is invalid.")

/-- A name that is a component of a path of its own. -/
def isComponent (part : Text) : Bool :=
  part ≠ [] && part ≠ ".".toList && part ≠ "..".toList && !part.contains '/'
    && !part.contains '\x00'

/-! ### Operations of the file system -/

namespace FileSystem

/-- A directory or file lies strictly below a path. -/
def occupied (fs : FileSystem) (path : List Text) : Bool :=
  fs.directories.any (fun d => path.isPrefixOf d && d ≠ path)
    || fs.files.rows.any fun f => path.isPrefixOf f.path && f.path ≠ path

/-- Removing a directory, when nothing lies below it. -/
def rmdir (fs : FileSystem) (path : List Text) : FileSystem :=
  if fs.occupied path then fs
  else { fs with directories := fs.directories.filter (· ≠ path) }

/-- Removing a file, which may be missing. It fails on a directory and below a file. The path is one
the operating system does not refuse for its length. -/
def unlink (fs : FileSystem) (path : List Text) : Except AppError FileSystem :=
  if path ∈ fs.directories then .error .os
  else if fs.files.rows.any fun f => f.path.isPrefixOf path && f.path ≠ path then .error .os
  else .ok { fs with files := fs.files.erase path }

end FileSystem

/-! ### `LocalDocumentStore` -/

/-- The call of the operating system that raises during `save`. -/
inductive SaveFault where
  | mkdir
  | seek
  | open
  | read (block : ℕ)
  | write (block : ℕ)
  | fsync
  | replace
  deriving DecidableEq

/-- The bytes a source delivers, up to its first empty block. -/
def sourceBytes (source : List Bytes) : Bytes :=
  (source.takeWhile (· ≠ [])).flatten

/-- The copy loop of `save`: the bytes written once the source delivers an empty block. The
counter numbers the blocks. -/
def copyBlocks (maxBytes : ℕ) (fault : Option SaveFault) :
    ℕ → Bytes → List Bytes → Except AppError Bytes
  | count, written, [] => if fault = some (.read count) then .error .os else .ok written
  | count, written, block :: source =>
      if fault = some (.read count) then .error .os
      else if block = [] then .ok written
      else if maxBytes < written.length + block.length then
        .error (.ingestion .fileTooLarge
          ("Document exceeds the configured limit of " ++ toString maxBytes ++ " bytes."))
      else if fault = some (.write count) then .error .os
      else copyBlocks maxBytes fault (count + 1) (written ++ block) source

/-- The guarded region of `save`, from the opening of the partial file to its renaming: the
bytes the target holds at its end. -/
def guardedSave (maxBytes : ℕ) (fault : Option SaveFault) (source : List Bytes) :
    Except AppError Bytes :=
  if fault = some .open then .error .os
  else
    match copyBlocks maxBytes fault 0 [] source with
    | .error e => .error e
    | .ok content =>
        if fault = some .fsync then .error .os
        else if content = [] then
          .error (.ingestion .emptyUpload "The uploaded document is empty.")
        else if fault = some .replace then .error .os
        else .ok content

/-- `LocalDocumentStore.save`. The seek comes after the directory is made and before the
guarded region, so that the directory stays when it raises; an error inside the region
removes the partial file and the directory. -/
def FileSystem.save (fs : FileSystem) (root : List Text) (sha256 : Bytes → Text)
    (documentId : Uuid) (mediaType : DocumentMediaType) (source : List Bytes) (maxBytes : ℕ)
    (fault : Option SaveFault) : FileSystem × Except AppError StoredDocument :=
  match resolveKey root (storageKey documentId mediaType) with
  | .error e => (fs, .error e)
  | .ok target =>
      let directory := target.dropLast
      if directory ∈ fs.directories then
        (fs, .error (.ingestion .storageConflict
          "A stored document already exists for this identifier."))
      else if fault = some .mkdir then (fs, .error .os)
      else
        let made := { fs with directories := directory :: fs.directories }
        if fault = some .seek then (made, .error .os)
        else
          match guardedSave maxBytes fault source with
          | .error e => (made.rmdir directory, .error e)
          | .ok content =>
              ({ made with files := made.files.put ⟨target, content⟩ },
                .ok ⟨storageKey documentId mediaType, sha256 content, content.length⟩)

/-- `LocalDocumentStore.open` and reading the whole file. -/
def FileSystem.read (fs : FileSystem) (root : List Text) (key : Text) : Except AppError Bytes :=
  match resolveKey root key with
  | .error e => .error e
  | .ok path =>
      match fs.files.get path with
      | none => .error .os
      | some file => .ok file.content

/-- `LocalDocumentStore.delete`. -/
def FileSystem.delete (fs : FileSystem) (root : List Text) (key : Text) :
    Except AppError FileSystem :=
  match resolveKey root key with
  | .error e => .error e
  | .ok path =>
      match fs.unlink path with
      | .error e => .error e
      | .ok fs' => .ok (fs'.rmdir path.dropLast)

/-! ### Generated keys -/

theorem hexDigit_ne :
  ∀ n < 16, hexDigit n ≠ '/' ∧ hexDigit n ≠ '\x00'
  := by decide

/-- The digits of a number hold neither a separator nor U+0000. -/
theorem not_mem_hexDigits :
    ∀ {n v : ℕ}, '/' ∉ hexDigits n v ∧ '\x00' ∉ hexDigits n v
  | 0, _ => by simp [hexDigits]
  | n + 1, v => by
      have h := hexDigit_ne (v % 16) (Nat.mod_lt _ (by omega))
      have hrest := not_mem_hexDigits (n := n) (v := v / 16)
      simp only [hexDigits, List.mem_append, List.mem_singleton, not_or]
      exact ⟨⟨hrest.1, h.1.symm⟩, ⟨hrest.2, h.2.symm⟩⟩

/-- Grouping adds no character but hyphens. -/
theorem mem_of_mem_hyphenated {c : Char} (hc : c ≠ '-') :
    ∀ {ns : List ℕ} {s : Text}, c ∈ hyphenated ns s → c ∈ s
  | [], _, h => h
  | n :: ns, s, h => by
      simp only [hyphenated, List.mem_append, List.mem_cons] at h
      rcases h with h | h | h
      · apply List.mem_of_mem_take h
      · exact absurd h hc
      · apply List.mem_of_mem_drop (mem_of_mem_hyphenated hc h)

/-- A component is a nonempty name without separators or U+0000, other than `.` and `..`. -/
theorem isComponent_iff {part : Text} :
  isComponent part = true
    ↔ part ≠ [] ∧ part ≠ ".".toList ∧ part ≠ "..".toList ∧ '/' ∉ part ∧ '\x00' ∉ part
  := by
  simp only [isComponent, Bool.and_eq_true, decide_eq_true_eq, Bool.not_eq_true',
    List.contains_eq_mem, decide_eq_false_iff_not, and_assoc]

/-- The text of an identifier is a component of a path. -/
theorem isComponent_text (id : Uuid) :
  isComponent id.text = true
  := by
  have hlen := id.length_text
  have hne : ∀ s : Text, s.length ≠ 36 → id.text ≠ s := by
    intro s hs h
    rw [← h] at hs
    apply hs hlen
  rw [isComponent_iff]
  use hne _ (by decide), hne _ (by decide), hne _ (by decide)
  constructor
  · intro h
    apply (not_mem_hexDigits (n := 32)).1 (mem_of_mem_hyphenated (by decide) h)
  · intro h
    apply (not_mem_hexDigits (n := 32)).2 (mem_of_mem_hyphenated (by decide) h)

/-- A component is read as it stands. -/
theorem normalize_component {read parts : List Text} {part : Text} (h : isComponent part = true) :
  normalize read (part :: parts) = normalize (part :: read) parts
  := by
  obtain ⟨hnil, hdot, hdots, -⟩ := isComponent_iff.mp h
  rw [normalize, if_neg (not_or.mpr ⟨hnil, hdot⟩), if_neg hdots]

/-- A key of two components names the second in the directory named by the first. -/
theorem resolveKey_components {root : List Text} {a b : Text} (ha : isComponent a = true)
    (hb : isComponent b = true) :
  resolveKey root (a ++ '/' :: b) = .ok [a, b]
  := by
  obtain ⟨hanil, -, -, haslash, hanull⟩ := isComponent_iff.mp ha
  obtain ⟨-, -, -, hbslash, hbnull⟩ := isComponent_iff.mp hb
  have hnull : '\x00' ∉ a ++ '/' :: b := by
    simp [hanull, hbnull]
  have hparts : (a ++ '/' :: b).splitOn '/' = [a, b] := by
    rw [List.splitOn_append_cons_self, List.splitOn_eq_singleton haslash,
      List.splitOn_eq_singleton hbslash]
    rfl
  have hhead : (a ++ '/' :: b).head? ≠ some '/' := by
    intro h
    apply haslash
    rw [List.head?_append_of_ne_nil _ hanil] at h
    apply List.mem_of_mem_head? h
  unfold resolveKey
  rw [if_neg hnull, if_neg hhead, hparts, normalize_component ha, normalize_component hb, normalize]
  simp

/-- The name of the stored file of a media type. -/
def sourceName (mediaType : DocumentMediaType) : Text :=
  "source".toList ++ mediaSuffix mediaType

theorem isComponent_sourceName (mediaType : DocumentMediaType) :
  isComponent (sourceName mediaType) = true
  := by cases mediaType <;> decide

/-- The storage key of a document names its file in the directory of the document. -/
theorem resolveKey_storageKey (root : List Text) (id : Uuid) (mediaType : DocumentMediaType) :
  resolveKey root (storageKey id mediaType) = .ok [id.text, sourceName mediaType]
  := resolveKey_components (isComponent_text id) (isComponent_sourceName mediaType)

/-- Documents with the same stored file are equal. -/
theorem storedPath_injective {a b : Uuid} {m m' : DocumentMediaType}
    (h : [a.text, sourceName m] = [b.text, sourceName m']) :
  a = b
  := by
  apply Uuid.text_injective
  apply (List.cons.inj h).1

/-! ### What the operations do -/

/-- The copy loop writes the bytes the source delivers. -/
theorem copyBlocks_eq_ok {maxBytes : ℕ} {fault : Option SaveFault} :
    ∀ {count : ℕ} {written : Bytes} {source : List Bytes} {content : Bytes},
      copyBlocks maxBytes fault count written source = .ok content →
        content = written ++ sourceBytes source
  | count, written, [], content, h => by
      unfold copyBlocks at h
      split at h
      · cases h
      · cases h
        simp [sourceBytes]
  | count, written, block :: source, content, h => by
      unfold copyBlocks at h
      split at h
      · cases h
      split at h
      · rename_i hempty
        cases h
        simp [sourceBytes, hempty]
      rename_i hblock
      split at h
      · cases h
      split at h
      · cases h
      rw [copyBlocks_eq_ok h]
      simp [sourceBytes, hblock]

theorem guardedSave_eq_ok {maxBytes : ℕ} {fault : Option SaveFault} {source : List Bytes}
    {content : Bytes} (h : guardedSave maxBytes fault source = .ok content) :
  content = sourceBytes source
  := by
  unfold guardedSave at h
  split at h
  · cases h
  split at h
  · cases h
  rename_i copied hcopied
  split at h
  · cases h
  split at h
  · cases h
  split at h
  · cases h
  cases h
  rw [copyBlocks_eq_ok hcopied, List.nil_append]

namespace FileSystem

theorem files_rmdir (fs : FileSystem) (path : List Text) :
  (fs.rmdir path).files = fs.files
  := by
  unfold rmdir
  split <;> rfl

theorem mem_directories_rmdir {fs : FileSystem} {path dir : List Text}
    (h : dir ∈ (fs.rmdir path).directories) :
  dir ∈ fs.directories
  := by
  unfold rmdir at h
  split at h
  · apply h
  · apply List.mem_of_mem_filter h

/-- The directories of a store: the root and the directories of documents. -/
def Shallow (fs : FileSystem) : Prop :=
  ∀ dir ∈ fs.directories, dir.length ≤ 1

/-- A file system without new files, and still of one level. -/
structure Less (fs' fs : FileSystem) : Prop where
  files : ∀ f ∈ fs'.files, f ∈ fs.files
  shallow : fs.Shallow → fs'.Shallow

theorem Less.refl (fs : FileSystem) :
  fs.Less fs
  where
  files _ hf := hf
  shallow h := h

/-- A call of `save` that returns stores the bytes of the source under the generated key; one
that raises stores nothing. -/
theorem save_spec {fs fs' : FileSystem} {root : List Text} {sha256 : Bytes → Text} {id : Uuid}
    {mediaType : DocumentMediaType} {source : List Bytes} {maxBytes : ℕ}
    {fault : Option SaveFault} {result : Except AppError StoredDocument}
    (h : fs.save root sha256 id mediaType source maxBytes fault = (fs', result)) :
  (fs.Shallow → fs'.Shallow)
    ∧ ((∃ e, result = .error e ∧ fs'.files = fs.files)
      ∨ result = .ok ⟨storageKey id mediaType, sha256 (sourceBytes source),
            (sourceBytes source).length⟩
        ∧ fs'.files = fs.files.put ⟨[id.text, sourceName mediaType], sourceBytes source⟩)
  := by
  have hmade : fs.Shallow → ∀ dir ∈ [id.text] :: fs.directories, dir.length ≤ 1 := by
    intro hfs dir hdir
    rcases List.mem_cons.mp hdir with rfl | hdir
    · rfl
    · apply hfs dir hdir
  unfold save at h
  rw [resolveKey_storageKey] at h
  simp only at h
  split at h
  · obtain ⟨rfl, rfl⟩ := Prod.mk.inj h
    apply And.intro (fun hfs => hfs) (Or.inl ⟨_, rfl, rfl⟩)
  split at h
  · obtain ⟨rfl, rfl⟩ := Prod.mk.inj h
    apply And.intro (fun hfs => hfs) (Or.inl ⟨_, rfl, rfl⟩)
  split at h
  · obtain ⟨rfl, rfl⟩ := Prod.mk.inj h
    apply And.intro hmade (Or.inl ⟨_, rfl, rfl⟩)
  split at h
  · rename_i e _
    obtain ⟨rfl, rfl⟩ := Prod.mk.inj h
    constructor
    · intro hfs dir hdir
      apply hmade hfs dir (mem_directories_rmdir hdir)
    · left
      use e, rfl
      rw [files_rmdir]
  · rename_i content hcontent
    obtain ⟨rfl, rfl⟩ := Prod.mk.inj h
    obtain rfl := guardedSave_eq_ok hcontent
    apply And.intro hmade (Or.inr ⟨rfl, rfl⟩)

/-- Reading the file of a generated key. -/
theorem read_eq_ok_iff {fs : FileSystem} {root : List Text} {id : Uuid}
    {mediaType : DocumentMediaType} {content : Bytes} :
  fs.read root (storageKey id mediaType) = .ok content
    ↔ ∃ file, fs.files.get [id.text, sourceName mediaType] = some file ∧ file.content = content
  := by
  rw [read, resolveKey_storageKey]
  simp only
  cases fs.files.get [id.text, sourceName mediaType] with
  | none => simp
  | some file => simp

/-- A call of `delete` that returns removes the file of a generated key and no other. -/
theorem mem_delete {fs fs' : FileSystem} {root : List Text} {id : Uuid}
    {mediaType : DocumentMediaType} (h : fs.delete root (storageKey id mediaType) = .ok fs')
    {f : StoredFile} :
  f ∈ fs'.files ↔ f ∈ fs.files ∧ f.path ≠ [id.text, sourceName mediaType]
  := by
  unfold delete at h
  rw [resolveKey_storageKey] at h
  simp only at h
  split at h
  · cases h
  rename_i fs₁ hunlink
  cases h
  rw [files_rmdir]
  unfold unlink at hunlink
  split at hunlink
  · cases hunlink
  split at hunlink
  · cases hunlink
  cases hunlink
  apply Table.mem_erase

/-- Removing a file leaves the directories as they are, or removes some. -/
theorem shallow_delete {fs fs' : FileSystem} {root : List Text} {key : Text} (hfs : fs.Shallow)
    (h : fs.delete root key = .ok fs') :
  fs'.Shallow
  := by
  unfold delete at h
  split at h
  · cases h
  split at h
  · cases h
  rename_i path _ fs₁ hunlink
  cases h
  intro dir hdir
  have hmem := mem_directories_rmdir hdir
  unfold unlink at hunlink
  split at hunlink
  · cases hunlink
  split at hunlink
  · cases hunlink
  cases hunlink
  apply hfs dir hmem

theorem less_delete {fs fs' : FileSystem} {root : List Text} {id : Uuid}
    {mediaType : DocumentMediaType} (h : fs.delete root (storageKey id mediaType) = .ok fs') :
  fs'.Less fs
  where
  files _ hf := ((mem_delete h).mp hf).1
  shallow hfs := shallow_delete hfs h

/-- Removing the file of a generated key succeeds where all files are of generated keys. -/
theorem delete_isOk {fs : FileSystem} {root : List Text} {id : Uuid}
    {mediaType : DocumentMediaType} (hfs : fs.Shallow) (hfiles : ∀ f ∈ fs.files, f.path.length = 2) :
  ∃ fs', fs.delete root (storageKey id mediaType) = .ok fs'
  := by
  have hunlink : ∃ fs₁, fs.unlink [id.text, sourceName mediaType] = .ok fs₁ := by
    unfold unlink
    rw [if_neg, if_neg]
    · exact ⟨_, rfl⟩
    · simp only [List.any_eq_true, Bool.and_eq_true, decide_eq_true_eq, not_exists, not_and,
        not_not]
      intro f hf hprefix
      apply (List.isPrefixOf_iff_prefix.mp hprefix).eq_of_length
      rw [hfiles f hf]
      rfl
    · intro hdir
      have hlength := hfs _ hdir
      simp at hlength
  obtain ⟨fs₁, hunlink⟩ := hunlink
  unfold delete
  rw [resolveKey_storageKey]
  simp only [hunlink]
  exact ⟨_, rfl⟩

end FileSystem

end KnowledgeSearch

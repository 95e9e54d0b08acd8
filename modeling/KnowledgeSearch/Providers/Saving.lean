import KnowledgeSearch.Providers.FileTree
import Mathlib.Data.List.Infix

/-!
# Saving a document

`LocalDocumentStore.save` on the file tree of a machine, with the file it uploads to and the cleanup
of its exception handler. `SaveOutcome.Atomic` is what a call that leaves nothing behind does, and
`saveAt_atomic_iff` says which calls do. `below_saveAt` connects the calls with the store's model,
in which a file appears at once.
-/

namespace KnowledgeSearch

/-! ### The calls of the operating system -/

namespace FileSystem

/-- There is a directory or a file at the path. -/
def isEntry (fs : FileSystem) (path : List Text) : Bool :=
  fs.directories.any (· = path) || (fs.files.get path).isSome

/-- A directory is made, with those above it that are missing. -/
def mkdirs (fs : FileSystem) (path : List Text) : FileSystem :=
  let missing := path.inits.filter fun dir => fs.directories.all (· ≠ dir)
  { fs with directories := missing.reverse ++ fs.directories }

/-- A file is written on. -/
def append (fs : FileSystem) (path : List Text) (block : Bytes) : FileSystem :=
  match fs.files.get path with
  | none => fs
  | some file => { fs with files := fs.files.put ⟨path, file.content ++ block⟩ }

/-- A file takes the place of another. -/
def rename (fs : FileSystem) (path target : List Text) : FileSystem :=
  match fs.files.get path with
  | none => fs
  | some file => { fs with files := (fs.files.erase path).put ⟨target, file.content⟩ }

end FileSystem

/-! ### The call -/

/-- A call of `save` on its way, with the number of bytes it has written to files. -/
structure Saving where
  fs : FileSystem
  sizeBytes : ℕ
  /-- The bytes the digest was updated with. -/
  hashed : Bytes
  written : ℕ

/-- The copy loop of `save`, whose counter numbers the blocks. A write that raises has written the
first `reached` bytes of its block. -/
def copyLoop (uploading : List Text) (maxBytes : ℕ) (fault : Option SaveFault) (reached : ℕ) :
    ℕ → Saving → List Bytes → Saving × Option AppError
  | count, state, [] => (state, if fault = some (.read count) then some .os else none)
  | count, state, block :: source =>
      if fault = some (.read count) then (state, some .os)
      else if block = [] then (state, none)
      else
        let sizeBytes := state.sizeBytes + block.length
        if maxBytes < sizeBytes then
          ({ state with sizeBytes := sizeBytes }, some (.ingestion .fileTooLarge
            ("Document exceeds the configured limit of " ++ toString maxBytes ++ " bytes.")))
        else
          let hashed := state.hashed ++ block
          if fault = some (.write count) then
            ({ fs := state.fs.append uploading (block.take reached)
               sizeBytes := sizeBytes
               hashed := hashed
               written := state.written + (block.take reached).length }, some .os)
          else
            copyLoop uploading maxBytes fault reached (count + 1)
              { fs := state.fs.append uploading block
                sizeBytes := sizeBytes
                hashed := hashed
                written := state.written + block.length } source

/-- The path of the file a document is uploaded to. -/
def uploadingPath (target : List Text) : List Text :=
  target.dropLast ++ [target.getLast?.getD [] ++ ".uploading".toList]

/-- The guarded region of `save`, from the opening of the file it uploads to up to its renaming. -/
def guardedCopy (target : List Text) (maxBytes : ℕ) (fault : Option SaveFault) (reached : ℕ)
    (source : List Bytes) (fs : FileSystem) : Saving × Option AppError :=
  let uploading := uploadingPath target
  if fault = some .open ∨ fs.isEntry uploading then (⟨fs, 0, [], 0⟩, some .os)
  else
    let opened := { fs with files := fs.files.put ⟨uploading, []⟩ }
    match copyLoop uploading maxBytes fault reached 0 ⟨opened, 0, [], 0⟩ source with
    | (state, some e) => (state, some e)
    | (state, none) =>
        if fault = some .fsync then (state, some .os)
        else if state.sizeBytes = 0 then
          (state, some (.ingestion .emptyUpload "The uploaded document is empty."))
        else if fault = some .replace then (state, some .os)
        else ({ state with fs := state.fs.rename uploading target }, none)

/-- What a call of `save` leaves, the number of bytes it has written, and what it returns. -/
structure SaveOutcome where
  fs : FileSystem
  written : ℕ
  result : Except AppError StoredDocument

/-- The exception handler of `save`: the file is removed, and the directory if it is empty. -/
def cleanup (target : List Text) (fs : FileSystem) (e : AppError) : FileSystem × AppError :=
  match fs.unlink (uploadingPath target) with
  | .error e' => (fs, e')
  | .ok fs' => (fs'.rmdir target.dropLast, e)

/-- `LocalDocumentStore.save`, for a store in the directory `root`. The seek comes after the
directory is made and before the guarded region. -/
def FileSystem.saveAt (fs : FileSystem) (root : List Text) (sha256 : Bytes → Text)
    (documentId : Uuid) (mediaType : DocumentMediaType) (source : List Bytes) (maxBytes : ℕ)
    (fault : Option SaveFault) (reached : ℕ) : SaveOutcome :=
  match resolveKey root (storageKey documentId mediaType) with
  | .error e => ⟨fs, 0, .error e⟩
  | .ok path =>
      let target := root ++ path
      if fs.isEntry target.dropLast then
        ⟨fs, 0, .error (.ingestion .storageConflict
          "A stored document already exists for this identifier.")⟩
      else if fault = some .mkdir then ⟨fs, 0, .error .os⟩
      else
        let made := fs.mkdirs target.dropLast
        if fault = some .seek then ⟨made, 0, .error .os⟩
        else
          match guardedCopy target maxBytes fault reached source made with
          | (state, some e) =>
              let (fs', e') := cleanup target state.fs e
              ⟨fs', state.written, .error e'⟩
          | (state, none) =>
              ⟨state.fs, state.written,
                .ok ⟨storageKey documentId mediaType, sha256 state.hashed, state.sizeBytes⟩⟩

/-- A call that raises leaves everything as it is, one that returns has put the bytes of the source
into the file of the document, in a directory of its own, and has returned their number, which is
neither zero nor above the limit, and their digest; and no more bytes than the limit were written. -/
structure SaveOutcome.Atomic (fs : FileSystem) (root : List Text) (sha256 : Bytes → Text)
    (documentId : Uuid) (mediaType : DocumentMediaType) (source : List Bytes) (maxBytes : ℕ)
    (outcome : SaveOutcome) : Prop where
  raises : ∀ e, outcome.result = .error e → outcome.fs = fs
  returns : ∀ stored, outcome.result = .ok stored →
    stored = ⟨storageKey documentId mediaType, sha256 (sourceBytes source),
        (sourceBytes source).length⟩
      ∧ 0 < stored.sizeBytes ∧ stored.sizeBytes ≤ maxBytes
      ∧ outcome.fs = ⟨(root ++ [documentId.text]) :: fs.directories,
        fs.files.put ⟨root ++ [documentId.text, sourceName mediaType], sourceBytes source⟩⟩
      ∧ fs.files.get (root ++ [documentId.text, sourceName mediaType]) = none
  written_le : outcome.written ≤ maxBytes

/-! ### The copy loop -/

/-- A call on its way has copied what its digest has been updated with. -/
structure Saving.Copied (fs : FileSystem) (uploading : List Text) (maxBytes : ℕ) (state : Saving) :
    Prop where
  fs : state.fs = { fs with files := fs.files.put ⟨uploading, state.hashed⟩ }
  sizeBytes : state.sizeBytes = state.hashed.length
  written : state.written = state.hashed.length
  written_le : state.written ≤ maxBytes

/-- A call that is stopped has written some bytes, within the limit. -/
structure Saving.Stopped (fs : FileSystem) (uploading : List Text) (maxBytes : ℕ)
    (state : Saving) : Prop where
  fs : ∃ content, state.fs = { fs with files := fs.files.put ⟨uploading, content⟩ }
  written_le : state.written ≤ maxBytes

section Copying

variable {fs : FileSystem} {uploading : List Text} {maxBytes : ℕ} {state : Saving}

theorem Saving.Copied.stopped (h : state.Copied fs uploading maxBytes) :
  state.Stopped fs uploading maxBytes
  := ⟨⟨state.hashed, h.fs⟩, h.written_le⟩

variable (hnew : fs.files.get uploading = none)

include hnew

/-- A block is written on the file that is uploaded to. -/
theorem Saving.Copied.append (h : state.Copied fs uploading maxBytes) (block : Bytes) :
  state.fs.append uploading block
    = { fs with files := fs.files.put ⟨uploading, state.hashed ++ block⟩ }
  := by
  have hget : (fs.files.put ⟨uploading, state.hashed⟩).get uploading
      = some ⟨uploading, state.hashed⟩ := by
    rw [Table.get_put, if_pos rfl]
  rw [FileSystem.append, h.fs]
  simp only [hget]
  congr 1
  exact @Table.put_put _ _ _ _ fs.files ⟨uploading, state.hashed⟩ ⟨uploading, _⟩ hnew rfl

/-- The copy loop copies the source, or is stopped, as in the store's model. -/
theorem copyLoop_spec {fault : Option SaveFault} {reached count : ℕ} {source : List Bytes}
    (h : state.Copied fs uploading maxBytes) :
  ∃ state' error, copyLoop uploading maxBytes fault reached count state source = (state', error)
    ∧ state'.Stopped fs uploading maxBytes
    ∧ (error = none → state'.Copied fs uploading maxBytes)
    ∧ copyBlocks maxBytes fault count state.hashed source = error.elim (.ok state'.hashed) .error
  := by
  induction source generalizing count state with
  | nil =>
      refine ⟨_, _, rfl, h.stopped, fun _ => h, ?_⟩
      rw [copyBlocks]
      split
      · rfl
      · rfl
  | cons block source ih =>
      have hsize : state.sizeBytes + block.length = state.hashed.length + block.length := by
        rw [h.sizeBytes]
      rw [copyLoop, copyBlocks]
      split
      · exact ⟨_, _, rfl, h.stopped, fun hnone => absurd hnone (Option.some_ne_none _), rfl⟩
      split
      · exact ⟨_, _, rfl, h.stopped, fun _ => h, rfl⟩
      extract_lets sizeBytes hashed
      have hsizes : sizeBytes = state.hashed.length + block.length := hsize
      rw [hsizes]
      split
      · exact ⟨_, _, rfl, ⟨⟨state.hashed, h.fs⟩, h.written_le⟩,
          fun hnone => absurd hnone (Option.some_ne_none _), rfl⟩
      rename_i hlimit
      have hwritten : state.written + block.length ≤ maxBytes := by
        rw [h.written]
        apply not_lt.mp hlimit
      split
      · refine ⟨_, _, rfl, ⟨⟨_, h.append hnew _⟩, ?_⟩,
          fun hnone => absurd hnone (Option.some_ne_none _), rfl⟩
        have hle := List.length_take_le' reached block
        exact (Nat.add_le_add_left hle state.written).trans hwritten
      · have hcopied : Saving.Copied fs uploading maxBytes
            ⟨state.fs.append uploading block, state.hashed.length + block.length, hashed,
              state.written + block.length⟩ := by
          refine ⟨h.append hnew block, ?_, ?_, hwritten⟩
          · rw [List.length_append]
          · rw [List.length_append, h.written]
        apply ih hcopied

/-- The guarded region puts what it has copied into the target, neither empty nor too large, or is
stopped, as in the store's model. -/
theorem guardedCopy_spec {target : List Text} (htarget : uploadingPath target = uploading)
    (hentry : ¬ fs.isEntry uploading = true) (maxBytes : ℕ) (fault : Option SaveFault)
    (reached : ℕ) (source : List Bytes) :
  ∃ state error, guardedCopy target maxBytes fault reached source fs = (state, error)
    ∧ state.written ≤ maxBytes
    ∧ guardedSave maxBytes fault source = error.elim (.ok state.hashed) .error
    ∧ (∀ e, error = some e → state.fs = fs
      ∨ ∃ content, state.fs = { fs with files := fs.files.put ⟨uploading, content⟩ })
    ∧ (error = none → state.fs = { fs with files := fs.files.put ⟨target, state.hashed⟩ }
      ∧ state.sizeBytes = state.hashed.length ∧ 0 < state.sizeBytes ∧ state.sizeBytes ≤ maxBytes)
  := by
  rw [guardedCopy, guardedSave, htarget]
  extract_lets opened
  simp only [hentry, Bool.false_eq_true, or_false]
  split
  · exact ⟨_, _, rfl, Nat.zero_le _, rfl, fun _ _ => Or.inl rfl,
      fun hnone => absurd hnone (Option.some_ne_none _)⟩
  have hstart : Saving.Copied fs uploading maxBytes ⟨opened, 0, [], 0⟩ :=
    ⟨rfl, rfl, rfl, Nat.zero_le _⟩
  obtain ⟨state, error, hloop, hstopped, hcopied, hblocks⟩ :=
    @copyLoop_spec _ _ _ _ hnew fault reached 0 source hstart
  rw [hloop, hblocks]
  have hraised : ∀ e, ∃ state' error', (state, some e) = (state', error')
      ∧ state'.written ≤ maxBytes
      ∧ (Except.error e : Except AppError Bytes) = error'.elim (.ok state'.hashed) .error
      ∧ (∀ e', error' = some e' → state'.fs = fs
        ∨ ∃ content, state'.fs = { fs with files := fs.files.put ⟨uploading, content⟩ })
      ∧ (error' = none → state'.fs = { fs with files := fs.files.put ⟨target, state'.hashed⟩ }
        ∧ state'.sizeBytes = state'.hashed.length ∧ 0 < state'.sizeBytes
        ∧ state'.sizeBytes ≤ maxBytes) := by
    intro e
    exact ⟨_, _, rfl, hstopped.written_le, rfl, fun _ _ => Or.inr hstopped.fs,
      fun hnone => absurd hnone (Option.some_ne_none _)⟩
  cases error with
  | some e => apply hraised
  | none =>
      have hcopied := hcopied rfl
      have hempty : state.sizeBytes = 0 ↔ state.hashed = [] := by
        rw [hcopied.sizeBytes, List.length_eq_zero_iff]
      simp only [Option.elim_none, hempty]
      split
      · apply hraised
      split
      · apply hraised
      rename_i hsize
      split
      · apply hraised
      · have hget : (fs.files.put ⟨uploading, state.hashed⟩).get uploading
            = some ⟨uploading, state.hashed⟩ := by
          rw [Table.get_put, if_pos rfl]
        have herase : (fs.files.put ⟨uploading, state.hashed⟩).erase uploading = fs.files :=
          @Table.erase_put _ _ _ _ fs.files ⟨uploading, state.hashed⟩ hnew
        have hrename : state.fs.rename uploading target
            = { fs with files := fs.files.put ⟨target, state.hashed⟩ } := by
          rw [FileSystem.rename, hcopied.fs]
          simp only [hget, herase]
        refine ⟨_, _, rfl, hstopped.written_le, rfl, fun e hsome => ?_,
          fun _ => ⟨hrename, hcopied.sizeBytes, ?_, ?_⟩⟩
        · cases hsome
        · rw [← hempty] at hsize
          apply Nat.pos_of_ne_zero hsize
        · show state.sizeBytes ≤ maxBytes
          rw [hcopied.sizeBytes, ← hcopied.written]
          apply hcopied.written_le

end Copying

/-! ### The directory of a document -/

namespace FileTree

variable (fs : FileTree) {path : List Text}

/-- A directory that is made in another is the only one. -/
theorem mkdirs_eq (hparent : path.dropLast ∈ fs.directories) (hpath : path ∉ fs.directories) :
  fs.mkdirs path = { fs.toFileSystem with directories := path :: fs.directories }
  := by
  have hne : path ≠ [] := by
    rintro rfl
    exact hpath fs.nil_mem
  have hmissing : path.inits.filter (fun dir => fs.directories.all (· ≠ dir)) = [path] := by
    obtain ⟨above, name, rfl⟩ := List.eq_nil_or_concat path |>.resolve_left hne
    rw [List.concat_eq_append] at hparent hpath ⊢
    rw [List.dropLast_concat] at hparent
    have hthere : above.inits.filter (fun dir => fs.directories.all (· ≠ dir)) = [] := by
      apply List.filter_eq_nil_iff.mpr
      intro dir hdir hall
      have hmem := fs.mem_of_prefix hparent ((List.mem_inits _ _).mp hdir)
      have hself := List.all_eq_true.mp hall dir hmem
      simp at hself
    have hlast : (fs.directories.all fun dir => dir ≠ above ++ [name]) = true := by
      apply List.all_eq_true.mpr
      intro dir hdir
      apply decide_eq_true
      rintro rfl
      exact hpath hdir
    rw [List.inits_append, List.filter_append, hthere]
    simpa using hlast
  rw [FileSystem.mkdirs]
  simp only [hmissing, List.reverse_singleton, List.singleton_append]

/-- There is nothing below a directory that is not there. -/
theorem not_below_of_not_mem (hpath : path ∉ fs.directories) :
  (∀ dir ∈ fs.directories, ¬ Below path dir) ∧ ∀ f ∈ fs.files, ¬ Below path f.path
  := by
  constructor
  · intro dir hdir hbelow
    exact hpath (fs.mem_of_prefix hdir hbelow.1)
  · intro f hf hbelow
    exact hpath (fs.mem_of_below_file hf hbelow)

theorem isEntry_eq_false_iff {fs : FileSystem} {path : List Text} :
  fs.isEntry path = false ↔ path ∉ fs.directories ∧ fs.files.get path = none
  := by
  simp only [FileSystem.isEntry, Bool.or_eq_false_iff, List.any_eq_false, decide_eq_true_eq,
    Option.isSome_eq_false_iff, Option.isNone_iff_eq_none]
  apply and_congr_left
  intro _
  constructor
  · intro h hpath
    exact h path hpath rfl
  · rintro h dir hdir rfl
    exact h hdir

/-- A directory that was made is removed. -/
theorem rmdir_made (hpath : path ∉ fs.directories) :
  FileSystem.rmdir ⟨path :: fs.directories, fs.files⟩ path = fs.toFileSystem
  := by
  obtain ⟨hdirs, hbelow⟩ := fs.not_below_of_not_mem hpath
  have hempty : ¬ FileSystem.occupied ⟨path :: fs.directories, fs.files⟩ path = true := by
    rw [FileSystem.occupied_iff]
    rintro (⟨dir, hdir, hdirBelow⟩ | ⟨f, hf, hfBelow⟩)
    · rcases List.mem_cons.mp hdir with rfl | hdir
      · exact hdirBelow.2 rfl
      · exact hdirs dir hdir hdirBelow
    · exact hbelow f hf hfBelow
  have hfilter : (path :: fs.directories).filter (· ≠ path) = fs.directories := by
    rw [List.filter_cons_of_neg (by simp), List.filter_eq_self.mpr]
    intro dir hdir
    apply decide_eq_true
    rintro rfl
    exact hpath hdir
  rw [FileSystem.rmdir, if_neg hempty]
  simp only [hfilter]

/-- The exception handler restores the file tree. -/
theorem cleanup_eq {name : Text} (hparent : path.dropLast ∈ fs.directories)
    (hentry : fs.isEntry path = false) (e : AppError) {files : Table StoredFile.path}
    (hfiles : files = fs.files
      ∨ ∃ content, files = fs.files.put ⟨uploadingPath (path ++ [name]), content⟩) :
  cleanup (path ++ [name]) ⟨path :: fs.directories, files⟩ e = (fs.toFileSystem, e)
  := by
  obtain ⟨hpath, hnone⟩ := isEntry_eq_false_iff.mp hentry
  obtain ⟨hdirs, hbelow⟩ := fs.not_below_of_not_mem hpath
  have huploading : uploadingPath (path ++ [name]) = path ++ [name ++ ".uploading".toList] := by
    rw [uploadingPath, List.dropLast_concat, List.getLast?_concat, Option.getD_some]
  set uploading := uploadingPath (path ++ [name]) with huploadingDef
  have hlower : Below path uploading := by
    rw [huploading]
    apply below_append
    exact List.cons_ne_nil _ _
  have hget : fs.files.get uploading = none := by
    apply Table.get_eq_none_iff.mpr
    intro f hf heq
    apply hbelow f hf
    rw [heq]
    apply hlower
  have herase : files.erase uploading = fs.files := by
    rcases hfiles with rfl | ⟨content, rfl⟩
    · apply Table.erase_of_get_eq_none hget
    · exact @Table.erase_put _ _ _ _ fs.files ⟨uploading, content⟩ hget
  have hthrough : ∀ f ∈ files, ¬ Below f.path uploading := by
    have hold : ∀ f ∈ fs.files, ¬ Below f.path uploading := by
      intro f hf hfile
      have hfileAbove : f.path <+: path := by
        have hle := hfile.prefix_dropLast
        rw [huploading, List.dropLast_concat] at hle
        apply hle
      by_cases heq : path = f.path
      · exact Table.get_eq_none_iff.mp hnone f hf heq.symm
      · exact fs.not_prefix_of_file hf hparent (Below.prefix_dropLast ⟨hfileAbove, heq⟩)
    intro f hf
    rcases hfiles with rfl | ⟨content, rfl⟩
    · apply hold f hf
    · rcases Table.mem_put.mp hf with rfl | ⟨hf, -⟩
      · exact fun hself => hself.2 rfl
      · apply hold f hf
  have hunlink : FileSystem.unlink ⟨path :: fs.directories, files⟩ uploading
      = .ok ⟨path :: fs.directories, fs.files⟩ := by
    apply FileSystem.unlink_eq_ok_iff.mpr
    refine ⟨?_, hthrough, ?_⟩
    · intro hmem
      rcases List.mem_cons.mp hmem with heq | hmem
      · exact hlower.2 heq
      · exact hdirs _ hmem hlower
    · rw [herase]
  rw [cleanup, ← huploadingDef, hunlink]
  simp only
  rw [List.dropLast_concat, fs.rmdir_made hpath]

end FileTree

/-! ### Calls of `save` -/

section Refusals

variable {fs : FileSystem} {root : List Text} {documentId : Uuid} (sha256 : Bytes → Text)
  (mediaType : DocumentMediaType) (source : List Bytes) (maxBytes : ℕ) {fault : Option SaveFault}
  (reached : ℕ)

/-- The directory of the file of a document. -/
theorem dropLast_target (root : List Text) (documentId : Uuid) (mediaType : DocumentMediaType) :
  (root ++ [documentId.text, sourceName mediaType]).dropLast = root ++ [documentId.text]
  := by
  rw [List.dropLast_append_of_ne_nil (List.cons_ne_nil _ _)]
  rfl

/-- A call is refused when there is an entry at the place of the directory. -/
theorem saveAt_of_isEntry (hentry : fs.isEntry (root ++ [documentId.text]) = true) :
  fs.saveAt root sha256 documentId mediaType source maxBytes fault reached
    = ⟨fs, 0, .error (.ingestion .storageConflict
        "A stored document already exists for this identifier.")⟩
  := by
  rw [FileSystem.saveAt, resolveKey_storageKey]
  simp only [dropLast_target]
  rw [if_pos hentry]

/-- A call whose directory is not made leaves nothing behind. -/
theorem saveAt_of_mkdir (hentry : ¬ fs.isEntry (root ++ [documentId.text]) = true)
    (hmkdir : fault = some .mkdir) :
  fs.saveAt root sha256 documentId mediaType source maxBytes fault reached = ⟨fs, 0, .error .os⟩
  := by
  rw [FileSystem.saveAt, resolveKey_storageKey]
  simp only [dropLast_target]
  rw [if_neg hentry, if_pos hmkdir]

/-- A call whose seek raises leaves the directory behind. -/
theorem saveAt_of_seek (hentry : ¬ fs.isEntry (root ++ [documentId.text]) = true)
    (hseek : fault = some .seek) :
  fs.saveAt root sha256 documentId mediaType source maxBytes fault reached
    = ⟨fs.mkdirs (root ++ [documentId.text]), 0, .error .os⟩
  := by
  have hmkdir : ¬ fault = some .mkdir := by
    rw [hseek]
    exact fun heq => SaveFault.noConfusion (Option.some.inj heq)
  rw [FileSystem.saveAt, resolveKey_storageKey]
  simp only [dropLast_target]
  rw [if_neg hentry, if_neg hmkdir, if_pos hseek]

end Refusals

section Calls

variable (fs : FileTree) {root : List Text} (hroot : root ∈ fs.directories)
  (sha256 : Bytes → Text) (documentId : Uuid) (mediaType : DocumentMediaType) (source : List Bytes)
  (maxBytes : ℕ) {fault : Option SaveFault} (reached : ℕ)

include hroot

/-- What a call does that gets to the guarded region: it leaves nothing behind when that raises, and
the file of the document otherwise. -/
theorem exists_saveAt_eq (hentry : ¬ fs.isEntry (root ++ [documentId.text]) = true)
    (hmkdir : fault ≠ some .mkdir) (hseek : fault ≠ some .seek) :
  ∃ written ≤ maxBytes,
    (∀ e, guardedSave maxBytes fault source = .error e →
      fs.saveAt root sha256 documentId mediaType source maxBytes fault reached
        = ⟨fs.toFileSystem, written, .error e⟩)
    ∧ ∀ content, guardedSave maxBytes fault source = .ok content →
      0 < content.length ∧ content.length ≤ maxBytes
      ∧ fs.saveAt root sha256 documentId mediaType source maxBytes fault reached
        = ⟨⟨(root ++ [documentId.text]) :: fs.directories,
            fs.files.put ⟨root ++ [documentId.text, sourceName mediaType], content⟩⟩, written,
          .ok ⟨storageKey documentId mediaType, sha256 content, content.length⟩⟩
  := by
  set directory := root ++ [documentId.text] with hdirectory
  have htarget : root ++ [documentId.text, sourceName mediaType]
      = directory ++ [sourceName mediaType] := by
    rw [hdirectory, List.append_assoc]
    rfl
  have hparent : directory.dropLast ∈ fs.directories :=
    fs.dropLast_concat_mem hroot documentId.text
  obtain ⟨hpath, hnone⟩ := FileTree.isEntry_eq_false_iff.mp (Bool.eq_false_iff.mpr hentry)
  obtain ⟨hdirs, hbelow⟩ := fs.not_below_of_not_mem hpath
  set made : FileSystem := ⟨directory :: fs.directories, fs.files⟩ with hmade
  have hmkdirs : fs.mkdirs directory = made := fs.mkdirs_eq hparent hpath
  have hlower : Below directory (uploadingPath (directory ++ [sourceName mediaType])) := by
    rw [uploadingPath, List.dropLast_concat]
    apply below_append (List.cons_ne_nil _ _)
  have hget : made.files.get (uploadingPath (directory ++ [sourceName mediaType])) = none := by
    apply Table.get_eq_none_iff.mpr
    intro f hf heq
    apply hbelow f hf
    rw [heq]
    apply hlower
  have hfree : ¬ made.isEntry (uploadingPath (directory ++ [sourceName mediaType])) = true := by
    rw [Bool.not_eq_true, FileTree.isEntry_eq_false_iff]
    refine ⟨?_, hget⟩
    intro hmem
    rcases List.mem_cons.mp hmem with heq | hmem
    · exact hlower.2 heq
    · exact hdirs _ hmem hlower
  obtain ⟨state, error, hcopy, hwritten, hsave, hstopped, hcopied⟩ :=
    guardedCopy_spec hget rfl hfree maxBytes fault reached source
  use state.written, hwritten
  rw [FileSystem.saveAt, resolveKey_storageKey]
  simp only [htarget, List.dropLast_concat, hentry, hmkdir, hseek, hmkdirs, hcopy, Bool.false_eq_true,
    if_false]
  cases error with
  | some e =>
      have hclean : cleanup (directory ++ [sourceName mediaType]) state.fs e
          = (fs.toFileSystem, e) := by
        rcases hstopped e rfl with hfs | ⟨content, hfs⟩
        · rw [hfs]
          apply fs.cleanup_eq hparent (Bool.eq_false_iff.mpr hentry) e (Or.inl rfl)
        · rw [hfs]
          apply fs.cleanup_eq hparent (Bool.eq_false_iff.mpr hentry) e (Or.inr ⟨content, rfl⟩)
      constructor
      · intro e' he'
        rw [hsave] at he'
        cases he'
        simp only [hclean]
      · intro content hcontent
        rw [hsave] at hcontent
        cases hcontent
  | none =>
      obtain ⟨hfs, hsize, hpos, hle⟩ := hcopied rfl
      constructor
      · intro e he
        rw [hsave] at he
        cases he
      · intro content hcontent
        rw [hsave] at hcontent
        cases hcontent
        rw [hsize] at hpos hle
        use hpos, hle
        show (⟨state.fs, state.written, .ok ⟨_, sha256 state.hashed, state.sizeBytes⟩⟩ : SaveOutcome)
          = _
        rw [hfs, hsize]

end Calls

theorem SaveOutcome.atomic_of_error {fs : FileSystem} {root : List Text} {sha256 : Bytes → Text}
    {documentId : Uuid} {mediaType : DocumentMediaType} {source : List Bytes} {maxBytes : ℕ}
    {written : ℕ} (h : written ≤ maxBytes) (e : AppError) :
  Atomic fs root sha256 documentId mediaType source maxBytes ⟨fs, written, .error e⟩
  where
  raises _ _ := rfl
  returns _ hstored := by cases hstored
  written_le := h

/-- Whatever the document, the source and the limit, and wherever a call of the operating system
raises, a call of `save` is atomic exactly when it is refused since there is an entry for the
document, or it is not the seek that raises. -/
theorem saveAt_atomic_iff (fs : FileTree) {root : List Text} (hroot : root ∈ fs.directories)
    (sha256 : Bytes → Text) (documentId : Uuid) (mediaType : DocumentMediaType)
    (source : List Bytes) (maxBytes : ℕ) (fault : Option SaveFault) (reached : ℕ) :
  (fs.saveAt root sha256 documentId mediaType source maxBytes fault reached).Atomic fs.toFileSystem
      root sha256 documentId mediaType source maxBytes
    ↔ (fs.isEntry (root ++ [documentId.text]) = true ∨ fault ≠ some .seek)
  := by
  by_cases hentry : fs.isEntry (root ++ [documentId.text]) = true
  · apply iff_of_true _ (Or.inl hentry)
    rw [saveAt_of_isEntry _ _ _ _ _ hentry]
    apply SaveOutcome.atomic_of_error (Nat.zero_le _)
  by_cases hmkdir : fault = some .mkdir
  · apply iff_of_true
    · rw [saveAt_of_mkdir _ _ _ _ _ hentry hmkdir]
      apply SaveOutcome.atomic_of_error (Nat.zero_le _)
    · right
      rw [hmkdir]
      exact fun heq => SaveFault.noConfusion (Option.some.inj heq)
  by_cases hseek : fault = some .seek
  · apply iff_of_false
    · rw [saveAt_of_seek _ _ _ _ _ hentry hseek]
      intro hatomic
      have hdirectories := congrArg FileSystem.directories (hatomic.raises .os rfl)
      obtain ⟨hpath, -⟩ := FileTree.isEntry_eq_false_iff.mp (Bool.eq_false_iff.mpr hentry)
      have hparent : (root ++ [documentId.text]).dropLast ∈ fs.directories :=
        fs.dropLast_concat_mem hroot documentId.text
      rw [fs.mkdirs_eq hparent hpath] at hdirectories
      apply hpath
      rw [← hdirectories]
      apply List.mem_cons_self
    · rintro (hthere | hother)
      · exact hentry hthere
      · exact hother hseek
  · apply iff_of_true _ (Or.inr hseek)
    obtain ⟨written, hwritten, hraises, hreturns⟩ := exists_saveAt_eq fs hroot sha256 documentId
      mediaType source maxBytes reached hentry hmkdir hseek
    cases hsave : guardedSave maxBytes fault source with
    | error e =>
        rw [hraises e hsave]
        apply SaveOutcome.atomic_of_error hwritten
    | ok content =>
        obtain ⟨hpos, hle, houtcome⟩ := hreturns content hsave
        rw [houtcome]
        obtain rfl := guardedSave_eq_ok hsave
        obtain ⟨hpath, -⟩ := FileTree.isEntry_eq_false_iff.mp (Bool.eq_false_iff.mpr hentry)
        refine ⟨fun e he => ?_, fun stored hstored => ?_, hwritten⟩
        · cases he
        · rw [← Except.ok.inj hstored]
          refine ⟨rfl, hpos, hle, rfl, ?_⟩
          apply Table.get_eq_none_iff.mpr
          intro f hf heq
          apply hpath
          have hparent := fs.dropLast_mem_of_file f hf
          rw [heq, dropLast_target] at hparent
          apply hparent

/-- When the seek raises, the directory of the document stays. -/
theorem not_saveAt_atomic_sample :
  ¬ ∀ (fs : FileTree) (root : List Text), root ∈ fs.directories →
    ∀ (sha256 : Bytes → Text) (documentId : Uuid) (mediaType : DocumentMediaType)
      (source : List Bytes) (maxBytes : ℕ) (fault : Option SaveFault) (reached : ℕ), 0 < maxBytes →
    (fs.saveAt root sha256 documentId mediaType source maxBytes fault reached).Atomic
      fs.toFileSystem root sha256 documentId mediaType source maxBytes
  := by
  intro hall
  have hatomic := hall .sample ["srv".toList] (by decide) (fun _ => []) 0 .text [[0]] 1 (some .seek)
    0 Nat.one_pos
  have hdirectories := congrArg FileSystem.directories (hatomic.raises .os rfl)
  revert hdirectories
  decide +kernel

/-- A call whose source is read in two blocks and whose renaming raises. -/
theorem saveAt_atomic_iff_sample :
  (FileTree.sample.saveAt ["srv".toList] (fun _ => []) 0 .text [[0], [1, 2]] 3 (some .replace)
      0).Atomic FileTree.sample.toFileSystem ["srv".toList] (fun _ => []) 0 .text [[0], [1, 2]] 3
    ↔ (FileTree.sample.isEntry (["srv".toList] ++ [Uuid.text 0]) = true
      ∨ (some SaveFault.replace) ≠ some .seek)
  := saveAt_atomic_iff .sample (by decide) (fun _ => []) 0 .text [[0], [1, 2]] 3 (some .replace) 0

/-- What `save` does below the root is what the store's model of it does, unless there is a file at
the place of the directory. -/
theorem below_saveAt (fs : FileTree) {root : List Text} (hroot : root ∈ fs.directories)
    (sha256 : Bytes → Text) {documentId : Uuid} (mediaType : DocumentMediaType)
    (source : List Bytes) (maxBytes : ℕ) (fault : Option SaveFault) (reached : ℕ)
    (hfile : fs.files.get (root ++ [documentId.text]) = none) :
  let outcome := fs.saveAt root sha256 documentId mediaType source maxBytes fault reached
  (fs.toFileSystem.below root).save root sha256 documentId mediaType source maxBytes fault
    = (outcome.fs.below root, outcome.result)
  := by
  intro outcome
  have hdirectory : [documentId.text] ∈ (fs.toFileSystem.below root).directories
      ↔ fs.isEntry (root ++ [documentId.text]) = true := by
    rw [FileSystem.mem_directories_below, ← not_iff_not, Bool.not_eq_true,
      FileTree.isEntry_eq_false_iff]
    exact ⟨fun h => ⟨h, hfile⟩, fun h => h.1⟩
  have hdropLast : [documentId.text, sourceName mediaType].dropLast = [documentId.text] := rfl
  rw [FileSystem.save, resolveKey_storageKey]
  simp only [hdropLast]
  by_cases hentry : fs.isEntry (root ++ [documentId.text]) = true
  · have houtcome : outcome = _ := saveAt_of_isEntry sha256 mediaType source maxBytes reached hentry
    rw [if_pos (hdirectory.mpr hentry), houtcome]
  rw [if_neg (fun hmem => hentry (hdirectory.mp hmem))]
  by_cases hmkdir : fault = some .mkdir
  · have houtcome : outcome = _ :=
      saveAt_of_mkdir sha256 mediaType source maxBytes reached hentry hmkdir
    rw [if_pos hmkdir, houtcome]
  obtain ⟨hpath, -⟩ := FileTree.isEntry_eq_false_iff.mp (Bool.eq_false_iff.mpr hentry)
  have hparent : (root ++ [documentId.text]).dropLast ∈ fs.directories :=
    fs.dropLast_concat_mem hroot documentId.text
  rw [if_neg hmkdir]
  by_cases hseek : fault = some .seek
  · have houtcome : outcome = _ :=
      saveAt_of_seek sha256 mediaType source maxBytes reached hentry hseek
    rw [if_pos hseek, houtcome, fs.mkdirs_eq hparent hpath, FileSystem.below_cons]
  rw [if_neg hseek]
  obtain ⟨written, -, hraises, hreturns⟩ := exists_saveAt_eq fs hroot sha256 documentId
    mediaType source maxBytes reached hentry hmkdir hseek
  cases hsave : guardedSave maxBytes fault source with
  | error e =>
      have houtcome : outcome = ⟨fs.toFileSystem, written, .error e⟩ := hraises e hsave
      have hrmdir := congrArg (fun fs => fs.below root) (fs.rmdir_made hpath)
      simp only [FileSystem.below_rmdir, FileSystem.below_cons] at hrmdir
      simp only [houtcome, hrmdir]
  | ok content =>
      obtain ⟨-, -, houtcome⟩ := hreturns content hsave
      have hnone : fs.files.get (root ++ [documentId.text, sourceName mediaType]) = none := by
        apply Table.get_eq_none_iff.mpr
        intro f hf heq
        apply hpath
        have hmem := fs.dropLast_mem_of_file f hf
        rw [heq, dropLast_target] at hmem
        apply hmem
      have hput := @FileSystem.below_put fs.toFileSystem root _ hnone content
      have hcons := @FileSystem.below_cons
        ⟨fs.directories, fs.files.put ⟨root ++ [documentId.text, sourceName mediaType], content⟩⟩
        root [documentId.text]
      rw [hput] at hcons
      have hfs := congrArg SaveOutcome.fs houtcome
      have hresult := congrArg SaveOutcome.result houtcome
      simp only at hfs hresult
      show _ = ((fs.saveAt root sha256 documentId mediaType source maxBytes fault reached).fs.below
        root, (fs.saveAt root sha256 documentId mediaType source maxBytes fault reached).result)
      rw [hfs, hresult, hcons]

end KnowledgeSearch

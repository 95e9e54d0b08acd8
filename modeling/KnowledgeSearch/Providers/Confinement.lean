import KnowledgeSearch.Providers.FileTree

/-!
# Confinement

`LocalDocumentStore.open` and `LocalDocumentStore.delete` on the file tree of a machine. A key leads
strictly below the root of the store or is refused, so that `open` reads and `delete` unlinks below
the root only. The directory `delete` removes is that of the file, which for a key of a single name
is the root.

A call of the operating system raises for a path that is too long, and it may raise for reasons that
are not those of its path: a permission, a mounted directory, a device.
-/

namespace KnowledgeSearch

/-- The error of a key that does not lead below the root. -/
def invalidStorageKey : AppError :=
  .ingestion .invalidStorageKey "Document storage key is invalid."

/-- The errors of `resolveKey`: the operating system takes no path with U+0000. -/
inductive Refusal (key : Text) : AppError → Prop where
  | outside : Refusal key invalidStorageKey
  | null : '\x00' ∈ key → Refusal key (.value "embedded null byte")

theorem resolveKey_eq_ok {root path : List Text} {key : Text} (h : resolveKey root key = .ok path) :
  path ≠ []
  := by
  unfold resolveKey at h
  split at h
  · cases h
  extract_lets candidate at h
  split at h
  · rename_i hbelow
    obtain ⟨⟨rest, hrest⟩, hne⟩ := hbelow
    rw [← hrest, List.drop_left] at h
    cases h
    rintro rfl
    rw [List.append_nil] at hrest
    exact hne hrest.symm
  · cases h

theorem resolveKey_eq_error {root : List Text} {key : Text} {e : AppError}
    (h : resolveKey root key = .error e) :
  Refusal key e
  := by
  unfold resolveKey at h
  split at h
  · rename_i hnull
    cases h
    exact .null hnull
  extract_lets candidate at h
  split at h
  · cases h
  · cases h
    exact .outside

/-- The call of the operating system that raises, in `open` or `delete`, for a reason that is not
its path. -/
inductive StoreFault where
  | open
  | unlink
  | rmdir
  deriving DecidableEq

namespace FileSystem

/-- Reading the whole file of a path. -/
def readFile (fs : FileSystem) (limits : PathLimits) (path : List Text)
    (fault : Option StoreFault) : Except AppError Bytes :=
  if fault = some .open ∨ fs.tooLong limits path = true then .error .os
  else
    match fs.files.get path with
    | none => .error .os
    | some file => .ok file.content

/-- `LocalDocumentStore.open` and reading the whole file, for a store in the directory `root`. -/
def openAt (fs : FileSystem) (limits : PathLimits) (root : List Text) (key : Text)
    (fault : Option StoreFault) : FileSystem × Except AppError Bytes :=
  match resolveKey root key with
  | .error e => (fs, .error e)
  | .ok path => (fs, fs.readFile limits (root ++ path) fault)

/-- `LocalDocumentStore.delete`, for a store in the directory `root`. The directory of the file is
not too long when the file is not, and what `rmdir` raises is suppressed. -/
def deleteAt (fs : FileSystem) (limits : PathLimits) (root : List Text) (key : Text)
    (fault : Option StoreFault) : FileSystem × Except AppError Unit :=
  match resolveKey root key with
  | .error e => (fs, .error e)
  | .ok path =>
      if fault = some .unlink ∨ fs.tooLong limits (root ++ path) = true then (fs, .error .os)
      else
        match fs.unlink (root ++ path) with
        | .error e => (fs, .error e)
        | .ok fs' =>
            (if fault = some .rmdir then fs' else fs'.rmdir (root ++ path).dropLast, .ok ())

/-- Two file systems have the same entries outside a directory, that directory among them. -/
def SameOutside (root : List Text) (fs fs' : FileSystem) : Prop :=
  ∀ path, ¬ Below root path →
    (path ∈ fs'.directories ↔ path ∈ fs.directories) ∧ fs'.files.get path = fs.files.get path

theorem SameOutside.refl (root : List Text) (fs : FileSystem) :
  SameOutside root fs fs
  := fun _ _ => ⟨Iff.rfl, rfl⟩

theorem SameOutside.trans {root : List Text} {fs fs' fs'' : FileSystem}
    (h : SameOutside root fs fs') (h' : SameOutside root fs' fs'') :
  SameOutside root fs fs''
  := by
  intro path hpath
  obtain ⟨hdir, hfile⟩ := h path hpath
  obtain ⟨hdir', hfile'⟩ := h' path hpath
  exact ⟨hdir'.trans hdir, hfile'.trans hfile⟩

/-- A file below a directory is removed without a trace outside. -/
theorem sameOutside_erase (fs : FileSystem) {root path : List Text} (h : Below root path) :
  SameOutside root fs { fs with files := fs.files.erase path }
  := by
  intro path' hpath'
  refine ⟨Iff.rfl, ?_⟩
  rw [Table.get_erase, if_neg]
  rintro rfl
  exact hpath' h

theorem mem_directories_rmdir_iff {fs : FileSystem} {path dir : List Text} :
  dir ∈ (fs.rmdir path).directories
    ↔ dir ∈ fs.directories ∧ (dir = path → fs.occupied path = true)
  := by
  unfold rmdir
  split
  · rename_i hoccupied
    simp [hoccupied]
  · rename_i hoccupied
    simp [hoccupied]

/-- A directory is removed without a trace outside another exactly when it lies below that, is not
there or is not empty. -/
theorem sameOutside_rmdir_iff {fs : FileSystem} {root path : List Text} :
  SameOutside root fs (fs.rmdir path)
    ↔ (Below root path ∨ path ∉ fs.directories ∨ fs.occupied path = true)
  := by
  constructor
  · intro h
    by_contra hnot
    push Not at hnot
    obtain ⟨hbelow, hdir, hoccupied⟩ := hnot
    have hkept := (h path hbelow).1.mpr hdir
    exact hoccupied ((mem_directories_rmdir_iff.mp hkept).2 rfl)
  · intro h path' hpath'
    rw [files_rmdir, mem_directories_rmdir_iff]
    refine ⟨?_, rfl⟩
    apply and_iff_left_of_imp
    rintro hdir rfl
    rcases h with hbelow | hmissing | hoccupied
    · exact absurd hbelow hpath'
    · exact absurd hdir hmissing
    · apply hoccupied

end FileSystem

/-- What a call of `delete` removes besides the file is the root: the key names an entry of the
root that is not a directory, there is nothing else in it, and no call of the operating system
raises. -/
structure RemovesRoot (fs : FileTree) (limits : PathLimits) (root : List Text) (key : Text)
    (fault : Option StoreFault) (name : Text) : Prop where
  resolves : resolveKey root key = .ok [name]
  accepts : limits.Accepts (root ++ [name])
  unlinks : fault ≠ some .unlink
  removes : fault ≠ some .rmdir
  root_mem : root ∈ fs.directories
  not_mem : root ++ [name] ∉ fs.directories
  directories : ∀ dir ∈ fs.directories, ¬ Below root dir
  files : ∀ f ∈ fs.files, Below root f.path → f.path = root ++ [name]

/-- The calls of `open` and `delete` with a key are confined to the entries below the root: they
refuse the key and leave everything as it is, or read a path below the root and leave everything
outside as it is. -/
structure Confined (fs : FileSystem) (limits : PathLimits) (root : List Text) (key : Text)
    (fault : Option StoreFault) : Prop where
  reads : (∃ e, Refusal key e ∧ fs.openAt limits root key fault = (fs, .error e))
    ∨ ∃ path, Below root path
      ∧ fs.openAt limits root key fault = (fs, fs.readFile limits path fault)
  deletes : (∃ e, Refusal key e ∧ fs.deleteAt limits root key fault = (fs, .error e))
    ∨ FileSystem.SameOutside root fs (fs.deleteAt limits root key fault).1

namespace FileSystem

variable {fs fs' : FileSystem} {root path : List Text} {key : Text}

/-- What `delete` does with a key it does not refuse. -/
theorem deleteAt_cases (fs : FileSystem) (limits : PathLimits) (fault : Option StoreFault)
    (hkey : resolveKey root key = .ok path) :
  (∃ e, fs.deleteAt limits root key fault = (fs, .error e))
    ∨ ∃ fs', fs.unlink (root ++ path) = .ok fs' ∧ fs.tooLong limits (root ++ path) = false
      ∧ fault ≠ some .unlink
      ∧ fs.deleteAt limits root key fault
        = (if fault = some .rmdir then fs' else fs'.rmdir (root ++ path).dropLast, .ok ())
  := by
  rw [deleteAt, hkey]
  simp only
  split
  · left
    exact ⟨_, rfl⟩
  · rename_i hcalls
    rw [not_or, Bool.not_eq_true] at hcalls
    cases hunlink : fs.unlink (root ++ path) with
    | error e =>
        left
        use e
    | ok fs' =>
        right
        use fs', rfl, hcalls.2, hcalls.1

/-- Unlinking the file of a key leaves everything outside the root as it is. -/
theorem sameOutside_unlink (hkey : resolveKey root key = .ok path)
    (hunlink : fs.unlink (root ++ path) = .ok fs') :
  SameOutside root fs fs'
  := by
  obtain ⟨-, -, rfl⟩ := unlink_eq_ok_iff.mp hunlink
  apply fs.sameOutside_erase
  apply below_append (resolveKey_eq_ok hkey)

/-- What is left once the file of a key is unlinked is removed without a trace outside the root
exactly when it is below the root, is not there or is not empty. -/
theorem sameOutside_rmdir_unlink_iff (hkey : resolveKey root key = .ok path)
    (hunlink : fs.unlink (root ++ path) = .ok fs') :
  SameOutside root fs (fs'.rmdir (root ++ path).dropLast)
    ↔ (Below root (root ++ path).dropLast ∨ (root ++ path).dropLast ∉ fs.directories
      ∨ fs'.occupied (root ++ path).dropLast = true)
  := by
  have hsame := sameOutside_unlink hkey hunlink
  have hdirectories : fs.directories = fs'.directories := by
    obtain ⟨-, -, rfl⟩ := unlink_eq_ok_iff.mp hunlink
    rfl
  rw [hdirectories, ← sameOutside_rmdir_iff]
  constructor
  · intro h path' hpath'
    obtain ⟨hdir, hfile⟩ := h path' hpath'
    obtain ⟨hdir', hfile'⟩ := hsame path' hpath'
    exact ⟨hdir.trans hdir'.symm, hfile.trans hfile'.symm⟩
  · apply hsame.trans

/-- A call of `open` is confined. -/
theorem openAt_confined (fs : FileSystem) (limits : PathLimits) (root : List Text) (key : Text)
    (fault : Option StoreFault) :
  (∃ e, Refusal key e ∧ fs.openAt limits root key fault = (fs, .error e))
    ∨ ∃ path, Below root path
      ∧ fs.openAt limits root key fault = (fs, fs.readFile limits path fault)
  := by
  rw [openAt]
  cases hkey : resolveKey root key with
  | error e =>
      left
      use e, resolveKey_eq_error hkey
  | ok path =>
      right
      use root ++ path, below_append (resolveKey_eq_ok hkey)

end FileSystem

/-- Where `delete` removes the root, it leaves a trace outside what lies below the root. -/
theorem RemovesRoot.not_confined {fs : FileTree} {limits : PathLimits} {root : List Text}
    {key name : Text} {fault : Option StoreFault} (h : RemovesRoot fs limits root key fault name) :
  ¬ Confined fs.toFileSystem limits root key fault
  := by
  rintro ⟨-, hdelete⟩
  have hparent : (root ++ [name]).dropLast = root := List.dropLast_concat
  have hdir := fs.dropLast_concat_mem h.root_mem name
  have hunlink := fs.unlink_eq_ok hdir h.not_mem
  have hshort := (fs.tooLong_eq_false_iff hdir).mpr h.accepts
  have hcall : fs.toFileSystem.deleteAt limits root key fault
      = ({ fs.toFileSystem with files := fs.files.erase (root ++ [name]) : FileSystem }.rmdir
          (root ++ [name]).dropLast, .ok ()) := by
    rw [FileSystem.deleteAt, h.resolves]
    simp only [hunlink, hshort, h.unlinks, h.removes, Bool.false_eq_true, or_false, if_false]
  rw [hcall] at hdelete
  rcases hdelete with ⟨e, -, herror⟩ | hsame
  · cases congrArg Prod.snd herror
  · rw [FileSystem.sameOutside_rmdir_unlink_iff h.resolves hunlink, hparent] at hsame
    rcases hsame with hbelow | hmissing | hoccupied
    · exact hbelow.2 rfl
    · exact hmissing h.root_mem
    · rcases FileSystem.occupied_iff.mp hoccupied with ⟨dir, hdir, hbelow⟩ | ⟨f, hf, hbelow⟩
      · exact h.directories dir hdir hbelow
      · obtain ⟨hf, hne⟩ := Table.mem_erase.mp hf
        exact hne (h.files f hf hbelow)

/-- The directory of a file below the root is below the root unless the file is an entry of the
root. -/
theorem below_dropLast_or {root path : List Text} (h : path ≠ []) :
  Below root (root ++ path).dropLast ∨ ∃ name, path = [name]
  := by
  obtain ⟨rest, name, rfl⟩ := List.eq_nil_or_concat path |>.resolve_left h
  rw [List.concat_eq_append, ← List.append_assoc, List.dropLast_concat]
  by_cases hrest : rest = []
  · right
    use name
    rw [hrest, List.nil_append]
  · left
    apply below_append hrest

/-- The calls with a key are confined to the entries below the root exactly when the key does not
name the only entry there may be in the root, one that is not a directory, or a call of the operating
system raises. -/
theorem confined_iff (fs : FileTree) (limits : PathLimits) (root : List Text) (key : Text)
    (fault : Option StoreFault) :
  Confined fs.toFileSystem limits root key fault
    ↔ ¬ ∃ name, RemovesRoot fs limits root key fault name
  := by
  constructor
  · rintro hconfined ⟨name, hremoves⟩
    exact hremoves.not_confined hconfined
  intro hnot
  refine ⟨fs.toFileSystem.openAt_confined limits root key fault, ?_⟩
  cases hkey : resolveKey root key with
  | error e =>
      left
      use e, resolveKey_eq_error hkey
      rw [FileSystem.deleteAt, hkey]
  | ok path =>
      right
      rcases fs.toFileSystem.deleteAt_cases limits fault hkey
        with ⟨e, hcall⟩ | ⟨fs', hunlink, hshort, hfault, hcall⟩
      · rw [hcall]
        apply FileSystem.SameOutside.refl
      rw [hcall]
      split
      · apply FileSystem.sameOutside_unlink hkey hunlink
      rename_i hrmdir
      rw [FileSystem.sameOutside_rmdir_unlink_iff hkey hunlink]
      by_contra hall
      push Not at hall
      obtain ⟨hbelow, hdir, hempty⟩ := hall
      -- The directory of the file is not below the root, so it is the root.
      obtain ⟨name, rfl⟩ := (below_dropLast_or (resolveKey_eq_ok hkey)).resolve_left hbelow
      have haccepts := (fs.tooLong_eq_false_iff hdir).mp hshort
      obtain ⟨hpath, -, rfl⟩ := FileSystem.unlink_eq_ok_iff.mp hunlink
      rw [List.dropLast_concat] at hdir hempty
      rw [ne_eq, FileSystem.occupied_iff] at hempty
      apply hnot
      use name
      refine ⟨hkey, haccepts, hfault, hrmdir, hdir, hpath, ?_, ?_⟩
      · intro dir hmem hdirbelow
        exact hempty (Or.inl ⟨dir, hmem, hdirbelow⟩)
      · intro f hf hfbelow
        by_contra hother
        apply hempty
        right
        use f, Table.mem_erase.mpr ⟨hf, hother⟩

/-- Deleting a key of a single name removes the root of an empty store. -/
theorem not_confined_sample :
  ¬ ∀ (fs : FileTree) (root : List Text) (key : Text), root ∈ fs.directories →
    Confined fs.toFileSystem ⟨255, 4096⟩ root key none
  := by
  intro hall
  obtain ⟨-, hdelete⟩ := hall .sample ["srv".toList] "notes".toList (by decide)
  rcases hdelete with ⟨e, -, herror⟩ | hsame
  · have hok : (FileTree.sample.toFileSystem.deleteAt ⟨255, 4096⟩ ["srv".toList] "notes".toList
        none).2 = .ok () := rfl
    rw [herror] at hok
    cases hok
  · have hkept := (hsame ["srv".toList] (fun hbelow => hbelow.2 rfl)).1.mpr (by decide)
    revert hkept
    decide

/-- A key the operating system takes no path of, and one with a name that is too long, leave the root. -/
example :
  FileTree.sample.toFileSystem.deleteAt ⟨255, 4096⟩ ["srv".toList] ['a', '\x00', 'b'] none
      = (FileTree.sample.toFileSystem, .error (.value "embedded null byte"))
    ∧ (FileTree.sample.toFileSystem.deleteAt ⟨255, 4096⟩ ["srv".toList] (List.replicate 300 'n') none).2
      = .error .os
  := ⟨rfl, by decide +kernel⟩

/-! ### The store's model of a file system -/

theorem nameBytes_le (name : Text) :
  nameBytes name ≤ 4 * name.length
  := by
  induction name with
  | nil => rfl
  | cons c name ih =>
      have hc := c.utf8Size_le_four
      simp only [nameBytes, List.map_cons, List.sum_cons, List.length_cons] at ih ⊢
      omega

/-- The path of a stored document is not too long where the root leaves room for it. -/
theorem PathLimits.accepts_storedPath {limits : PathLimits} {root : List Text}
    (hname : 144 ≤ limits.nameMax) (hnames : ∀ name ∈ root, nameBytes name ≤ limits.nameMax)
    (hroot : pathBytes root + 160 ≤ limits.pathMax) (id : Uuid) (mediaType : DocumentMediaType) :
  limits.Accepts (root ++ [id.text, sourceName mediaType])
  := by
  have hid := nameBytes_le id.text
  rw [id.length_text] at hid
  have hsource : nameBytes (sourceName mediaType) ≤ 10 := by
    cases mediaType <;> decide
  constructor
  · have hsum : pathBytes (root ++ [id.text, sourceName mediaType])
        = pathBytes root + (nameBytes id.text + 1 + (nameBytes (sourceName mediaType) + 1)) := by
      simp [pathBytes]
    omega
  · intro name hmem
    rcases List.mem_append.mp hmem with hmem | hmem
    · apply hnames name hmem
    · simp only [List.mem_cons, List.not_mem_nil, or_false] at hmem
      rcases hmem with heq | heq
      · rw [heq]
        apply hid.trans hname
      · rw [heq]
        apply hsource.trans (le_trans (by decide) hname)

/-- What `delete` does below the root, with a key whose path is not too long, is what the store's
model of it does. -/
theorem below_deleteAt (fs : FileTree) {limits : PathLimits} {root path : List Text} {key : Text}
    (hroot : root ∈ fs.directories) (hkey : resolveKey root key = .ok path)
    (haccepts : limits.Accepts (root ++ path)) :
  (fs.toFileSystem.below root).delete root key
    = (fs.toFileSystem.deleteAt limits root key none).2.map fun _ =>
        (fs.toFileSystem.deleteAt limits root key none).1.below root
  := by
  have hunlink := fs.below_unlink hroot path
  rw [FileSystem.delete, FileSystem.deleteAt, hkey]
  simp only [haccepts.tooLong_eq_false, reduceCtorEq, Bool.false_eq_true, or_self, if_false]
  cases habsolute : fs.unlink (root ++ path) with
  | error e =>
      rw [habsolute] at hunlink
      rw [hunlink]
      rfl
  | ok fs' =>
      rw [habsolute] at hunlink
      rw [hunlink, List.dropLast_append_of_ne_nil (resolveKey_eq_ok hkey)]
      apply congrArg Except.ok
      symm
      apply FileSystem.below_rmdir

/-- What `open` reads below the root, with a key whose path is not too long, is what the store's
model of it reads. -/
theorem below_openAt (fs : FileSystem) {limits : PathLimits} {root path : List Text} {key : Text}
    (hkey : resolveKey root key = .ok path) (haccepts : limits.Accepts (root ++ path)) :
  (fs.below root).read root key = (fs.openAt limits root key none).2
  := by
  rw [FileSystem.read, FileSystem.openAt, hkey]
  simp only [FileSystem.readFile, FileSystem.get_below, haccepts.tooLong_eq_false, reduceCtorEq,
    Bool.false_eq_true, or_self, if_false]
  cases fs.files.get (root ++ path) with
  | none => rfl
  | some f => rfl

/-- The store's model of the calls with the key of a stored document is what they do, where the root
is there and leaves room for the path. -/
theorem below_storageKey (fs : FileTree) {limits : PathLimits} {root : List Text}
    (hroot : root ∈ fs.directories) (hname : 144 ≤ limits.nameMax)
    (hnames : ∀ name ∈ root, nameBytes name ≤ limits.nameMax)
    (hroom : pathBytes root + 160 ≤ limits.pathMax) (id : Uuid) (mediaType : DocumentMediaType) :
  (fs.toFileSystem.below root).read root (storageKey id mediaType)
      = (fs.toFileSystem.openAt limits root (storageKey id mediaType) none).2
    ∧ (fs.toFileSystem.below root).delete root (storageKey id mediaType)
      = (fs.toFileSystem.deleteAt limits root (storageKey id mediaType) none).2.map fun _ =>
          (fs.toFileSystem.deleteAt limits root (storageKey id mediaType) none).1.below root
  := by
  have hkey := resolveKey_storageKey root id mediaType
  have haccepts := PathLimits.accepts_storedPath hname hnames hroom id mediaType
  exact ⟨below_openAt _ hkey haccepts, below_deleteAt fs hroot hkey haccepts⟩

end KnowledgeSearch

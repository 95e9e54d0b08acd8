import KnowledgeSearch.Providers.LocalFiles

/-!
# File trees

The directories and files of a machine, named by their paths from its own root: every entry lies in
a directory. The store keeps its files below a directory of the machine, its `root`, and
`FileSystem.below` is what lies there, by the paths from the `root` on.

The operating system limits the bytes of a path and of each name in it (`NAME_MAX` and `PATH_MAX`);
`FileSystem.tooLong` says when it refuses a call for them.
-/

namespace KnowledgeSearch

/-- The directories and files of a machine, each in a directory. -/
structure FileTree extends FileSystem where
  nil_mem : [] ∈ directories
  dropLast_mem : ∀ path ∈ directories, path.dropLast ∈ directories
  dropLast_mem_of_file : ∀ f ∈ files, f.path.dropLast ∈ directories
  not_mem_of_file : ∀ f ∈ files, f.path ∉ directories

/-- A machine with an empty store. -/
def FileTree.sample : FileTree where
  directories := [[], ["srv".toList]]
  files := .empty
  nil_mem := by simp
  dropLast_mem := by simp
  dropLast_mem_of_file f hf := absurd hf (Table.not_mem_empty f)
  not_mem_of_file f hf := absurd hf (Table.not_mem_empty f)

/-- A path leads strictly below a directory. -/
def Below (root path : List Text) : Prop :=
  root <+: path ∧ path ≠ root

theorem below_append {root path : List Text} (h : path ≠ []) :
  Below root (root ++ path)
  := by
  use List.prefix_append root path
  rintro heq
  exact h (List.append_right_eq_self.mp heq)

/-- What leads below a directory leads to the directory of the last name or below it. -/
theorem Below.prefix_dropLast {root path : List Text} (h : Below root path) :
  root <+: path.dropLast
  := by
  obtain ⟨⟨rest, rfl⟩, hne⟩ := h
  have hrest : rest ≠ [] := by
    rintro rfl
    exact hne (List.append_nil root)
  rw [List.dropLast_append_of_ne_nil hrest]
  apply List.prefix_append

namespace FileTree

variable (fs : FileTree)

/-- The directories a path leads through are there when it ends in one. -/
theorem mem_of_prefix {path dir : List Text} (hpath : path ∈ fs.directories) (h : dir <+: path) :
  dir ∈ fs.directories
  := by
  obtain ⟨rest, rfl⟩ := h
  induction rest using List.reverseRecOn with
  | nil =>
      rw [List.append_nil] at hpath
      apply hpath
  | append_singleton rest name ih =>
      have hparent := fs.dropLast_mem _ hpath
      rw [← List.append_assoc, List.dropLast_concat] at hparent
      apply ih hparent

/-- An entry of a directory that is there lies in it. -/
theorem dropLast_concat_mem {dir : List Text} (h : dir ∈ fs.directories) (name : Text) :
  (dir ++ [name]).dropLast ∈ fs.directories
  := by
  rw [List.dropLast_concat]
  apply h

/-- The directories above a file are there. -/
theorem mem_of_below_file {f : StoredFile} {dir : List Text} (hf : f ∈ fs.files)
    (h : Below dir f.path) :
  dir ∈ fs.directories
  := fs.mem_of_prefix (fs.dropLast_mem_of_file f hf) h.prefix_dropLast

/-- There is no file above a directory. -/
theorem not_prefix_of_file {f : StoredFile} {dir : List Text} (hf : f ∈ fs.files)
    (hdir : dir ∈ fs.directories) :
  ¬ f.path <+: dir
  := fun h => fs.not_mem_of_file f hf (fs.mem_of_prefix hdir h)

end FileTree

/-! ### Limits of paths -/

/-- The bytes of a name, which is written in UTF-8. -/
def nameBytes (name : Text) : ℕ :=
  (name.map Char.utf8Size).sum

/-- The bytes of a path, a separator before each name. -/
def pathBytes (path : List Text) : ℕ :=
  (path.map fun name => nameBytes name + 1).sum

/-- The limits of an operating system, in bytes. That of a path counts the zero at its end. -/
structure PathLimits where
  nameMax : ℕ
  pathMax : ℕ

/-- Neither a path nor a name in it is too long. -/
structure PathLimits.Accepts (limits : PathLimits) (path : List Text) : Prop where
  path_lt : pathBytes path < limits.pathMax
  name_le : ∀ name ∈ path, nameBytes name ≤ limits.nameMax

/-- A call with the path is refused for its length or for that of a name. A name is looked at once
the directory it is looked up in is there. -/
def FileSystem.tooLong (fs : FileSystem) (limits : PathLimits) (path : List Text) : Bool :=
  limits.pathMax ≤ pathBytes path
    || fs.directories.any fun dir =>
      dir.isPrefixOf path && path[dir.length]?.any fun name => limits.nameMax < nameBytes name

theorem FileSystem.tooLong_iff {fs : FileSystem} {limits : PathLimits} {path : List Text} :
  fs.tooLong limits path = true
    ↔ limits.pathMax ≤ pathBytes path
      ∨ ∃ dir ∈ fs.directories, ∃ name, dir ++ [name] <+: path ∧ limits.nameMax < nameBytes name
  := by
  simp only [tooLong, Bool.or_eq_true, decide_eq_true_eq, List.any_eq_true, Bool.and_eq_true,
    List.isPrefixOf_iff_prefix, Option.any_eq_true]
  apply or_congr Iff.rfl
  constructor
  · rintro ⟨dir, hdir, ⟨rest, rfl⟩, name, hname, hlong⟩
    rw [List.getElem?_append_right le_rfl, Nat.sub_self, ← List.head?_eq_getElem?,
      List.head?_eq_some_iff] at hname
    obtain ⟨rest, rfl⟩ := hname
    use dir, hdir, name
    refine ⟨⟨rest, ?_⟩, hlong⟩
    rw [List.append_assoc, List.singleton_append]
  · rintro ⟨dir, hdir, name, ⟨rest, rfl⟩, hlong⟩
    rw [List.append_assoc]
    use dir, hdir, List.prefix_append dir _, name
    refine ⟨?_, hlong⟩
    simp

/-- A path is not refused when neither it nor a name in it is too long. -/
theorem PathLimits.Accepts.tooLong_eq_false {limits : PathLimits} {path : List Text}
    (h : limits.Accepts path) (fs : FileSystem) :
  fs.tooLong limits path = false
  := by
  rw [← Bool.not_eq_true, FileSystem.tooLong_iff, not_or, not_le]
  refine ⟨h.path_lt, ?_⟩
  rintro ⟨dir, -, name, hle, hlong⟩
  have hname : name ∈ path := hle.subset (by simp)
  exact absurd (h.name_le name hname) (not_le.mpr hlong)

/-- In a directory of a tree, a path is refused for its length exactly when it or a name in it is too
long. -/
theorem FileTree.tooLong_eq_false_iff (fs : FileTree) {limits : PathLimits} {path : List Text}
    (hparent : path.dropLast ∈ fs.directories) :
  fs.tooLong limits path = false ↔ limits.Accepts path
  := by
  constructor
  · intro h
    rw [← Bool.not_eq_true, FileSystem.tooLong_iff, not_or, not_le] at h
    refine ⟨h.1, ?_⟩
    intro name hname
    obtain ⟨dir, rest, rfl⟩ := List.append_of_mem hname
    have hdir : dir ∈ fs.directories := by
      apply fs.mem_of_prefix hparent
      rw [List.dropLast_append_of_ne_nil (List.cons_ne_nil name rest)]
      apply List.prefix_append
    by_contra hlong
    apply h.2
    use dir, hdir, name
    refine ⟨⟨rest, ?_⟩, not_le.mp hlong⟩
    rw [List.append_assoc, List.singleton_append]
  · intro h
    apply h.tooLong_eq_false

namespace FileSystem

theorem occupied_iff {fs : FileSystem} {path : List Text} :
  fs.occupied path = true
    ↔ (∃ dir ∈ fs.directories, Below path dir) ∨ ∃ f ∈ fs.files, Below path f.path
  := by
  simp only [occupied, Bool.or_eq_true, List.any_eq_true, Bool.and_eq_true, decide_eq_true_eq,
    List.isPrefixOf_iff_prefix, Below, Table.mem_def]

theorem unlink_eq_error {fs : FileSystem} {path : List Text} {e : AppError}
    (h : fs.unlink path = .error e) :
  e = .os
  := by
  unfold unlink at h
  split at h
  · cases h
    rfl
  · split at h
    · cases h
      rfl
    · cases h

/-- Removing a file succeeds unless its path is that of a directory or leads through a file. -/
theorem unlink_eq_ok_iff {fs fs' : FileSystem} {path : List Text} :
  fs.unlink path = .ok fs'
    ↔ path ∉ fs.directories ∧ (∀ f ∈ fs.files, ¬ Below f.path path)
      ∧ fs' = { fs with files := fs.files.erase path }
  := by
  have hthrough : (fs.files.rows.any fun f => f.path.isPrefixOf path && f.path ≠ path) = true
      ↔ ∃ f ∈ fs.files, Below f.path path := by
    simp only [List.any_eq_true, Bool.and_eq_true, decide_eq_true_eq, List.isPrefixOf_iff_prefix,
      Below, Table.mem_def, ne_comm]
  rw [unlink]
  split
  · rename_i hdir
    simp [hdir]
  · rename_i hdir
    split
    · rename_i hfile
      obtain ⟨f, hf, hbelow⟩ := hthrough.mp hfile
      constructor
      · intro h
        cases h
      · rintro ⟨-, hnone, -⟩
        exact absurd hbelow (hnone f hf)
    · rename_i hfile
      constructor
      · intro h
        cases h
        exact ⟨hdir, fun f hf hbelow => hfile (hthrough.mpr ⟨f, hf, hbelow⟩), rfl⟩
      · rintro ⟨-, -, rfl⟩
        rfl

end FileSystem

/-- In a directory of a tree, what is not a directory can be removed as a file. -/
theorem FileTree.unlink_eq_ok (fs : FileTree) {path : List Text}
    (hparent : path.dropLast ∈ fs.directories) (hpath : path ∉ fs.directories) :
  fs.unlink path = .ok { fs.toFileSystem with files := fs.files.erase path }
  := by
  apply FileSystem.unlink_eq_ok_iff.mpr
  refine ⟨hpath, ?_, rfl⟩
  intro f hf hbelow
  exact fs.not_prefix_of_file hf hparent hbelow.prefix_dropLast

/-! ### The entries below a directory -/

/-- Filtering before a partial map or after it, by predicates that agree along the map. -/
theorem List.filterMap_filter_comm {α β : Type*} {f : α → Option β} {p : α → Bool} {q : β → Bool}
    {l : List α} (h : ∀ a b, f a = some b → p a = q b) :
  (l.filter p).filterMap f = (l.filterMap f).filter q
  := by
  rw [List.filterMap_filter, List.filter_filterMap]
  apply List.filterMap_congr
  intro a _
  cases hb : f a with
  | none => simp
  | some b =>
      rw [h a b hb, Option.filter_some]

/-- The rest of a path after a directory it leads to or through. -/
def pathBelow (root path : List Text) : Option (List Text) :=
  if root <+: path then some (path.drop root.length) else none

theorem pathBelow_eq_some_iff {root path rest : List Text} :
  pathBelow root path = some rest ↔ path = root ++ rest
  := by
  rw [pathBelow]
  split
  · rename_i h
    obtain ⟨rest', rfl⟩ := h
    simp
  · rename_i h
    constructor
    · intro hnone
      cases hnone
    · rintro rfl
      exact absurd (List.prefix_append root rest) h

/-- The entries of a directory, by their paths from it on. -/
def FileSystem.below (fs : FileSystem) (root : List Text) : FileSystem where
  directories := fs.directories.filterMap (pathBelow root)
  files :=
    { rows := fs.files.rows.filterMap fun f =>
        (pathBelow root f.path).map fun path => ⟨path, f.content⟩
      nodup := by
        apply List.pairwise_map.mpr
        apply List.pairwise_filterMap.mpr
        apply (List.pairwise_map.mp fs.files.nodup).imp
        intro f f' hne g hg g' hg' heq
        obtain ⟨path, hpath, rfl⟩ := Option.map_eq_some_iff.mp hg
        obtain ⟨path', hpath', rfl⟩ := Option.map_eq_some_iff.mp hg'
        apply hne
        rw [pathBelow_eq_some_iff.mp hpath, pathBelow_eq_some_iff.mp hpath']
        congr 1 }

namespace FileSystem

variable {fs : FileSystem} {root : List Text}

theorem mem_directories_below {path : List Text} :
  path ∈ (fs.below root).directories ↔ root ++ path ∈ fs.directories
  := by
  simp only [below, List.mem_filterMap, pathBelow_eq_some_iff]
  constructor
  · rintro ⟨dir, hdir, rfl⟩
    apply hdir
  · intro hdir
    use root ++ path, hdir

theorem mem_files_below {f : StoredFile} :
  f ∈ (fs.below root).files ↔ ⟨root ++ f.path, f.content⟩ ∈ fs.files
  := by
  simp only [below, Table.mem_def, List.mem_filterMap, Option.map_eq_some_iff,
    pathBelow_eq_some_iff]
  constructor
  · rintro ⟨g, hg, path, hpath, rfl⟩
    rw [← hpath]
    apply hg
  · intro hf
    use ⟨root ++ f.path, f.content⟩, hf, f.path

theorem get_below (path : List Text) :
  (fs.below root).files.get path
    = (fs.files.get (root ++ path)).map fun f => ⟨path, f.content⟩
  := by
  apply Option.ext
  intro f
  rw [Option.map_eq_some_iff, Table.get_eq_some_iff, mem_files_below]
  constructor
  · rintro ⟨hf, rfl⟩
    use ⟨root ++ f.path, f.content⟩, Table.get_eq_some_iff.mpr ⟨hf, rfl⟩
  · rintro ⟨g, hg, rfl⟩
    obtain ⟨hg, hpath⟩ := Table.get_eq_some_iff.mp hg
    refine ⟨?_, rfl⟩
    rw [← hpath]
    apply hg

theorem below_append_iff {path path' : List Text} :
  Below (root ++ path) (root ++ path') ↔ Below path path'
  := by
  rw [Below, Below, List.prefix_append_right_inj, ne_eq, List.append_cancel_left_eq]

/-- There is something below a directory in the directory it is seen from. -/
theorem occupied_below (path : List Text) :
  (fs.below root).occupied path = fs.occupied (root ++ path)
  := by
  rw [Bool.eq_iff_iff, occupied_iff, occupied_iff]
  constructor
  · rintro (⟨dir, hdir, hbelow⟩ | ⟨f, hf, hbelow⟩)
    · left
      exact ⟨root ++ dir, mem_directories_below.mp hdir, below_append_iff.mpr hbelow⟩
    · right
      exact ⟨_, mem_files_below.mp hf, below_append_iff.mpr hbelow⟩
  · rintro (⟨dir, hdir, hbelow⟩ | ⟨f, hf, hbelow⟩)
    · obtain ⟨rest, rfl⟩ := (List.prefix_append root path).trans hbelow.1
      left
      exact ⟨rest, mem_directories_below.mpr hdir, below_append_iff.mp hbelow⟩
    · obtain ⟨rest, hrest⟩ := (List.prefix_append root path).trans hbelow.1
      right
      have hmem : ⟨rest, f.content⟩ ∈ (fs.below root).files := by
        rw [mem_files_below, hrest]
        apply hf
      rw [← hrest, below_append_iff] at hbelow
      exact ⟨_, hmem, hbelow⟩

theorem below_rmdir (path : List Text) :
  (fs.rmdir (root ++ path)).below root = (fs.below root).rmdir path
  := by
  rw [rmdir, rmdir, occupied_below]
  split
  · rfl
  · simp only [below]
    congr 1
    apply List.filterMap_filter_comm
    intro dir rest hrest
    rw [pathBelow_eq_some_iff.mp hrest]
    simp

theorem below_erase (path : List Text) :
  FileSystem.below { fs with files := fs.files.erase (root ++ path) } root
    = { fs.below root with files := (fs.below root).files.erase path }
  := by
  simp only [below]
  congr 1
  apply Table.ext_rows
  apply List.filterMap_filter_comm
  intro f g hg
  obtain ⟨rest, hrest, rfl⟩ := Option.map_eq_some_iff.mp hg
  simp [pathBelow_eq_some_iff.mp hrest]

theorem below_cons (path : List Text) :
  FileSystem.below ⟨(root ++ path) :: fs.directories, fs.files⟩ root
    = ⟨path :: (fs.below root).directories, (fs.below root).files⟩
  := by
  simp only [below]
  congr 1
  rw [List.filterMap_cons_some (pathBelow_eq_some_iff.mpr rfl)]

theorem below_put {path : List Text} (h : fs.files.get (root ++ path) = none) (content : Bytes) :
  FileSystem.below ⟨fs.directories, fs.files.put ⟨root ++ path, content⟩⟩ root
    = ⟨(fs.below root).directories, (fs.below root).files.put ⟨path, content⟩⟩
  := by
  have hbelow : (fs.below root).files.get path = none := by
    rw [get_below, h]
    rfl
  have hrow : (pathBelow root (root ++ path)).map (fun path => (⟨path, content⟩ : StoredFile))
      = some ⟨path, content⟩ := by
    rw [pathBelow_eq_some_iff.mpr rfl]
    rfl
  have hfiles : (FileSystem.below ⟨fs.directories, fs.files.put ⟨root ++ path, content⟩⟩ root).files
      = (fs.below root).files.put ⟨path, content⟩ := by
    apply Table.ext_rows
    rw [@Table.rows_put _ _ StoredFile.path _ _ ⟨path, content⟩ hbelow]
    simp only [below]
    rw [@Table.rows_put _ _ StoredFile.path _ _ ⟨root ++ path, content⟩ h, List.filterMap_append]
    simp only [List.filterMap_cons, List.filterMap_nil, hrow]
  exact congrArg (FileSystem.mk (fs.below root).directories) hfiles

end FileSystem

/-- Removing a file of a directory, seen from it. -/
theorem FileTree.below_unlink (fs : FileTree) {root : List Text} (hroot : root ∈ fs.directories)
    (path : List Text) :
  (fs.toFileSystem.below root).unlink path
    = (fs.unlink (root ++ path)).map fun fs' => fs'.below root
  := by
  have hthrough : (∀ f ∈ (fs.toFileSystem.below root).files, ¬ Below f.path path)
      ↔ ∀ f ∈ fs.files, ¬ Below f.path (root ++ path) := by
    constructor
    · intro h f hf hbelow
      rcases List.prefix_or_prefix_of_prefix hbelow.1 (List.prefix_append root path) with hle | hle
      · exact fs.not_prefix_of_file hf hroot hle
      · obtain ⟨rest, hrest⟩ := hle
        rw [← hrest, FileSystem.below_append_iff] at hbelow
        apply h ⟨rest, f.content⟩ _ hbelow
        rw [FileSystem.mem_files_below, hrest]
        apply hf
    · intro h f hf hbelow
      apply h _ (FileSystem.mem_files_below.mp hf)
      apply FileSystem.below_append_iff.mpr hbelow
  cases habsolute : fs.unlink (root ++ path) with
  | ok fs' =>
      obtain ⟨hpath, hfiles, rfl⟩ := FileSystem.unlink_eq_ok_iff.mp habsolute
      apply FileSystem.unlink_eq_ok_iff.mpr
      refine ⟨?_, hthrough.mpr hfiles, ?_⟩
      · rw [FileSystem.mem_directories_below]
        apply hpath
      · apply FileSystem.below_erase
  | error e =>
      cases hrelative : (fs.toFileSystem.below root).unlink path with
      | error e' =>
          rw [FileSystem.unlink_eq_error habsolute, FileSystem.unlink_eq_error hrelative]
          rfl
      | ok fs' =>
          obtain ⟨hpath, hfiles, -⟩ := FileSystem.unlink_eq_ok_iff.mp hrelative
          rw [FileSystem.mem_directories_below] at hpath
          rw [FileSystem.unlink_eq_ok_iff.mpr ⟨hpath, hthrough.mp hfiles, rfl⟩] at habsolute
          cases habsolute

end KnowledgeSearch

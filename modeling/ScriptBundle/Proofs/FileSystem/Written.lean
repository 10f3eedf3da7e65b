import ScriptBundle.Proofs.Except
import ScriptBundle.Proofs.FileSystem.Keys
import ScriptBundle.Proofs.FileSystem.Questions
import ScriptBundle.Proofs.Sorted.Collected

/-!
# Trees with one more file

A file that is written to a tree of files changes the answers about its own path.  It may also change what
the directories above it list, and make directories of the paths above it.

## Main definitions

* `MemoryTree.Keyed`: files are stored under keys of paths; all trees that are made by writing are so.
* `MemoryTree.names`: the names that a directory lists.
* `MemoryTree.Apart`: no stored file is at, above or below a path.

## Main results

* `tidy_write`: keys stay tidy if there are no backslashes in the path of a new file.
* `file?_write`, `isFile_write`: a file that has another key stays as it is.
* `mem_names_write`: what a directory lists if there is one more file.
* `isDirectory_write_self`, `isDirectory_write_of_isFile`: files stay files.
* `mem_names_of_isFile`: **the directory of a stored file lists it, if all keys are tidy.**
-/

namespace ScriptBundle.MemoryTree

variable {t : MemoryTree} {path p d : Path} {file : MemoryFile} {key name : String} {rest : List Char}

/-! ### Keys -/

/-- Files are stored under keys of paths. -/
def Keyed (t : MemoryTree) : Prop := ∀ f ∈ t.files, ∃ p : Path, f.1 = p.key

theorem keyed_empty : Keyed {} := fun _ hf => absurd hf List.not_mem_nil

theorem Keyed.write (h : t.Keyed) (path : Path) (file : MemoryFile) : (t.write path file).Keyed := by
  intro f hf
  rcases Sorted.key_of_mem_insert hf with hkey | ⟨f', hf', hkey⟩
  · exact ⟨path, hkey⟩
  · obtain ⟨p, hp⟩ := h f' hf'
    exact ⟨p, hkey ▸ hp⟩

theorem keyed_ofFiles (files : List (Path × ByteArray)) : (ofFiles files).Keyed :=
  List.foldlRecOn (motive := Keyed) files _ keyed_empty fun _ h f _ => h.write f.1 ⟨f.2, .epoch⟩

/-! ### Listings -/

/-- The names that a directory lists. -/
def names (t : MemoryTree) (key : String) : List String :=
  Sorted.distinct
    ((((t.tails key).map (·.takeWhile (· != '/'))).filter (!·.isEmpty)).map String.ofList)

theorem mem_tails_iff : rest ∈ t.tails key ↔ ∃ f ∈ t.files, below key ++ rest = f.1.toList := by
  rw [tails, List.mem_filterMap]
  simp only [List.isPrefixOf?_eq_some_iff_append_eq]

theorem mem_names_iff :
    name ∈ t.names key ↔ name ≠ "" ∧ ∃ rest ∈ t.tails key, rest.takeWhile (· != '/') = name.toList := by
  rw [names, Sorted.mem_distinct_iff, List.mem_map]
  constructor
  · rintro ⟨cs, hcs, rfl⟩
    obtain ⟨hmem, hne⟩ := List.mem_filter.1 hcs
    obtain ⟨rest, hrest, rfl⟩ := List.mem_map.1 hmem
    refine ⟨fun hempty => ?_, rest, hrest, String.toList_ofList.symm⟩
    rw [← String.toList_inj, String.toList_ofList] at hempty
    simp [hempty] at hne
  · rintro ⟨hne, rest, hrest, hname⟩
    refine ⟨name.toList, List.mem_filter.2 ⟨List.mem_map.2 ⟨rest, hrest, hname⟩, ?_⟩, String.ofList_toList⟩
    simpa using hne

/-- The names in a directory hold neither slashes nor backslashes. -/
theorem plain_of_mem_names (ht : t.Keyed) (h : name ∈ t.names key) :
    '/' ∉ name.toList ∧ '\\' ∉ name.toList := by
  obtain ⟨-, rest, hrest, hname⟩ := mem_names_iff.1 h
  obtain ⟨f, hf, hkey⟩ := mem_tails_iff.1 hrest
  obtain ⟨p, hp⟩ := ht f hf
  rw [← hname]
  constructor
  · intro hslash
    simpa using List.mem_takeWhile_imp hslash
  · intro hback
    have hmem : '\\' ∈ p.key.toList := by
      rw [← hp, ← hkey]
      exact List.mem_append_right _ ((List.takeWhile_prefix _).subset hback)
    exact p.backslash_not_mem_key hmem

theorem isFile_iff : t.fileSystem (.isFile p) = true ↔ ∃ f ∈ t.files, f.1 = p.key := by
  show Sorted.contains p.key t.files = true ↔ _
  rw [Sorted.contains_iff]
  refine exists_congr fun f => and_congr_right fun _ => ?_
  rw [Std.LawfulEqCmp.compare_eq_iff_eq]
  exact eq_comm

theorem isDirectory_iff : t.fileSystem (.isDirectory p) = true ↔ ∃ rest, rest ∈ t.tails p.key := by
  show (!(t.tails p.key).isEmpty) = true ↔ _
  rw [Bool.not_eq_true', List.isEmpty_eq_false_iff_exists_mem]

/-- A directory lists names only if keys go on behind it. -/
theorem names_eq_nil (h : t.fileSystem (.isDirectory p) = false) : t.names p.key = [] := by
  rw [List.eq_nil_iff_forall_not_mem]
  intro name hname
  obtain ⟨-, rest, hrest, -⟩ := mem_names_iff.1 hname
  rw [isDirectory_iff.2 ⟨rest, hrest⟩] at h
  cases h

/-- A file has no entries. -/
theorem entries_of_isFile (h : t.fileSystem (.isFile p) = true) :
    t.fileSystem (.entries p) = .error (.wrongKind p.key "directory") := by
  have hcontains : Sorted.contains p.key t.files = true := h
  show t.entries p = _
  unfold entries
  dsimp only
  rw [if_pos hcontains]

theorem entries_eq (h : t.fileSystem (.isFile p) = false) :
    t.fileSystem (.entries p) = if t.names p.key = [] then .error (.notFound p.key)
      else .ok (t.names p.key) := by
  show t.entries p = _
  have hcontains : Sorted.contains p.key t.files = false := h
  unfold entries names
  dsimp only
  rw [hcontains, if_neg Bool.false_ne_true]
  generalize (Sorted.distinct _ : List String) = listed
  cases listed <;> rfl

/-- The directory of a stored file lists it, if all keys are tidy. -/
theorem mem_names_of_isFile (ht : ∀ f ∈ t.files, Tidy f.1.toList) (hname : Path.IsName name)
    (hback : '\\' ∉ name.toList) (h : t.fileSystem (.isFile (d.join ⟨name⟩)) = true) :
    name ∈ t.names d.key := by
  obtain ⟨f, hf, hkey⟩ := isFile_iff.1 h
  have htidy := ht f hf
  rw [hkey] at htidy
  have hparts := (Path.key_join_name d hname hback).resolve_right (not_not_intro htidy)
  have hrest : name.toList ∈ t.tails d.key := mem_tails_iff.2 ⟨f, hf, by rw [hkey, hparts]⟩
  refine mem_names_iff.2 ⟨hname.ne_empty, name.toList, hrest, ?_⟩
  rw [List.takeWhile_eq_self_iff]
  intro c hc
  simpa using fun heq : c = '/' => hname.slash_not_mem (heq ▸ hc)

/-- Keys stay tidy if there are no backslashes in the path of a new file. -/
theorem tidy_write (ht : ∀ f ∈ t.files, Tidy f.1.toList) (hpath : '\\' ∉ path.text.toList) :
    ∀ f ∈ (t.write path file).files, Tidy f.1.toList := by
  intro f hf
  rcases Sorted.key_of_mem_insert hf with hkey | ⟨f', hf', hkey⟩
  · rw [hkey]
    exact Path.tidy_key hpath
  · rw [← hkey]
    exact ht f' hf'

/-! ### One more file -/

/-- No stored file is at a path, above it or below it. -/
structure Apart (t : MemoryTree) (path : Path) : Prop where
  new : ∀ f ∈ t.files, f.1 ≠ path.key
  not_above : ∀ f ∈ t.files, ¬ below f.1 <+: path.key.toList
  not_below : ∀ f ∈ t.files, ¬ below path.key <+: f.1.toList

theorem find?_write (h : p.key ≠ path.key) :
    Sorted.find? p.key (t.write path file).files = Sorted.find? p.key t.files :=
  Sorted.find?_insert_of_ne (h ∘ Std.LawfulEqCmp.eq_of_compare)

/-- A file that has another key stays as it is. -/
theorem file?_write (h : p.key ≠ path.key) : (t.write path file).file? p = t.file? p := by
  unfold file?
  rw [find?_write h]

theorem content_write (h : p.key ≠ path.key) :
    (t.write path file).fileSystem (.content p) = t.fileSystem (.content p) :=
  congrArg (Except.map MemoryFile.content) (file?_write h)

theorem modified_write (h : p.key ≠ path.key) :
    (t.write path file).fileSystem (.modified p) = t.fileSystem (.modified p) :=
  congrArg (Except.map MemoryFile.modified) (file?_write h)

theorem isFile_write (h : p.key ≠ path.key) :
    (t.write path file).fileSystem (.isFile p) = t.fileSystem (.isFile p) :=
  congrArg Option.isSome (find?_write h)

theorem mem_tails_write (h : t.Apart path) :
    rest ∈ (t.write path file).tails key ↔ below key ++ rest = path.key.toList ∨ rest ∈ t.tails key := by
  rw [mem_tails_iff, mem_tails_iff]
  simp only [write, Sorted.mem_insert h.new, or_and_right, exists_or, exists_eq_left]

/-- The new file is no directory if its path ends with a name. -/
theorem isDirectory_write_self (h : t.Apart path) (hname : below path.key = path.key.toList ++ ['/'])
    (hkey : p.key = path.key) : (t.write path file).fileSystem (.isDirectory p) = false := by
  rw [← Bool.not_eq_true, isDirectory_iff, hkey]
  rintro ⟨rest, hrest⟩
  rcases (mem_tails_write h).1 hrest with hnew | hold
  · have hlength := congrArg List.length hnew
    rw [hname] at hlength
    simp at hlength
  · obtain ⟨f, hf, hstored⟩ := mem_tails_iff.1 hold
    exact h.not_below f hf ⟨rest, hstored⟩

/-- Nothing new goes on behind a file. -/
theorem isDirectory_write_of_isFile (h : t.Apart path) (hfile : t.fileSystem (.isFile p) = true) :
    (t.write path file).fileSystem (.isDirectory p) = t.fileSystem (.isDirectory p) := by
  obtain ⟨f, hf, hkey⟩ := isFile_iff.1 hfile
  rw [Bool.eq_iff_iff, isDirectory_iff, isDirectory_iff]
  refine exists_congr fun rest => ?_
  rw [mem_tails_write h, or_iff_right]
  intro hnew
  rw [← hkey] at hnew
  exact h.not_above f hf ⟨rest, hnew⟩

/-- A directory lists what it has listed, and perhaps the file or the directory that leads to it. -/
theorem mem_names_write (h : t.Apart path) :
    name ∈ (t.write path file).names key ↔ name ∈ t.names key ∨
      name ≠ "" ∧ ∃ rest, below key ++ rest = path.key.toList ∧ rest.takeWhile (· != '/') = name.toList := by
  rw [mem_names_iff, mem_names_iff]
  simp only [mem_tails_write h, or_and_right, exists_or, and_or_left]
  rw [or_comm]

end ScriptBundle.MemoryTree

import ScriptBundle.Proofs.FileSystem.Scan
import ScriptBundle.Proofs.Text.Trimmed

/-!
# What is a directory, and what it lists

A tree of files has no directories of its own: a path is one if some key goes on behind it.  So nothing
keeps a file from lying below another one, and then the upper path is both a file and a directory, with
nothing to list.  A key may also go on with another slash: at the root, seen from the empty path, and
where backslashes have left slashes in a row.  Such a key makes a directory and adds no name to its listing.

If there are no backslashes in paths, then a directory lists exactly the names behind which a file or a
directory can be found.

## Main definitions

* `Path.IsPlain`: there are no backslashes in a path.
* `FileSystem.pathExists`: there is a file or a directory at a path.
* `MemoryTree.DirectoryAnswers`: what a tree answers about a path as a directory.

## Main results

* `exists_entries_iff_exists_key`, `isFile_and_isDirectory_iff`: which paths can be listed, and which are both
  files and directories.
* `MadeBy.isDirectory_and_entries`: **which paths are directories, and which of them can be listed.**
* `pathExists_join_iff`: what there is behind a directory.
* `MadeBy.mem_entries_iff`: **a listing has the names of all that exists in a directory, in order.**
-/

namespace ScriptBundle

/-- There are no backslashes in the path. -/
def Path.IsPlain (p : Path) : Prop := '\\' ∉ p.text.toList

instance (p : Path) : Decidable p.IsPlain := inferInstanceAs (Decidable (¬ _))

/-- There is a file or a directory at the path. -/
def FileSystem.pathExists (fs : FileSystem) (p : Path) : Bool := fs (.isFile p) || fs (.isDirectory p)

/-- What stands before the first slash. -/
theorem takeWhile_eq_iff {rest cs : List Char} (hcs : '/' ∉ cs) :
    rest.takeWhile (· != '/') = cs ↔ rest = cs ∨ ∃ behind, rest = cs ++ '/' :: behind := by
  constructor
  · rintro rfl
    have hpieces : rest.takeWhile (· != '/') ++ rest.dropWhile (· != '/') = rest :=
      List.takeWhile_append_dropWhile
    cases hdrop : rest.dropWhile (· != '/') with
    | nil =>
      left
      rw [hdrop, List.append_nil] at hpieces
      exact hpieces.symm
    | cons c behind =>
      right
      obtain rfl : c = '/' := by
        have hstop := List.head_dropWhile_not (· != '/') (l := rest) (by simp [hdrop])
        simpa [hdrop] using hstop
      exact ⟨behind, hdrop ▸ hpieces.symm⟩
  · rintro (rfl | ⟨behind, rfl⟩)
    · exact List.takeWhile_eq_self_iff.2 (Text.bne_of_mem hcs)
    · exact Text.takeWhile_bne hcs behind

namespace Path

variable {p q : Path} {name : String} {cs : List Char}

/-- The pieces of a key between slashes are names, apart from empty ones. -/
theorem IsPlain.isName_of_mem_splitOn (hq : q.IsPlain) (h : cs ∈ q.key.toList.splitOn '/') (hcs : cs ≠ []) :
    IsName (String.ofList cs) := by
  have hnames : cs ∈ q.keyNames := by
    have hpieces : cs ∈ (['/'].intercalate q.keyNames).splitOn '/' := by
      rw [toList_key, keyStart] at h
      split_ifs at h
      · rw [List.singleton_append, ← List.nil_append ('/' :: _), List.splitOn_append_cons_self,
          List.splitOn_nil] at h
        exact (List.mem_cons.1 h).resolve_left hcs
      · exact h
    by_cases hnil : q.keyNames = []
    · rw [hnil] at hpieces
      exact absurd (List.mem_singleton.1 hpieces) hcs
    · rwa [List.splitOn_intercalate '/' (fun k hk => slash_not_mem_of_mem_keyNames hq hk) hnil] at hpieces
  obtain ⟨name, hname, rfl⟩ := exists_of_mem_keyNames hnames
  rw [keyName_eq (backslash_not_mem_of_name_mem hq hname), String.ofList_toList]
  exact isName_of_name_mem hname

theorem IsPlain.join (hp : p.IsPlain) (hback : '\\' ∉ name.toList) : (p.join ⟨name⟩).IsPlain := by
  unfold Path.join IsPlain
  dsimp only
  split_ifs
  · exact hback
  · rw [String.toList_append, List.mem_append, not_or]
    exact ⟨hp, hback⟩
  · rw [String.toList_append, String.toList_append, List.mem_append, List.mem_append, not_or, not_or]
    exact ⟨⟨hp, by decide⟩, hback⟩

/-- Only the key of the root ends with a slash. -/
theorem IsPlain.key_eq_root (hq : q.IsPlain) (h : q.key.toList.getLast? = some '/') : q.key = "/" := by
  by_contra hroot
  refine getLast?_key_ne hq (fun hempty => ?_) hroot h
  rw [hempty] at h
  cases h

/-- The key of a path with a name behind it. -/
theorem IsPlain.toList_key_join (hp : p.IsPlain) (hname : IsName name) (hback : '\\' ∉ name.toList) :
    (p.join ⟨name⟩).key.toList = MemoryTree.below p.key ++ name.toList :=
  (key_join_name p hname hback).resolve_right (not_not_intro (tidy_key (hp.join hback)))

end Path

namespace MemoryTree

variable {t : MemoryTree} {P : Path → Prop} {p : Path} {key name : String} {names : List String}
  {rest : List Char}

/-! ### Directories -/

/-- What stands behind a key starts behind a slash, or with the key. -/
theorem below_cases (key : String) : below key = [] ∨ ∃ cs, below key = cs ++ ['/'] := by
  unfold below
  dsimp only
  split_ifs with h
  · rcases (Bool.or_eq_true _ _).mp h with hempty | hlast
    · exact .inl (List.isEmpty_iff.1 hempty)
    · exact .inr (List.getLast?_eq_some_iff.1 (beq_iff_eq.1 hlast))
  · exact .inr ⟨key.toList, rfl⟩

theorem below_eq_nil_iff : below key = [] ↔ key = "" := by
  constructor
  · intro h
    unfold below at h
    dsimp only at h
    split_ifs at h
    · exact String.toList_inj.1 h
    · simp at h
  · rintro rfl
    rfl

theorem below_eq_root_iff : below key = ['/'] ↔ key = "/" := by
  constructor
  · intro h
    unfold below at h
    dsimp only at h
    split_ifs at h with hslash
    · exact String.toList_inj.1 h
    · have hempty : key.toList = [] := List.append_cancel_right (h.trans (List.nil_append ['/']).symm)
      simp [hempty] at hslash
  · rintro rfl
    rfl

/-- A directory lists something if a key goes on with a name. -/
theorem names_ne_nil_iff : t.names key ≠ [] ↔ ∃ c rest, c ≠ '/' ∧ c :: rest ∈ t.tails key := by
  constructor
  · intro hnames
    obtain ⟨name, hname⟩ := List.exists_mem_of_ne_nil _ hnames
    obtain ⟨hne, rest, hrest, htake⟩ := mem_names_iff.1 hname
    cases rest with
    | nil => exact absurd (String.toList_inj.1 htake.symm) hne
    | cons c rest =>
      refine ⟨c, rest, ?_, hrest⟩
      rintro rfl
      rw [List.takeWhile_cons_of_neg (by simp)] at htake
      exact hne (String.toList_inj.1 htake.symm)
  · rintro ⟨c, rest, hc, hrest⟩
    have hname : String.ofList ((c :: rest).takeWhile (· != '/')) ∈ t.names key := by
      refine mem_names_iff.2 ⟨?_, c :: rest, hrest, String.toList_ofList.symm⟩
      rw [← String.toList_inj.ne, String.toList_ofList, List.takeWhile_cons_of_pos (by simpa using hc)]
      exact List.cons_ne_nil _ _
    exact List.ne_nil_of_mem hname

/-- A path can be listed if there is no file and there are names. -/
theorem exists_entries_iff : (∃ names, t.fileSystem (.entries p) = .ok names)
    ↔ t.fileSystem (.isFile p) = false ∧ t.names p.key ≠ [] := by
  cases hfile : t.fileSystem (.isFile p) with
  | true => simp [entries_of_isFile hfile]
  | false =>
    rw [entries_eq hfile]
    split_ifs with hnames <;> simp [hnames]

/-- A path that can be listed is a directory. -/
theorem isDirectory_of_entries (h : t.fileSystem (.entries p) = .ok names) :
    t.fileSystem (.isDirectory p) = true := by
  by_contra hnot
  exact (exists_entries_iff.1 ⟨names, h⟩).2 (names_eq_nil (Bool.not_eq_true _ ▸ hnot))

/-- A path can be listed if there is no file and some key goes on behind it with a name. -/
theorem exists_entries_iff_exists_key : (∃ names, t.fileSystem (.entries p) = .ok names)
    ↔ t.fileSystem (.isFile p) = false
      ∧ ∃ f ∈ t.files, ∃ c rest, c ≠ '/' ∧ below p.key ++ c :: rest = f.1.toList := by
  rw [exists_entries_iff, names_ne_nil_iff]
  refine and_congr_right fun _ => ?_
  simp only [mem_tails_iff]
  constructor
  · rintro ⟨c, rest, hc, f, hf, hkey⟩
    exact ⟨f, hf, c, rest, hc, hkey⟩
  · rintro ⟨f, hf, c, rest, hc, hkey⟩
    exact ⟨c, rest, hc, f, hf, hkey⟩

/-- A path is a file and a directory if a file is stored there and another one below it. -/
theorem isFile_and_isDirectory_iff (hempty : p.key ≠ "") (hlast : p.key.toList.getLast? ≠ some '/') :
    t.fileSystem (.isFile p) = true ∧ t.fileSystem (.isDirectory p) = true
      ↔ (∃ f ∈ t.files, f.1 = p.key) ∧ ∃ f ∈ t.files, p.key.toList ++ ['/'] <+: f.1.toList := by
  rw [isFile_iff, isDirectory_iff]
  refine and_congr_right fun _ => ?_
  simp only [mem_tails_iff, below_eq hempty hlast]
  constructor
  · rintro ⟨rest, f, hf, hkey⟩
    exact ⟨f, hf, rest, hkey⟩
  · rintro ⟨f, hf, rest, hkey⟩
    exact ⟨rest, f, hf, hkey⟩

/-- In a tree without backslashes a key goes on with a name behind every directory that is no file, but for
the empty path. -/
theorem MadeBy.names_ne_nil (ht : t.MadeBy Path.IsPlain) (hp : p.key ≠ "")
    (hfile : t.fileSystem (.isFile p) = false) (h : t.fileSystem (.isDirectory p) = true) :
    t.names p.key ≠ [] := by
  obtain ⟨rest, hrest⟩ := isDirectory_iff.1 h
  obtain ⟨f, hf, hkey⟩ := mem_tails_iff.1 hrest
  obtain ⟨q, hq, hfq⟩ := ht.exists_path f hf
  obtain ⟨cs, hbelow⟩ := (below_cases p.key).resolve_left (below_eq_nil_iff.not.2 hp)
  rw [hfq] at hkey
  rw [names_ne_nil_iff]
  cases rest with
  | cons c rest =>
    refine ⟨c, rest, ?_, hrest⟩
    rintro rfl
    apply Path.tidy_key hq
    rw [← hkey, hbelow]
    exact ⟨cs, rest, by simp⟩
  | nil =>
    -- only the key of the root ends with a slash, and then the path is the root as well
    exfalso
    rw [List.append_nil] at hkey
    have hroot : q.key = "/" := hq.key_eq_root (by rw [← hkey, hbelow, List.getLast?_concat])
    have hself : p.key = "/" := below_eq_root_iff.1 (hkey.trans (congrArg String.toList hroot))
    rw [isFile_iff.2 ⟨f, hf, by rw [hfq, hroot, hself]⟩] at hfile
    cases hfile

/-- What a tree of files, stored at paths of some kind, answers about a path as a directory. -/
structure DirectoryAnswers (t : MemoryTree) (P : Path → Prop) (p : Path) : Prop where
  /-- Scans of the keys give both answers. -/
  isDirectory_eq : t.fileSystem (.isDirectory p) = t.scannedIsDirectory p
  entries_eq : t.fileSystem (.entries p) = t.scannedEntries p
  /-- A path can be listed if no file is stored there and some key goes on behind it with a name. -/
  listed_iff : (∃ names, t.fileSystem (.entries p) = .ok names) ↔
    t.fileSystem (.isFile p) = false
      ∧ ∃ f ∈ t.files, ∃ c rest, c ≠ '/' ∧ MemoryTree.below p.key ++ c :: rest = f.1.toList
  isDirectory_of_listed :
    (∃ names, t.fileSystem (.entries p) = .ok names) → t.fileSystem (.isDirectory p) = true
  /-- A path is both a file and a directory if a file is stored there and another one below it. -/
  both_iff : p.key ≠ "" → p.key.toList.getLast? ≠ some '/' →
    (t.fileSystem (.isFile p) = true ∧ t.fileSystem (.isDirectory p) = true ↔
      (∃ f ∈ t.files, f.1 = p.key) ∧ ∃ f ∈ t.files, p.key.toList ++ ['/'] <+: f.1.toList)
  /-- If there are no backslashes in the paths of the files, then all directories can be listed that are no
  files, but for the empty path. -/
  listed_iff_of_plain : (∀ path, P path → path.IsPlain) → p.key ≠ "" →
    ((∃ names, t.fileSystem (.entries p) = .ok names) ↔
      t.fileSystem (.isFile p) = false ∧ t.fileSystem (.isDirectory p) = true)

/-- In a tree without backslashes the directories that are no files can be listed, but for the empty path. -/
theorem MadeBy.exists_entries_iff_isDirectory (ht : t.MadeBy Path.IsPlain) (hp : p.key ≠ "") :
    (∃ names, t.fileSystem (.entries p) = .ok names) ↔
      t.fileSystem (.isFile p) = false ∧ t.fileSystem (.isDirectory p) = true := by
  constructor
  · rintro ⟨names, hentries⟩
    exact ⟨(exists_entries_iff.1 ⟨names, hentries⟩).1, isDirectory_of_entries hentries⟩
  · rintro ⟨hfile, hdirectory⟩
    exact exists_entries_iff.2 ⟨hfile, ht.names_ne_nil hp hfile hdirectory⟩

/-- **Which paths are directories, and which of them can be listed.** -/
theorem MadeBy.isDirectory_and_entries (ht : t.MadeBy P) (p : Path) : t.DirectoryAnswers P p where
  isDirectory_eq := isDirectory_eq_scannedIsDirectory ht.ascending p
  entries_eq := entries_eq_scannedEntries ht.ascending p
  listed_iff := exists_entries_iff_exists_key
  isDirectory_of_listed := fun ⟨_, hentries⟩ => isDirectory_of_entries hentries
  both_iff := isFile_and_isDirectory_iff
  listed_iff_of_plain := fun hplain hp => (ht.mono hplain).exists_entries_iff_isDirectory hp

/-- A file, and another one below it. -/
def nestedFiles : MemoryTree := .ofFiles [(⟨"/a"⟩, .empty), (⟨"/a/b"⟩, .empty)]

theorem nestedFiles_isDirectory_and_entries :
    (nestedFiles.fileSystem (.isFile ⟨"/a"⟩) = true ∧ nestedFiles.fileSystem (.isDirectory ⟨"/a"⟩) = true) ∧
      ∃ names, nestedFiles.fileSystem (.entries ⟨"/a/../."⟩) = .ok names := by
  have hmade : nestedFiles.MadeBy Path.IsPlain := .ofFiles _ (by decide)
  have hupper := MadeBy.isDirectory_and_entries hmade ⟨"/a"⟩
  have hroot := MadeBy.isDirectory_and_entries hmade ⟨"/a/../."⟩
  constructor
  · exact (hupper.both_iff (by decide +kernel) (by decide +kernel)).2 (by decide +kernel)
  · exact (hroot.listed_iff_of_plain (fun _ hpath => hpath) (by decide +kernel)).2 (by decide +kernel)

/-- A path can be both a file and a directory, and then it cannot be listed.  Nor can the empty path if all
files lie below the root, or a path with nothing behind it but a backslash. -/
theorem nestedFiles_not_listed :
    (nestedFiles.MadeBy (fun _ => True) ∧
      nestedFiles.fileSystem (.isFile ⟨"/a"⟩) = true ∧ nestedFiles.fileSystem (.isDirectory ⟨"/a"⟩) = true ∧
      nestedFiles.fileSystem (.entries ⟨"/a"⟩) = .error (.wrongKind "/a" "directory")) ∧
    (nestedFiles.fileSystem (.isDirectory ⟨""⟩) = true ∧
      nestedFiles.fileSystem (.entries ⟨""⟩) = .error (.notFound "")) ∧
    let escaped := nestedFiles.write ⟨"/c\\"⟩ ⟨.empty, .epoch⟩
    escaped.MadeBy (fun _ => True) ∧
      escaped.fileSystem (.isFile ⟨"/c"⟩) = false ∧ escaped.fileSystem (.isDirectory ⟨"/c"⟩) = true ∧
      escaped.fileSystem (.entries ⟨"/c"⟩) = .error (.notFound "/c") := by
  have hmade : nestedFiles.MadeBy fun _ => True := .ofFiles _ fun _ _ => trivial
  refine ⟨⟨hmade, ?_⟩, ?_, .write hmade trivial _, ?_⟩
  · decide +kernel
  · decide +kernel
  · decide +kernel

/-! ### Listings -/

/-- What exists behind a directory under a name. -/
theorem pathExists_join_iff (hp : p.IsPlain) (hname : Path.IsName name) (hback : '\\' ∉ name.toList) :
    t.fileSystem.pathExists (p.join ⟨name⟩) = true
      ↔ ∃ rest ∈ t.tails p.key, rest.takeWhile (· != '/') = name.toList := by
  have hkey := hp.toList_key_join hname hback
  have hne : name.toList ≠ [] := String.toList_inj.ne.2 hname.ne_empty
  have hbelow : below (p.join ⟨name⟩).key = below p.key ++ name.toList ++ ['/'] := by
    rw [← hkey]
    apply below_eq
    · rw [← String.toList_inj.ne, hkey]
      exact List.append_ne_nil_of_right_ne_nil _ hne
    · rw [hkey, List.getLast?_append_of_ne_nil _ hne]
      exact fun hlast => hname.slash_not_mem (List.mem_of_getLast? hlast)
  have hfile : t.fileSystem (.isFile (p.join ⟨name⟩)) = true ↔ name.toList ∈ t.tails p.key := by
    rw [isFile_iff, mem_tails_iff, ← hkey]
    refine exists_congr fun f => and_congr_right fun _ => ?_
    rw [String.toList_inj, eq_comm]
  have hdirectory : t.fileSystem (.isDirectory (p.join ⟨name⟩)) = true
      ↔ ∃ behind, name.toList ++ '/' :: behind ∈ t.tails p.key := by
    rw [isDirectory_iff]
    refine exists_congr fun behind => ?_
    rw [mem_tails_iff, mem_tails_iff, hbelow]
    simp
  rw [FileSystem.pathExists, Bool.or_eq_true, hfile, hdirectory]
  simp only [takeWhile_eq_iff hname.slash_not_mem]
  constructor
  · rintro (hmem | ⟨behind, hmem⟩)
    · exact ⟨_, hmem, .inl rfl⟩
    · exact ⟨_, hmem, .inr ⟨behind, rfl⟩⟩
  · rintro ⟨rest, hmem, rfl | ⟨behind, rfl⟩⟩
    · exact .inl hmem
    · exact .inr ⟨behind, hmem⟩

/-- In a tree without backslashes the pieces that a listing cuts off are names. -/
theorem MadeBy.isName_of_mem_names (ht : t.MadeBy Path.IsPlain) (h : name ∈ t.names key) :
    Path.IsName name := by
  obtain ⟨hne, rest, hrest, htake⟩ := mem_names_iff.1 h
  obtain ⟨f, hf, hkey⟩ := mem_tails_iff.1 hrest
  obtain ⟨q, hq, hfq⟩ := ht.exists_path f hf
  have hpiece : name.toList ∈ rest.splitOn '/' := by
    apply List.mem_of_head?
    rw [head?_splitOn, htake]
  have hpieces : name.toList ∈ q.key.toList.splitOn '/' := by
    rw [← hfq, ← hkey]
    rcases below_cases key with hbelow | ⟨cs, hbelow⟩
    · rwa [hbelow]
    · rw [hbelow, List.append_assoc, List.singleton_append, List.splitOn_append_cons_self]
      exact List.mem_append_right _ hpiece
  have hnonempty : name.toList ≠ [] := String.toList_inj.ne.2 hne
  rw [← name.ofList_toList]
  exact hq.isName_of_mem_splitOn hpieces hnonempty

/-- **A listing has the names of all that exists in a directory, in order.**  It can be found by a scan of
the keys behind the directory. -/
theorem MadeBy.mem_entries_iff (ht : t.MadeBy Path.IsPlain) (hp : p.IsPlain)
    (h : t.fileSystem (.entries p) = .ok names) :
    t.scannedEntries p = .ok names ∧ names.Pairwise (· < ·) ∧
      ∀ name, name ∈ names ↔ Path.IsName name ∧ '\\' ∉ name.toList ∧
        t.fileSystem.pathExists (p.join ⟨name⟩) = true := by
  have hfile : t.fileSystem (.isFile p) = false := (exists_entries_iff.1 ⟨names, h⟩).1
  have hnames : names = t.names p.key := by
    rw [entries_eq hfile] at h
    split_ifs at h
    exact (Except.ok.inj h).symm
  subst hnames
  refine ⟨(entries_eq_scannedEntries ht.ascending p).symm.trans h, ?_, fun name => ?_⟩
  · exact (Sorted.pairwise_distinct _).imp compare_lt_iff_lt.1
  · constructor
    · intro hmem
      have hname := ht.isName_of_mem_names hmem
      have hback := (plain_of_mem_names ht.keyed hmem).2
      exact ⟨hname, hback, (pathExists_join_iff hp hname hback).2 (mem_names_iff.1 hmem).2⟩
    · rintro ⟨hname, hback, hexists⟩
      exact mem_names_iff.2 ⟨hname.ne_empty, (pathExists_join_iff hp hname hback).1 hexists⟩

/-- A directory, and others whose keys stand before and behind those in it. -/
def siblingFiles : MemoryTree :=
  .ofFiles
    [(⟨"/js-x/0.js"⟩, .empty), (⟨"/js.x"⟩, .empty), (⟨"/js/10_z.js"⟩, .empty), (⟨"/js/2_b.js"⟩, .empty),
     (⟨"/js/lib/0.js"⟩, .empty), (⟨"/js/lib/1.js"⟩, .empty), (⟨"/jsx/other.js"⟩, .empty)]

theorem siblingFiles_mem_entries :
    siblingFiles.fileSystem (.entries ⟨"/js/./lib/.."⟩) = .ok ["10_z.js", "2_b.js", "lib"] ∧
      ∀ name, name ∈ ["10_z.js", "2_b.js", "lib"] ↔ Path.IsName name ∧ '\\' ∉ name.toList ∧
        siblingFiles.fileSystem.pathExists ((Path.mk "/js/./lib/..").join ⟨name⟩) = true := by
  have hmade : siblingFiles.MadeBy Path.IsPlain := .ofFiles _ (by decide)
  have hentries : siblingFiles.fileSystem (.entries ⟨"/js/./lib/.."⟩) = .ok ["10_z.js", "2_b.js", "lib"] := by
    decide +kernel
  exact ⟨hentries, (MadeBy.mem_entries_iff hmade (by decide) hentries).2.2⟩

end MemoryTree

end ScriptBundle

import ScriptBundle.Proofs.FileSystem.Written
import ScriptBundle.Proofs.Survey.Modules

/-!
# Surveys do not see files that nobody asks for

A survey lists directories, so that it meets the names of files that it does not want.  It passes them
over: a name without a number, or with a number that is not selected, leaves the modules as they are.  So
a new file makes no difference to surveys that do not ask for it.

Directories are found by their own keys and files by those of their paths, so that a file may be there that
its directory does not list.  A new file could bring it to light.  This is excluded if the directories list
the module files that are asked for.

## Main definitions

* `Survey.Unasked`: nobody asks for the file at a path.
* `Survey.Listed`: the directories of categories list the module files that are asked for.
* `Request.Selects`: a request selects an id.

## Main results

* `listing_eq`: what is listed for a category, by the names that stand in the keys.
* `outcome_addEntry_of_new`, `outcome_addEntry_write`: a name that is new is passed over, and at the others
  everything is as before.
* `outcome_survey_write`: **a survey that does not ask for a new file finds what it has found before.**
-/

namespace ScriptBundle

/-! ### Reading -/

/-- A computation has the same result where its questions have the same answers. -/
theorem Access.StaysIn.run_eq {α : Type} {fs fs' : FileSystem} {admits : (q : Question) → q.Answer → Prop}
    {Q : α → Prop} {x : Access α} (hadmits : ∀ q, admits q (fs q))
    (h : StaysIn admits (fun q => fs' q = fs q) Q x) : run fs' x = run fs x := by
  induction h with
  | done _ => rfl
  | @ask q next hq _ ih =>
    show run fs' (next (fs' q)) = run fs (next (fs q))
    rw [hq]
    exact ih (fs q) (hadmits q)

/-- A file is read as before if the new one is another one. -/
theorem BundleAccess.outcome_text?_write {t : MemoryTree} {path p : Path} {file : MemoryFile}
    (h : p.key ≠ path.key) : outcome (t.write path file).fileSystem (text? p)
      = outcome t.fileSystem (text? p) :=
  Access.StaysIn.run_eq t.plainNames
    (staysIn_text? (MemoryTree.content_write h) (MemoryTree.modified_write h))

open BundleAccess

/-- A request selects an id. -/
def Request.Selects (c : Convention) (id : ModuleId) : Request → Prop
  | .file _ => False
  | .modules _ _ selections =>
    ∃ wanted ∈ selections, c.canonical wanted.1 = id.category ∧ wanted.2.includes id.number = true

namespace Survey

variable {c : Convention} {t : MemoryTree} {path dir p d : Path} {file : MemoryFile}
  {key : ModuleKey} {category name : String} {number : Option Nat} {id : ModuleId}
  {asked : ModuleId → Prop} {known : ModuleKey → Bool} {selection : Selection} {modules : ModuleMap}

/-- A module is read as before if the new file is another one. -/
theorem outcome_load_write (h : p.key ≠ path.key) :
    outcome (t.write path file).fileSystem (load c p key category number)
      = outcome t.fileSystem (load c p key category number) := by
  rw [load, outcome_bind, outcome_bind, outcome_text?_write h]
  refine congrArg _ (funext fun text => ?_)
  cases text with
  | none => rfl
  | some text =>
    dsimp only
    rw [outcome_bind, outcome_bind]
    unfold manifest
    cases Manifest.ofSource c text.1.toList <;> rfl

/-! ### Files that nobody asks for -/

/-- Nobody asks for the file at a path: it has a name, there are no backslashes in the path, and in the
directories of the categories that are asked for it has none of the numbers. -/
structure Unasked (c : Convention) (dir : Path) (asked : ModuleId → Prop) (path : Path) : Prop where
  plain : '\\' ∉ path.text.toList
  named : path.key ≠ "" ∧ path.key ≠ "/"
  number : ∀ id, asked id → ∀ d name, categoryDirectory? c dir id.category = some d →
    '/' ∉ name.toList → MemoryTree.below d.key ++ name.toList = path.key.toList →
      moduleNumber? c.extension name ≠ some id.number

/-- The directories of categories list the module files that are asked for. -/
def Listed (c : Convention) (t : MemoryTree) (dir : Path) (asked : ModuleId → Prop) : Prop :=
  ∀ id, asked id → ∀ d name, categoryDirectory? c dir id.category = some d →
    moduleNumber? c.extension name = some id.number → '/' ∉ name.toList → '\\' ∉ name.toList →
      t.fileSystem (.isFile (d.join ⟨name⟩)) = true → name ∈ t.names d.key

theorem Unasked.mono {asked' : ModuleId → Prop} (h : Unasked c dir asked path)
    (hasked : ∀ id, asked' id → asked id) : Unasked c dir asked' path :=
  ⟨h.plain, h.named, fun id hid => h.number id (hasked id hid)⟩

theorem Listed.mono {asked' : ModuleId → Prop} (h : Listed c t dir asked)
    (hasked : ∀ id, asked' id → asked id) : Listed c t dir asked' := fun id hid => h id (hasked id hid)

/-- They do so if no key has two slashes in a row. -/
theorem listed_of_tidy (h : ∀ f ∈ t.files, Tidy f.1.toList) : Listed c t dir asked :=
  fun _ _ _ _ _ hnumber hslash hback hfile =>
    MemoryTree.mem_names_of_isFile h (Path.isName_of_moduleNumber? hnumber hslash) hback hfile

/-- A module file that is asked for is another file. -/
theorem Unasked.key_join_ne (h : Unasked c dir asked path) (hid : asked id)
    (hd : categoryDirectory? c dir id.category = some d)
    (hnumber : moduleNumber? c.extension name = some id.number) (hslash : '/' ∉ name.toList)
    (hback : '\\' ∉ name.toList) : (d.join ⟨name⟩).key ≠ path.key := by
  intro hkey
  have htidy : Tidy path.key.toList := Path.tidy_key h.plain
  have hparts := Path.key_join_name d (Path.isName_of_moduleNumber? hnumber hslash) hback
  rw [hkey] at hparts
  exact h.number id hid d name hd hslash (hparts.resolve_right (not_not_intro htidy)).symm hnumber

theorem moduleAt_write (h : (d.join ⟨name⟩).key ≠ path.key) :
    moduleAt c (t.write path file).fileSystem d id name = moduleAt c t.fileSystem d id name := by
  rw [moduleAt, moduleAt, MemoryTree.isFile_write h, outcome_load_write h]

/-! ### Listings -/

/-- What is listed for a category, by the names that stand in the keys. -/
theorem listing_eq (hd : categoryDirectory? c dir category = some d) :
    listing c t.fileSystem dir category
      = if t.fileSystem (.isDirectory d) = true ∧ t.fileSystem (.isFile d) = true then
          .error (.error (.io d (.wrongKind d.key "directory")))
        else .ok (d, t.names d.key) := by
  unfold listing
  rw [hd]
  dsimp only
  cases hdirectory : t.fileSystem (.isDirectory d) with
  | false =>
    rw [MemoryTree.names_eq_nil hdirectory]
    simp
  | true =>
    cases hfile : t.fileSystem (.isFile d) with
    | true =>
      rw [MemoryTree.entries_of_isFile hfile]
      rfl
    | false =>
      rw [MemoryTree.entries_eq hfile]
      by_cases hnames : t.names d.key = []
      · rw [hnames]
        rfl
      · rw [if_neg hnames]
        rfl

/-- The same paths are both a file and a directory. -/
theorem isDirectory_and_isFile_write (hapart : t.Apart path) (hpath : Unasked c dir asked path) :
    ((t.write path file).fileSystem (.isDirectory d) = true
        ∧ (t.write path file).fileSystem (.isFile d) = true)
      ↔ t.fileSystem (.isDirectory d) = true ∧ t.fileSystem (.isFile d) = true := by
  by_cases hkey : d.key = path.key
  · -- the new file is a file only, and nothing was there before
    have hname : MemoryTree.below path.key = path.key.toList ++ ['/'] :=
      MemoryTree.below_eq hpath.named.1 (Path.getLast?_key_ne hpath.plain hpath.named.1 hpath.named.2)
    refine iff_of_false ?_ ?_
    · rintro ⟨hdirectory, -⟩
      rw [MemoryTree.isDirectory_write_self hapart hname hkey] at hdirectory
      cases hdirectory
    · rintro ⟨-, hfile⟩
      obtain ⟨f, hf, hstored⟩ := MemoryTree.isFile_iff.1 hfile
      exact hapart.new f hf (hstored.trans hkey)
  · rw [MemoryTree.isFile_write hkey]
    refine and_congr_left ?_
    intro hfile
    rw [MemoryTree.isDirectory_write_of_isFile hapart hfile]

/-! ### Surveys -/

section

variable (ht : t.Keyed) (hapart : t.Apart path) (hpath : Unasked c dir asked path)
  (hd : categoryDirectory? c dir category = some d)
  (hasked : ∀ id, AsksFor known category selection id → asked id)

include ht hpath hd hasked

/-- At a name that was listed before everything is as before. -/
theorem outcome_addEntry_write (hname : name ∈ t.names d.key) :
    outcome (t.write path file).fileSystem (addEntry c known d category selection modules name)
      = outcome t.fileSystem (addEntry c known d category selection modules name) := by
  rw [outcome_addEntry, outcome_addEntry]
  cases hnumber : moduleNumber? c.extension name with
  | none => rfl
  | some n =>
    dsimp only
    by_cases hopen : AsksFor known category selection ⟨category, n⟩ ∧
        Sorted.contains (.numbered ⟨category, n⟩) modules = false
    · obtain ⟨hslash, hback⟩ := MemoryTree.plain_of_mem_names ht hname
      have hne := hpath.key_join_ne (hasked _ hopen.1) hd hnumber hslash hback
      rw [if_pos hopen, if_pos hopen, moduleAt_write hne]
    · rw [if_neg hopen, if_neg hopen]

/-- A name that was not listed before is passed over. -/
theorem outcome_addEntry_of_new (hlisted : Listed c t dir asked)
    (hname : name ∈ (t.write path file).names d.key) (hnew : name ∉ t.names d.key) :
    outcome (t.write path file).fileSystem (addEntry c known d category selection modules name)
      = .ok modules := by
  rw [outcome_addEntry]
  cases hnumber : moduleNumber? c.extension name with
  | none => rfl
  | some n =>
    dsimp only
    by_cases hopen : AsksFor known category selection ⟨category, n⟩ ∧
        Sorted.contains (.numbered ⟨category, n⟩) modules = false
    · have hid : asked ⟨category, n⟩ := hasked _ hopen.1
      obtain ⟨hslash, hback⟩ := MemoryTree.plain_of_mem_names (ht.write path file) hname
      have hne := hpath.key_join_ne hid hd hnumber hslash hback
      -- there is no such file: it would have been listed
      have hfile : ¬ t.fileSystem (.isFile (d.join ⟨name⟩)) = true :=
        fun hfile => hnew (hlisted _ hid d name hd hnumber hslash hback hfile)
      rw [if_pos hopen, moduleAt_write hne, moduleAt, if_neg fun h => hfile h.2]
      rfl
    · rw [if_neg hopen]

end

section

variable (ht : t.Keyed) (hapart : t.Apart path) (hpath : Unasked c dir asked path)
  (hlisted : Listed c t dir asked)

include ht hapart hpath hlisted

/-- What is selected in a directory is what was selected in it before. -/
theorem foldlM_addEntry_write (hd : categoryDirectory? c dir category = some d)
    (hasked : ∀ id, AsksFor known category selection id → asked id) :
    ((t.write path file).names d.key).foldlM (fun modules name =>
        outcome (t.write path file).fileSystem (addEntry c known d category selection modules name)) modules
      = (t.names d.key).foldlM (fun modules name =>
        outcome t.fileSystem (addEntry c known d category selection modules name)) modules := by
  have hfilter : ((t.write path file).names d.key).filter (· ∈ t.names d.key) = t.names d.key := by
    refine Sorted.eq_of_pairwise Sorted.compare_lt_asymm ((Sorted.pairwise_distinct _).filter _)
      (Sorted.pairwise_distinct _) fun name => ?_
    rw [List.mem_filter, decide_eq_true_iff, and_iff_right_iff_imp]
    intro hname
    exact (MemoryTree.mem_names_write hapart).2 (.inl hname)
  -- the names that were listed before are left when the others are passed over
  rw [← hfilter, List.foldlM_filter]
  refine foldlM_congr (fun modules name hname => ?_) modules
  by_cases hold : name ∈ t.names d.key
  · rw [if_pos (decide_eq_true hold)]
    exact outcome_addEntry_write ht hpath hd hasked hold
  · rw [if_neg (by simpa using hold)]
    exact outcome_addEntry_of_new ht hpath hd hasked hlisted hname hold

theorem outcome_addCategory_write {wanted : String × Selection}
    (hasked : ∀ id, AsksFor known (c.canonical wanted.1) wanted.2 id → asked id) :
    outcome (t.write path file).fileSystem (addCategory c known dir modules wanted)
      = outcome t.fileSystem (addCategory c known dir modules wanted) := by
  rw [outcome_addCategory, outcome_addCategory]
  cases hd : categoryDirectory? c dir (c.canonical wanted.1) with
  | none =>
    unfold listing
    rw [hd]
    rfl
  | some d =>
    rw [listing_eq hd, listing_eq hd]
    simp only [isDirectory_and_isFile_write hapart hpath]
    by_cases hboth : t.fileSystem (.isDirectory d) = true ∧ t.fileSystem (.isFile d) = true
    · rw [if_pos hboth, if_pos hboth]
      rfl
    · rw [if_neg hboth, if_neg hboth]
      exact foldlM_addEntry_write ht hapart hpath hlisted hd hasked

/-- **A survey that does not ask for a new file finds what it has found before.** -/
theorem outcome_survey_write {request : Request} (hdir : request.directory = dir)
    (hasked : ∀ id, request.Selects c id → asked id) (hfile : ∀ p, request = .file p → p.key ≠ path.key) :
    outcome (t.write path file).fileSystem (survey c known request)
      = outcome t.fileSystem (survey c known request) := by
  have hmodules : outcome (t.write path file).fileSystem (modulesOf c known request)
      = outcome t.fileSystem (modulesOf c known request) := by
    cases request with
    | file p =>
      have hne := hfile p rfl
      rw [modulesOf, outcome_bind, outcome_bind, loadFile, outcome_load_write hne]
      refine congrArg _ (funext fun found => ?_)
      cases found <;> rfl
    | modules dir' name selections =>
      obtain rfl : dir' = dir := hdir
      rw [modulesOf, outcome_foldlM, outcome_foldlM]
      refine foldlM_congr (fun modules wanted hwanted => ?_) []
      refine outcome_addCategory_write ht hapart hpath hlisted fun id hid => ?_
      exact hasked id ⟨wanted, hwanted, hid.1, hid.2.1⟩
  rw [survey, outcome_bind, outcome_bind, hmodules]
  rfl

end

end Survey

end ScriptBundle

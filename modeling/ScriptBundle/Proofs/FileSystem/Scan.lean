import Mathlib.Data.String.Basic
import ScriptBundle.Proofs.FileSystem.Written

/-!
# Range scans

The keys of a tree stand in order, and texts with a common start stand next to each other.  So a directory
can be listed by a scan that starts at the first key behind it and stops at the first key that does not go
on behind it.  The keys that are passed over before, `/js-x` when `/js` is listed, and those that are not
looked at any more, `/jsx`, do not go on behind the directory.

## Main definitions

* `MemoryTree.MadeBy`: trees that are made by storing files and changing their times.
* `MemoryTree.scan`: what follows in the keys behind a key, by a scan.
* `MemoryTree.scannedEntries`, `MemoryTree.scannedIsDirectory`: the answers that come from a scan.

## Main results

* `MadeBy.ascending`, `MadeBy.exists_path`: the files of such a tree stand in order, under keys of the paths
  that were written.
* `prefix_of_not_lt`: texts with a common start stand next to each other.
* `tails_eq_scan`: **a scan finds all keys that go on behind a key.**
* `entries_eq_scannedEntries`, `isDirectory_eq_scannedIsDirectory`: the answers are those of a scan.
-/

namespace ScriptBundle

/-! ### Texts with a common start -/

/-- What stands between a text and one that goes on behind it goes on behind it as well. -/
theorem prefix_of_not_lt {start cs rest : List Char} (hstart : ¬ cs < start) (hrest : ¬ start ++ rest < cs) :
    start <+: cs := by
  induction start generalizing cs with
  | nil => exact List.nil_prefix
  | cons a start ih =>
    cases cs with
    | nil => exact absurd (List.nil_lt_cons a start) hstart
    | cons c cs =>
      rw [List.cons_append] at hrest
      rw [List.cons_lt_cons_iff, not_or] at hstart hrest
      obtain ⟨hca, hbehind⟩ := hstart
      obtain ⟨hac, hbefore⟩ := hrest
      obtain rfl : a = c := le_antisymm (not_lt.1 hca) (not_lt.1 hac)
      refine List.cons_prefix_cons.2 ⟨rfl, ih ?_ ?_⟩
      · exact fun hlt => hbehind ⟨rfl, hlt⟩
      · exact fun hlt => hbefore ⟨rfl, hlt⟩

theorem compare_lt_iff {k key : String} : compare k key = .lt ↔ k.toList < key.toList := by
  rw [compare_lt_iff_lt, String.lt_iff_toList_lt]

/-- The first piece of a text reaches up to the first cut. -/
theorem head?_splitOn (cs : List Char) : (cs.splitOn '/').head? = some (cs.takeWhile (· != '/')) := by
  induction cs with
  | nil => rfl
  | cons c cs ih =>
    rw [List.splitOn_cons_eq_if_modifyHead, List.takeWhile_cons]
    by_cases hc : c = '/'
    · simp [hc]
    · simp [hc, ih]

namespace MemoryTree

variable {t : MemoryTree} {P Q : Path → Prop} {p : Path} {files : List (String × MemoryFile)}
  {start : List Char}

/-! ### Trees that are made step by step -/

/-- The tree is made by storing files at paths of a kind and by changing the times of files. -/
inductive MadeBy (P : Path → Prop) : MemoryTree → Prop where
  | ofFiles (files : List (Path × ByteArray)) (h : ∀ f ∈ files, P f.1) : MadeBy P (ofFiles files)
  | write {t : MemoryTree} (h : MadeBy P t) {path : Path} (hpath : P path) (file : MemoryFile) :
      MadeBy P (t.write path file)
  | touch {t t' : MemoryTree} (h : MadeBy P t) (path : Path) (modified : Timestamp)
      (ht' : t.touch path modified = .ok t') : MadeBy P t'

/-- A property of all trees that are made so holds of the empty one and is kept by every stored file. -/
theorem MadeBy.induct {motive : MemoryTree → Prop} (ht : t.MadeBy P) (empty : motive {})
    (write : ∀ t path file, motive t → P path ∨ (∃ f ∈ t.files, f.1 = path.key) →
      motive (t.write path file)) : motive t := by
  induction ht with
  | ofFiles files h =>
    exact List.foldlRecOn (motive := motive) files _ empty fun t ht f hf =>
      write t f.1 ⟨f.2, .epoch⟩ ht (.inl (h f hf))
  | write _ hpath file ih => exact write _ _ file ih (.inl hpath)
  | @touch t t' _ path modified ht' ih =>
    -- a file whose time is changed is stored once more, at its own key
    obtain ⟨file, hfile, rfl⟩ := map_eq_ok_iff.1 ht'
    have hstored : t.fileSystem (.isFile path) = true := by
      show Sorted.contains path.key t.files = true
      unfold file? at hfile
      split at hfile
      · next hfind => simp [Sorted.contains, hfind]
      · cases hfile
    exact write _ _ _ ih (.inr (isFile_iff.1 hstored))

theorem MadeBy.mono (ht : t.MadeBy P) (h : ∀ path, P path → Q path) : t.MadeBy Q := by
  induction ht with
  | ofFiles files hfiles => exact .ofFiles files fun f hf => h f.1 (hfiles f hf)
  | write _ hpath file ih => exact .write ih (h _ hpath) file
  | touch _ path modified ht' ih => exact .touch ih path modified ht'

/-- The files stand in order. -/
theorem MadeBy.ascending (ht : t.MadeBy P) : Sorted.Ascending t.files :=
  ht.induct (motive := fun t => Sorted.Ascending t.files) List.Pairwise.nil
    fun _ _ _ h _ => Sorted.ascending_insert h

/-- The files stand under keys of the paths that were written. -/
theorem MadeBy.exists_path (ht : t.MadeBy P) : ∀ f ∈ t.files, ∃ path, P path ∧ f.1 = path.key := by
  refine ht.induct (motive := fun t => ∀ f ∈ t.files, ∃ path, P path ∧ f.1 = path.key)
    (fun f hf => absurd hf List.not_mem_nil) ?_
  intro t path file h hpath f hf
  rcases Sorted.key_of_mem_insert hf with hkey | ⟨f', hf', hkey⟩
  · rcases hpath with hpath | ⟨f', hf', hkey'⟩
    · exact ⟨path, hpath, hkey⟩
    · obtain ⟨q, hq, hf'q⟩ := h f' hf'
      exact ⟨q, hq, by rw [hkey, ← hkey', hf'q]⟩
  · obtain ⟨q, hq, hf'q⟩ := h f' hf'
    exact ⟨q, hq, by rw [← hkey, hf'q]⟩

theorem MadeBy.keyed (ht : t.MadeBy P) : t.Keyed := fun f hf =>
  let ⟨path, _, hkey⟩ := ht.exists_path f hf
  ⟨path, hkey⟩

/-! ### Scans -/

/-- The files from a text on. -/
def startingAt (start : List Char) (files : List (String × MemoryFile)) : List (String × MemoryFile) :=
  files.dropWhile fun f => (compare f.1 (String.ofList start)).isLT

/-- What follows in those keys that go on behind a key, by a scan from the first of them on. -/
def scan (t : MemoryTree) (key : String) : List (List Char) :=
  let start := below key
  ((startingAt start t.files).takeWhile fun f => start.isPrefixOf f.1.toList).map
    fun f => f.1.toList.drop start.length

/-- The names of the entries of a directory, by a scan. -/
def scannedEntries (t : MemoryTree) (path : Path) : Except FileFault (List String) :=
  let key := path.key
  if Sorted.contains key t.files then .error (.wrongKind key "directory")
  else
    let names := (t.scan key).filterMap fun rest => (rest.splitOn '/').head?
    match Sorted.distinct ((names.filter (!·.isEmpty)).map String.ofList) with
    | [] => .error (.notFound key)
    | names => .ok names

/-- The first key that does not come before those behind a path goes on behind it. -/
def scannedIsDirectory (t : MemoryTree) (path : Path) : Bool :=
  let start := below path.key
  (startingAt start t.files).head?.any fun f => start.isPrefixOf f.1.toList

/-- A key that goes on behind a text does not come before it. -/
theorem not_lt_of_isPrefixOf {key : String} (h : start.isPrefixOf key.toList = true) :
    ¬ key.toList < start := List.not_lt.2 (List.isPrefixOf_iff_prefix.1 h).le

/-- Of the keys that do not come before a text those that go on behind it come first. -/
theorem takeWhile_eq_filter (h : Sorted.Ascending files) (hstart : ∀ f ∈ files, ¬ f.1.toList < start) :
    (files.takeWhile fun f => start.isPrefixOf f.1.toList)
      = files.filter fun f => start.isPrefixOf f.1.toList := by
  induction files with
  | nil => rfl
  | cons f files ih =>
    obtain ⟨hfirst, hfiles⟩ := List.pairwise_cons.1 h
    obtain ⟨hf, hrest⟩ := List.forall_mem_cons.1 hstart
    rw [List.takeWhile_cons, List.filter_cons]
    split_ifs with hprefix
    · rw [ih hfiles hrest]
    · symm
      rw [List.filter_eq_nil_iff]
      -- the first key would stand between the text and a later key that goes on behind it
      intro g hg hgprefix
      obtain ⟨rest, hkey⟩ := List.isPrefixOf_iff_prefix.1 hgprefix
      have hlt : f.1.toList < start ++ rest := hkey ▸ compare_lt_iff.1 (hfirst g hg)
      exact hprefix (List.isPrefixOf_iff_prefix.2 (prefix_of_not_lt hf (lt_asymm hlt)))

theorem not_lt_of_mem_startingAt (h : Sorted.Ascending files) :
    ∀ f ∈ startingAt start files, ¬ f.1.toList < start := by
  induction files with
  | nil => exact fun f hf => absurd hf List.not_mem_nil
  | cons f files ih =>
    obtain ⟨hfirst, hfiles⟩ := List.pairwise_cons.1 h
    unfold startingAt
    rw [List.dropWhile_cons]
    split_ifs with hlt
    · exact ih hfiles
    · have hf : ¬ f.1.toList < start := by
        rw [Ordering.isLT_iff_eq_lt, compare_lt_iff, String.toList_ofList] at hlt
        exact hlt
      refine List.forall_mem_cons.2 ⟨hf, fun g hg hgstart => hf ?_⟩
      exact (compare_lt_iff.1 (hfirst g hg)).trans hgstart

/-- The keys that are passed over do not go on behind the text. -/
theorem filter_startingAt (files : List (String × MemoryFile)) :
    ((startingAt start files).filter fun f => start.isPrefixOf f.1.toList)
      = files.filter fun f => start.isPrefixOf f.1.toList := by
  induction files with
  | nil => rfl
  | cons f files ih =>
    unfold startingAt at ih ⊢
    rw [List.dropWhile_cons]
    split_ifs with hlt
    · have hprefix : ¬ start.isPrefixOf f.1.toList = true := by
        rw [Ordering.isLT_iff_eq_lt, compare_lt_iff, String.toList_ofList] at hlt
        exact fun hprefix => not_lt_of_isPrefixOf hprefix hlt
      rw [ih, List.filter_cons, if_neg hprefix]
    · rfl

/-- What follows in keys behind a text. -/
theorem filterMap_isPrefixOf? (start : List Char) (files : List (String × MemoryFile)) :
    (files.filterMap fun f => List.isPrefixOf? start f.1.toList)
      = (files.filter fun f => start.isPrefixOf f.1.toList).map fun f => f.1.toList.drop start.length := by
  induction files with
  | nil => rfl
  | cons f files ih =>
    rw [List.filterMap_cons, List.filter_cons, ih]
    cases hrest : List.isPrefixOf? start f.1.toList with
    | some rest =>
      have hkey : start ++ rest = f.1.toList := List.isPrefixOf?_eq_some_iff_append_eq.1 hrest
      have hprefix : start.isPrefixOf f.1.toList = true := List.isPrefixOf_iff_prefix.2 ⟨rest, hkey⟩
      rw [if_pos hprefix, List.map_cons, ← hkey, List.drop_left]
    | none =>
      have hprefix : ¬ start.isPrefixOf f.1.toList = true := by
        intro hprefix
        obtain ⟨rest, hkey⟩ := List.isPrefixOf_iff_prefix.1 hprefix
        rw [List.isPrefixOf?_eq_some_iff_append_eq.2 hkey] at hrest
        cases hrest
      rw [if_neg hprefix]

/-- **A scan finds all keys that go on behind a key.** -/
theorem tails_eq_scan (h : Sorted.Ascending t.files) (key : String) : t.tails key = t.scan key := by
  have hsorted : Sorted.Ascending (startingAt (below key) t.files) :=
    List.Pairwise.sublist (List.dropWhile_sublist _) h
  rw [tails, filterMap_isPrefixOf?, ← filter_startingAt,
    ← takeWhile_eq_filter hsorted (not_lt_of_mem_startingAt h)]
  rfl

theorem entries_eq_scannedEntries (h : Sorted.Ascending t.files) (p : Path) :
    t.fileSystem (.entries p) = t.scannedEntries p := by
  have hnames : ((t.scan p.key).filterMap fun rest => (rest.splitOn '/').head?)
      = (t.tails p.key).map (·.takeWhile (· != '/')) := by
    simp only [head?_splitOn, tails_eq_scan h]
    exact congrFun List.filterMap_eq_map (t.scan p.key)
  show t.entries p = _
  unfold entries scannedEntries
  dsimp only
  rewrite [hnames]
  rfl

theorem isDirectory_eq_scannedIsDirectory (h : Sorted.Ascending t.files) (p : Path) :
    t.fileSystem (.isDirectory p) = t.scannedIsDirectory p := by
  show (!(t.tails p.key).isEmpty) = _
  rw [tails_eq_scan h]
  unfold scan scannedIsDirectory
  dsimp only
  cases startingAt (below p.key) t.files with
  | nil => rfl
  | cons f files =>
    rw [List.takeWhile_cons, List.head?_cons, Option.any_some]
    cases (below p.key).isPrefixOf f.1.toList <;> rfl

end MemoryTree

end ScriptBundle

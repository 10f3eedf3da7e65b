import ScriptBundle.Proofs.FileSystem.Written
import ScriptBundle.Proofs.Survey.Finds
import ScriptBundle.Proofs.Survey.Unresolved

/-!
# What a survey of files in memory finds

On files that are kept in memory it can be said beforehand what a survey finds.  It looks through the
directory of a category in the order of the listing; of the entries whose names have the same number it
takes the first one that is a file, however its number is written and whatever follows it.

## Main definitions

* `MemoryTree.moduleFile?`: the file in the directory of its category that has the number of an id.
* `IsReadFrom`: a module is what stands in a file.
* `Survey.Offers`: a file is selected, and its module is not known.
* `Survey.IsInventory`: a survey has found the modules that are offered and nothing else, and notes which
  ids they declare that are not there.

## Main results

* `rel_moduleOf`: what is found for an id is read from its file.
* `referrersIn_unresolvedOf`: the modules that are noted for an id are those that declare it, in order.
* `isInventory_of_survey`: **a survey that succeeds is an inventory.**
-/

namespace ScriptBundle

open BundleAccess

/-- An entry of a directory is a file whose name has a number. -/
def MemoryTree.isModuleFile (t : MemoryTree) (extension : String) (dir : Path) (n : Nat)
    (name : String) : Bool :=
  moduleNumber? extension name == some n && Sorted.contains (dir.join ⟨name⟩).key t.files

/-- In a directory, the first file in the order of the listing whose name has a number. -/
def MemoryTree.firstModuleFile? (t : MemoryTree) (extension : String) (dir : Path) (n : Nat) :
    Option Path :=
  match t.entries dir with
  | .error _ => none
  | .ok names => (names.find? (t.isModuleFile extension dir n)).map fun name => dir.join ⟨name⟩

/-- The file in the directory of its category that has the number of an id; for requests in a
directory. -/
def MemoryTree.moduleFile? (t : MemoryTree) (c : Convention) (dir : Path) (id : ModuleId) :
    Option Path :=
  (Survey.categoryDirectory? c dir id.category).bind fun dir =>
    t.firstModuleFile? c.extension dir id.number

/-- A module with an id is what stands in a file. -/
structure IsReadFrom (c : Convention) (t : MemoryTree) (id : ModuleId) (path : Path)
    (m : ScriptModule) : Prop where
  key : m.key = .numbered id
  place : m.path = path
  category : m.category = id.category
  number : m.number = some id.number
  stored : ∃ file, t.file? path = .ok file ∧ String.fromUTF8? file.content = some m.source ∧
    m.modified = file.modified
  version : m.version = String.ofList m.modified.version
  speaks : Survey.SpeaksForItself c m

namespace Survey

/-- A selection asks for an id whose module is not known, and there is a file for it. -/
structure Offers (c : Convention) (t : MemoryTree) (known : ModuleKey → Bool) (dir : Path)
    (selections : List (String × Selection)) (id : ModuleId) (path : Path) : Prop where
  selected : ∃ wanted ∈ selections, c.canonical wanted.1 = id.category ∧
    wanted.2.includes id.number = true
  new : known (.numbered id) = false
  file : t.moduleFile? c dir id = some path

/-- An id is declared by some of the modules, and it belongs to none of them and to none that is
known. -/
structure Lacking (known : ModuleKey → Bool) (modules : ModuleMap) (id : ModuleId) : Prop where
  declared : ∃ key kind, DeclaredBy modules id key kind
  new : known (.numbered id) = false
  absent : ∀ m, (.numbered id, m) ∉ modules

/-- What there is to be noted of an id. -/
structure IsNote (modules : ModuleMap) (id : ModuleId) (note : Unresolved) : Prop where
  mandatory : note.mandatory = true ↔
    ∃ key, DeclaredBy modules id key .compile ∨ DeclaredBy modules id key .launch
  ordered : note.referrers.Pairwise fun a b => compare a b = .lt
  referrers : ∀ key, key ∈ note.referrers ↔ ∃ kind, DeclaredBy modules id key kind

/-- The survey has found what the selections ask for and nothing else. -/
structure IsInventory (c : Convention) (t : MemoryTree) (known : ModuleKey → Bool) (dir : Path)
    (selections : List (String × Selection)) (found : Survey) : Prop where
  ordered : Sorted.Ascending found.modules
  /-- What is offered has been found. -/
  complete : ∀ id path, Offers c t known dir selections id path →
    ∃ m, (.numbered id, m) ∈ found.modules
  /-- What has been found is the module in a file that is offered. -/
  modules : ∀ key m, (key, m) ∈ found.modules ↔
    ∃ id path, key = .numbered id ∧ Offers c t known dir selections id path ∧ IsReadFrom c t id path m
  unresolved_ordered : Sorted.Ascending found.unresolved
  /-- The ids that are noted are those that are declared but not there. -/
  lacking : ∀ id, (∃ note, (id, note) ∈ found.unresolved) ↔ Lacking known found.modules id
  notes : ∀ id note, (id, note) ∈ found.unresolved → IsNote found.modules id note

end Survey

variable {c : Convention} {t : MemoryTree} {known : ModuleKey → Bool} {dir path : Path}
  {key : ModuleKey} {id : ModuleId} {category : String} {number : Option Nat}
  {found : Option ScriptModule} {m m' : ScriptModule}

/-! ### Reading the file of an id -/

/-- In a file there stands at most one module with an id. -/
theorem IsReadFrom.unique (h : IsReadFrom c t id path m) (h' : IsReadFrom c t id path m') : m = m' := by
  obtain ⟨file, hfile, hsource, hmodified⟩ := h.stored
  obtain ⟨file', hfile', hsource', hmodified'⟩ := h'.stored
  obtain rfl := Except.ok.inj (hfile.symm.trans hfile')
  have hsame : m.source = m'.source := Option.some.inj (hsource.symm.trans hsource')
  have htime : m.modified = m'.modified := hmodified.trans hmodified'.symm
  have hmanifest : m.manifest = m'.manifest := by
    have hspeaks := h.speaks
    rw [Survey.SpeaksForItself, hsame] at hspeaks
    exact Except.ok.inj (hspeaks.symm.trans h'.speaks)
  have hversion : m.version = m'.version := by rw [h.version, h'.version, htime]
  have hnumber := h.number.trans h'.number.symm
  have hcategory := h.category.trans h'.category.symm
  have hpath := h.place.trans h'.place.symm
  have hkey := h.key.trans h'.key.symm
  cases m
  cases m'
  congr

/-- A stored file has a text if its content is one. -/
theorem outcome_text?_of_file {file : MemoryFile} (h : t.file? path = .ok file) :
    outcome t.fileSystem (text? path) = match String.fromUTF8? file.content with
      | none => .error (.error (.encoding path))
      | some text => .ok (some (text, file.modified)) := by
  have hcontent : t.fileSystem (.content path) = .ok file.content := by
    show (t.file? path).map _ = _
    rw [h]
    rfl
  have hmodified : t.fileSystem (.modified path) = .ok file.modified := by
    show (t.file? path).map _ = _
    rw [h]
    rfl
  exact outcome_text?_of_content hcontent hmodified

namespace Survey

/-- What is read of a stored file for an id is the module in this file. -/
theorem exists_isReadFrom_of_load
    (h : outcome t.fileSystem (load c path (.numbered id) id.category (some id.number)) = .ok found)
    (hfile : t.fileSystem (.isFile path) = true) : ∃ m, found = some m ∧ IsReadFrom c t id path m := by
  obtain ⟨file, hstored⟩ : ∃ file, t.file? path = .ok file := by
    obtain ⟨file, hfind⟩ := Option.isSome_iff_exists.1 hfile
    exact ⟨file, by rw [MemoryTree.file?, hfind]⟩
  rw [load, outcome_bind, outcome_text?_of_file hstored, bind_eq_ok_iff] at h
  obtain ⟨text, htext, h⟩ := h
  cases hsource : String.fromUTF8? file.content with
  | none =>
    rw [hsource] at htext
    cases htext
  | some source =>
    rw [hsource] at htext
    obtain rfl := Except.ok.inj htext
    dsimp only at h
    rw [outcome_bind, bind_eq_ok_iff] at h
    obtain ⟨manifest, hmanifest, h⟩ := h
    obtain rfl := Except.ok.inj h
    exact ⟨_, rfl, rfl, rfl, rfl, rfl, ⟨file, hstored, hsource, rfl⟩, rfl,
      (outcome_manifest source).1 hmanifest⟩

theorem isModuleFile_iff {extension name : String} {n : ℕ} :
    t.isModuleFile extension dir n name = true ↔
      moduleNumber? extension name = some n ∧ t.fileSystem (.isFile (dir.join ⟨name⟩)) = true := by
  rw [MemoryTree.isModuleFile, Bool.and_eq_true, beq_iff_eq]
  rfl

/-- What is not a directory has no entries. -/
theorem firstModuleFile?_of_not_isDirectory {extension : String} {n : ℕ}
    (h : t.fileSystem (.isDirectory dir) = false) : t.firstModuleFile? extension dir n = none := by
  have herror : ∃ refusal, t.entries dir = .error refusal := by
    cases hfile : t.fileSystem (.isFile dir) with
    | true => exact ⟨_, MemoryTree.entries_of_isFile hfile⟩
    | false => exact ⟨_, (MemoryTree.entries_eq hfile).trans (if_pos (MemoryTree.names_eq_nil h))⟩
  obtain ⟨refusal, hrefusal⟩ := herror
  rw [MemoryTree.firstModuleFile?, hrefusal]

/-- What is found for an id among the entries of a directory is what stands in the first file that has
its number. -/
theorem rel_moduleIn {names : List String} (hentries : t.entries dir = .ok names)
    (h : moduleIn c t.fileSystem dir id names = .ok found) :
    Option.Rel (IsReadFrom c t id) (t.firstModuleFile? c.extension dir id.number) found := by
  have hfirst : moduleIn c t.fileSystem dir id names
      = (names.find? (t.isModuleFile c.extension dir id.number)).elim (.ok none)
          (moduleAt c t.fileSystem dir id) := by
    refine firstOf_eq_find? (fun name hname => ?_) (fun name hname hnone => ?_) names
    · refine if_neg fun hboth => ?_
      rw [isModuleFile_iff.2 hboth] at hname
      cases hname
    · have hboth := isModuleFile_iff.1 hname
      rw [moduleAt, if_pos hboth] at hnone
      obtain ⟨m, hm, -⟩ := exists_isReadFrom_of_load hnone hboth.2
      cases hm
  rw [hfirst] at h
  rw [MemoryTree.firstModuleFile?, hentries]
  dsimp only
  cases hfind : names.find? (t.isModuleFile c.extension dir id.number) with
  | none =>
    rw [hfind] at h
    obtain rfl := Except.ok.inj h
    exact .none
  | some name =>
    rw [hfind, Option.elim_some] at h
    have hboth := isModuleFile_iff.1 (List.find?_some hfind)
    rw [moduleAt, if_pos hboth] at h
    obtain ⟨m, rfl, hm⟩ := exists_isReadFrom_of_load h hboth.2
    exact .some hm

/-- **What is found for an id is what stands in its file.** -/
theorem rel_moduleOf (h : moduleOf c t.fileSystem dir id = .ok found) :
    Option.Rel (IsReadFrom c t id) (t.moduleFile? c dir id) found := by
  rw [moduleOf, bind_eq_ok_iff] at h
  obtain ⟨⟨categoryDir, names⟩, hlisting, h⟩ := h
  rw [MemoryTree.moduleFile?]
  rw [listing] at hlisting
  cases hdir : categoryDirectory? c dir id.category with
  | none =>
    rw [hdir] at hlisting
    obtain ⟨rfl, rfl⟩ := Prod.mk.inj (Except.ok.inj hlisting)
    obtain rfl := Except.ok.inj h
    exact .none
  | some idDir =>
    rw [hdir] at hlisting
    rw [Option.bind_some]
    dsimp only at hlisting
    cases hisdir : t.fileSystem (.isDirectory idDir) with
    | false =>
      rw [hisdir, if_neg Bool.false_ne_true] at hlisting
      obtain ⟨rfl, rfl⟩ := Prod.mk.inj (Except.ok.inj hlisting)
      obtain rfl := Except.ok.inj h
      rw [firstModuleFile?_of_not_isDirectory hisdir]
      exact .none
    | true =>
      rw [hisdir, if_pos rfl] at hlisting
      cases hentries : t.entries idDir with
      | ok listed =>
        have hanswer : t.fileSystem (.entries idDir) = .ok listed := hentries
        rw [hanswer] at hlisting
        obtain ⟨rfl, rfl⟩ := Prod.mk.inj (Except.ok.inj hlisting)
        exact rel_moduleIn hentries h
      | error refusal =>
        -- a listing without entries is all that a refusal can lead to
        have hanswer : t.fileSystem (.entries idDir) = .error refusal := hentries
        rw [hanswer] at hlisting
        dsimp only at hlisting
        split at hlisting
        · obtain ⟨rfl, rfl⟩ := Prod.mk.inj (Except.ok.inj hlisting)
          obtain rfl := Except.ok.inj h
          rw [MemoryTree.firstModuleFile?, hentries]
          exact .none
        · cases hlisting

/-! ### The referrers of an id -/

variable {present : ModuleKey → Bool} {unresolved : UnresolvedMap} {modules : ModuleMap}
  {referrer : ModuleKey}

theorem addKey_addKey (keys : List ModuleKey) (key : ModuleKey) :
    addKey (addKey keys key) key = addKey keys key := by
  have hthere : ((addKey keys key).any fun k => (compare key k).isEq) = true := by
    unfold addKey
    split
    · assumption
    · rw [List.any_append, Bool.or_eq_true]
      refine .inr (List.any_eq_true.2 ⟨key, List.mem_singleton_self key, ?_⟩)
      exact Ordering.isEq_iff_eq_eq.2 Std.ReflCmp.compare_self
  rw [addKey, if_pos hthere]

/-- A module declares an id. -/
def declaresId (id : ModuleId) (m : ScriptModule) : Bool := m.declared.any fun d => d.2 == id

/-- What is noted of the modules that declare an id. -/
def referrersIn (unresolved : UnresolvedMap) (id : ModuleId) : List ModuleKey :=
  ((Sorted.find? id unresolved).getD {}).referrers

/-- The declarations of one module add its key, once. -/
theorem referrersIn_foldl_addDeclaration (hnew : present (.numbered id) = false)
    (declared : List (DependencyKind × ModuleId)) :
    referrersIn (declared.foldl (addDeclaration present referrer) unresolved) id
      = if declared.any fun d => d.2 == id then addKey (referrersIn unresolved id) referrer
        else referrersIn unresolved id := by
  induction declared generalizing unresolved with
  | nil => rfl
  | cons d declared ih =>
    have hfirst : referrersIn (addDeclaration present referrer unresolved d) id
        = if d.2 == id then addKey (referrersIn unresolved id) referrer
          else referrersIn unresolved id := by
      unfold referrersIn
      rw [find?_addDeclaration]
      by_cases hid : d.2 = id
      · rw [if_pos ⟨hid, hnew⟩, if_pos (beq_iff_eq.2 hid)]
        rfl
      · rw [if_neg (hid ∘ And.left), if_neg (hid ∘ beq_iff_eq.1)]
    rw [List.foldl_cons, ih, hfirst, List.any_cons]
    cases d.2 == id with
    | false => rfl
    | true =>
      rw [if_pos rfl, addKey_addKey, ite_self]
      rfl

/-- Keys in order are put one behind the other. -/
theorem foldl_addKey_of_pairwise {keys before : List ModuleKey}
    (h : (before ++ keys).Pairwise fun a b => compare a b = .lt) :
    keys.foldl addKey before = before ++ keys := by
  induction keys generalizing before with
  | nil => rw [List.foldl_nil, List.append_nil]
  | cons key keys ih =>
    have hlast : (before.any fun k => (compare key k).isEq) = false := by
      rw [List.any_eq_false]
      intro k hk
      have hlt := (List.pairwise_append.1 h).2.2 k hk key List.mem_cons_self
      rw [Std.OrientedCmp.gt_of_lt hlt]
      decide
    rw [List.foldl_cons, addKey, hlast, if_neg Bool.false_ne_true, ih, List.append_assoc,
      List.singleton_append]
    rwa [List.append_assoc, List.singleton_append]

/-- **The modules that are noted for an id are those that declare it, in their order.** -/
theorem referrersIn_unresolvedOf (hnew : present (.numbered id) = false)
    (hmodules : Sorted.Ascending modules) :
    referrersIn (unresolvedOf present modules) id
      = Sorted.keys (modules.filter fun e => declaresId id e.2) := by
  have hfold (modules : ModuleMap) (unresolved : UnresolvedMap) : referrersIn (modules.foldl
      (fun us m => m.2.declared.foldl (addDeclaration present m.1) us) unresolved) id
        = (Sorted.keys (modules.filter fun e => declaresId id e.2)).foldl addKey
            (referrersIn unresolved id) := by
    induction modules generalizing unresolved with
    | nil => rfl
    | cons e modules ih =>
      rw [List.foldl_cons, ih, referrersIn_foldl_addDeclaration hnew, List.filter_cons]
      cases hdeclares : declaresId id e.2 with
      | false =>
        rw [declaresId] at hdeclares
        rw [hdeclares]
        rfl
      | true =>
        rw [declaresId] at hdeclares
        rw [hdeclares]
        rfl
  have hordered : (Sorted.keys (modules.filter fun e => declaresId id e.2)).Pairwise
      fun a b => compare a b = .lt := by
    rw [Sorted.keys, List.pairwise_map]
    exact List.Pairwise.sublist List.filter_sublist hmodules
  rw [unresolvedOf, hfold]
  exact foldl_addKey_of_pairwise hordered

/-! ### The ids that are noted -/

/-- An id is noted if it is declared but not there. -/
theorem exists_mem_unresolvedOf_iff (hmodules : Sorted.Ascending modules) :
    (∃ note, (id, note) ∈ unresolvedOf present modules) ↔
      present (.numbered id) = false ∧ ∃ key kind, DeclaredBy modules id key kind := by
  simp only [Sorted.mem_iff_find? ascending_unresolvedOf]
  rw [← Option.isSome_iff_exists]
  cases hpresent : present (.numbered id) with
  | true => simp [find?_unresolvedOf_of_present hpresent]
  | false => simp [(noted_unresolvedOf hpresent hmodules).isSome]

/-- What is noted of an id. -/
theorem isNote_of_mem {note : Unresolved} (hmodules : Sorted.Ascending modules)
    (h : (id, note) ∈ unresolvedOf present modules) : IsNote modules id note := by
  have hnew := ((exists_mem_unresolvedOf_iff hmodules).1 ⟨note, h⟩).1
  have hfind := Sorted.find?_of_mem ascending_unresolvedOf h
  have hnoted := noted_unresolvedOf hnew hmodules
  rw [hfind] at hnoted
  constructor
  · have hmandatory : note.mandatory = true ↔ _ := hnoted.mandatory
    rw [hmandatory]
    constructor
    · rintro ⟨key, kind, hdeclared, hkind⟩
      cases kind with
      | compile => exact ⟨key, .inl hdeclared⟩
      | launch => exact ⟨key, .inr hdeclared⟩
      | optional => cases hkind
    · rintro ⟨key, hdeclared | hdeclared⟩
      · exact ⟨key, .compile, hdeclared, rfl⟩
      · exact ⟨key, .launch, hdeclared, rfl⟩
  · have hreferrers := referrersIn_unresolvedOf hnew hmodules
    rw [referrersIn, hfind, Option.getD_some] at hreferrers
    rw [hreferrers, Sorted.keys, List.pairwise_map]
    exact List.Pairwise.sublist List.filter_sublist hmodules
  · exact hnoted.referrers

/-! ### The modules that are found -/

variable {name : Option String} {selections : List (String × Selection)}

/-- The module in a file that is offered is found. -/
theorem exists_mem_of_offers
    (h : outcome t.fileSystem (modulesOf c known (.modules dir name selections)) = .ok modules)
    (hoffers : Offers c t known dir selections id path) :
    ∃ m, (.numbered id, m) ∈ modules ∧ IsReadFrom c t id path m := by
  obtain ⟨wanted, hwanted, hcategory, hincludes⟩ := hoffers.selected
  have hfound := (adds_modulesOf h).new id rfl
  rw [if_pos ⟨wanted, hwanted, hcategory, hincludes, hoffers.new⟩] at hfound
  have hrel := rel_moduleOf hfound
  rw [hoffers.file] at hrel
  cases hfind : Sorted.find? (.numbered id) modules with
  | none =>
    rw [hfind] at hrel
    cases hrel
  | some m =>
    rw [hfind] at hrel
    cases hrel with
    | some hm => exact ⟨m, (mem_numbered_iff (readAnew_modulesOf h).ascending).2 hfind, hm⟩

/-- What is found is the module in a file that is offered. -/
theorem exists_offers_of_mem
    (h : outcome t.fileSystem (modulesOf c known (.modules dir name selections)) = .ok modules)
    (hm : (key, m) ∈ modules) :
    ∃ id path, key = .numbered id ∧ Offers c t known dir selections id path ∧
      IsReadFrom c t id path m := by
  obtain ⟨id, rfl, hfound⟩ := (adds_modulesOf h).exists_of_mem (readAnew_modulesOf h).ascending hm
  obtain ⟨⟨wanted, hwanted, hcategory, hincludes, hnew⟩, hfound⟩ := ite_eq_some_iff.1 hfound
  have hrel := rel_moduleOf hfound
  cases hfile : t.moduleFile? c dir id with
  | none =>
    rw [hfile] at hrel
    cases hrel
  | some path =>
    rw [hfile] at hrel
    cases hrel with
    | some hm => exact ⟨id, path, rfl, ⟨⟨wanted, hwanted, hcategory, hincludes⟩, hnew, hfile⟩, hm⟩

/-- **A survey of files in memory that succeeds has found what the selections ask for, and notes which
ids are declared but not there.** -/
theorem isInventory_of_survey {found : Survey}
    (h : outcome t.fileSystem (survey c known (.modules dir name selections)) = .ok found) :
    found.IsInventory c t known dir selections := by
  obtain ⟨hmodules, hunresolved⟩ := modulesOf_of_survey h
  have hascending := (readAnew_modulesOf hmodules).ascending
  have habsent (id : ModuleId) : Sorted.contains (.numbered id) found.modules = false
      ↔ ∀ m, (.numbered id, m) ∉ found.modules := by
    rw [Sorted.contains, Option.isSome_eq_false_iff, Option.isNone_iff_eq_none,
      Option.eq_none_iff_forall_ne_some]
    exact forall_congr' fun m => not_congr (mem_numbered_iff hascending).symm
  constructor
  · exact hascending
  · intro id path hoffers
    obtain ⟨m, hm, -⟩ := exists_mem_of_offers hmodules hoffers
    exact ⟨m, hm⟩
  · intro key m
    refine ⟨exists_offers_of_mem hmodules, ?_⟩
    rintro ⟨id, path, rfl, hoffers, hm⟩
    obtain ⟨m', hm', hm''⟩ := exists_mem_of_offers hmodules hoffers
    rwa [hm.unique hm'']
  · rw [hunresolved]
    exact ascending_unresolvedOf
  · intro id
    rw [hunresolved, exists_mem_unresolvedOf_iff hascending, Bool.or_eq_false_iff, habsent]
    constructor
    · rintro ⟨⟨hnew, hnone⟩, hdeclared⟩
      exact ⟨hdeclared, hnew, hnone⟩
    · rintro ⟨hdeclared, hnew, hnone⟩
      exact ⟨⟨hnew, hnone⟩, hdeclared⟩
  · intro id note hnote
    rw [hunresolved] at hnote
    exact isNote_of_mem hascending hnote

/-- Two files have the number `1`, a directory is called like a file with the number `2`, and the scripts
declare one that is known and two that are not there. -/
def shelfFiles : MemoryTree :=
  .ofFiles
    [(⟨"js/1_old.js"⟩, "".toUTF8),
     (⟨"js/01_app.js"⟩,
      "((a,Script)=>setCompileDependencies('3')+setOptionalDependencies(['9','lib-5']))".toUTF8),
     (⟨"js/2_pack.js/readme.txt"⟩, "".toUTF8),
     (⟨"js/3_known.js"⟩, "".toUTF8),
     (⟨"js/lib/4-util.js"⟩, "((a,Script)=>setLaunchDependencies(['lib-5','1']))".toUTF8)]

theorem shelfFiles_isInventory :
    let selections : List (String × Selection) :=
      [("../js", .every), ("_", .numbers [1, 2, 3]), ("lib", .every)]
    let known : ModuleKey → Bool := fun key => key == .numbered ⟨".", 3⟩
    ∃ found, outcome shelfFiles.fileSystem (survey {} known (.modules ⟨"js"⟩ none selections)) = .ok found ∧
      found.modules.map (fun e => (e.1, e.2.path)) =
        [(.numbered ⟨".", 1⟩, ⟨"js/01_app.js"⟩), (.numbered ⟨"lib", 4⟩, ⟨"js/lib/4-util.js"⟩)] ∧
      found.unresolved =
        [(⟨".", 9⟩, ⟨false, [.numbered ⟨".", 1⟩]⟩),
         (⟨"lib", 5⟩, ⟨true, [.numbered ⟨".", 1⟩, .numbered ⟨"lib", 4⟩]⟩)] ∧
      found.IsInventory {} shelfFiles known ⟨"js"⟩ selections := by
  intro selections known
  have hfound : (outcome shelfFiles.fileSystem
      (survey {} known (.modules ⟨"js"⟩ none selections))).toOption.map
        (fun found => (found.modules.map (fun e => (e.1, e.2.path)), found.unresolved))
      = some ([(.numbered ⟨".", 1⟩, ⟨"js/01_app.js"⟩), (.numbered ⟨"lib", 4⟩, ⟨"js/lib/4-util.js"⟩)],
          [(⟨".", 9⟩, ⟨false, [.numbered ⟨".", 1⟩]⟩),
           (⟨"lib", 5⟩, ⟨true, [.numbered ⟨".", 1⟩, .numbered ⟨"lib", 4⟩]⟩)]) := by
    decide +kernel
  obtain ⟨found, h, hfound⟩ := exists_of_toOption hfound
  obtain ⟨hmodules, hunresolved⟩ := Prod.mk.inj hfound
  exact ⟨found, h, hmodules, hunresolved, isInventory_of_survey h⟩

end Survey

end ScriptBundle

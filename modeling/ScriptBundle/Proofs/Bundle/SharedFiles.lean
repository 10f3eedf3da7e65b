import ScriptBundle.Bundle
import ScriptBundle.Proofs.Closure.LeastClosure
import ScriptBundle.Proofs.FileSystem.Questions
import ScriptBundle.Proofs.Path.Components
import ScriptBundle.Proofs.Weight.RealCycles

/-!
# Files that are bundled twice

Modules are told apart by their keys, a category and a number, but they are read from files.  A category
is any text that leads down from the requested directory, and several texts lead to the same directory.
So one file may be bundled under several keys, and this is the only way in which two modules come from
one file.  The loader script is looked for by its name alone, whether it is a module or not.

## Main definitions

* `Located`: where the file of a module is.
* `ScriptModule.SharesFile`: two modules are read from one file.
* `SpelledTwice`: two modules have categories that are spelled differently and have one directory.

## Main results

* `Located.of_discovered`: every module that a request leads to is located.
* `Bundle.sharesFile_iff`: **two modules of a bundle come from one file if and only if their categories
  are two spellings of one directory.**
-/

namespace ScriptBundle

open BundleAccess Survey

variable {c : Convention} {fs : FileSystem} {known : ModuleKey → Bool} {request : Request}
  {dir path categoryDir : Path} {key : ModuleKey} {id : ModuleId} {category name : String}
  {number : Option Nat} {selection : Selection} {modules modules' : ModuleMap} {m m' : ScriptModule}

/-! ### Where a file has been read -/

namespace Survey

/-- A module has the path at which it has been read. -/
theorem path_of_load (h : outcome fs (load c path key category number) = .ok (some m)) :
    m.path = path := by
  obtain ⟨source, modified, manifest, -, -, rfl⟩ := exists_of_load h
  rfl

/-- The entries of a listing are those of the directory of the category. -/
theorem of_listing {names : List String} (h : listing c fs dir category = .ok (categoryDir, names))
    (hname : name ∈ names) :
    categoryDirectory? c dir category = some categoryDir ∧ fs (.entries categoryDir) = .ok names := by
  unfold listing at h
  split at h
  · obtain ⟨-, rfl⟩ := Prod.mk.inj (Except.ok.inj h)
    cases hname
  · next found hfound =>
    split_ifs at h
    · split at h
      · next names' hnames' =>
        obtain ⟨rfl, rfl⟩ := Prod.mk.inj (Except.ok.inj h)
        exact ⟨hfound, hnames'⟩
      · split_ifs at h
        obtain ⟨-, rfl⟩ := Prod.mk.inj (Except.ok.inj h)
        cases hname
    · obtain ⟨-, rfl⟩ := Prod.mk.inj (Except.ok.inj h)
      cases hname

end Survey

/-- Where the file of a module is: in the directory of its category, under a name with its number, or it
is the requested file and its name has no number. -/
inductive Located (c : Convention) (request : Request) (m : ScriptModule) : Prop where
  | inCategory {id : ModuleId} {dir : Path} {name : String} (hkey : m.key = .numbered id)
      (hdir : categoryDirectory? c request.directory id.category = some dir)
      (hname : moduleNumber? c.extension name = some id.number)
      (hpath : m.path.components = dir.components ++ [.name name])
  | requested (hrequest : request = .file m.path) (hkey : m.key = .file m.path)
      (hname : m.path.fileName?.bind (moduleNumber? c.extension) = none)

theorem Located.of_moduleAt (hslash : '/' ∉ name.toList)
    (hdir : categoryDirectory? c request.directory id.category = some categoryDir)
    (h : moduleAt c fs categoryDir id name = .ok (some m)) : Located c request m := by
  obtain ⟨hname, hload⟩ := load_of_moduleAt h
  refine .inCategory (of_load hload).1 hdir hname ?_
  rw [path_of_load hload, Path.components_join_of_moduleNumber? categoryDir hname hslash]

/-- A file that was asked for is in the directory of the default category if its name has a number. -/
theorem Located.of_loadFile (h : outcome fs (loadFile c path) = .ok (some m)) :
    Located c (.file path) m := by
  unfold loadFile at h
  dsimp only at h
  have hpath : m.path = path := path_of_load h
  have hkey := (Survey.of_load h).1
  cases hnumber : path.fileName?.bind (moduleNumber? c.extension) with
  | none =>
    rw [hnumber] at hkey
    exact .requested (by rw [hpath]) (by rw [hkey, hpath]) (by rw [hpath, hnumber])
  | some n =>
    rw [hnumber] at hkey
    obtain ⟨name, hname, hn⟩ := Option.bind_eq_some_iff.1 hnumber
    obtain ⟨d, hparent, hcomponents⟩ := Path.exists_parent hname
    refine .inCategory hkey ?_ hn (hpath ▸ hcomponents)
    rw [categoryDirectory?, if_pos rfl, Request.directory, hparent]
    rfl

/-! ### The modules of surveys -/

section

variable (hnames : ∀ q, PlainNames q (fs q))

include hnames

theorem located_addCategory {wanted : String × Selection}
    (hmodules : ∀ e ∈ modules, Located c request e.2)
    (h : outcome fs (addCategory c known request.directory modules wanted) = .ok modules') :
    ∀ e ∈ modules', Located c request e.2 := by
  rw [outcome_addCategory, bind_eq_ok_iff] at h
  obtain ⟨⟨categoryDir, names⟩, hlisting, h⟩ := h
  refine foldlM_keeps (P := fun modules => ∀ e ∈ modules, Located c request e.2) ?_ hmodules h
  intro modules name hname modules' hkept hentry
  obtain ⟨hdir, hentries⟩ := of_listing hlisting hname
  rcases addEntry_cases hentry with ⟨rfl, -⟩ | ⟨id, m, hpresent, hasked, hat, rfl, -⟩
  · exact hkept
  · intro e he
    rcases (Sorted.mem_insert_of_contains hpresent e).1 he with rfl | he
    · have hplain := hnames (.entries categoryDir)
      rw [hentries] at hplain
      exact .of_moduleAt (hplain name hname) (hasked.1 ▸ hdir) hat
    · exact hkept e he

theorem located_modulesOf {r : Request} (hr : r = request ∨ ∃ name selections,
      r = .modules request.directory name selections)
    (h : outcome fs (modulesOf c known r) = .ok modules) : ∀ e ∈ modules, Located c request e.2 := by
  cases r with
  | modules dir name selections =>
    have hdir : dir = request.directory := by
      rcases hr with rfl | ⟨name', selections', hr⟩
      · rfl
      · exact (Request.modules.inj hr).1
    subst hdir
    rw [modulesOf, outcome_foldlM] at h
    refine foldlM_keeps (P := fun modules => ∀ e ∈ modules, Located c request e.2) ?_
      (fun e he => absurd he List.not_mem_nil) h
    exact fun _ _ _ _ hkept => located_addCategory hnames hkept
  | file path =>
    obtain rfl : .file path = request := by
      rcases hr with hr | ⟨name, selections, hr⟩
      · exact hr
      · cases hr
    rw [modulesOf, outcome_bind, bind_eq_ok_iff] at h
    obtain ⟨found, hfound, h⟩ := h
    intro e he
    cases found with
    | none =>
      obtain rfl := Except.ok.inj h
      cases he
    | some m =>
      dsimp only at h
      split_ifs at h
      · obtain rfl := Except.ok.inj h
        cases he
      · obtain rfl := Except.ok.inj h
        rw [List.mem_singleton.1 he]
        exact .of_loadFile hfound

/-- **Every module that a request leads to is located.** -/
theorem Located.of_discovered (hm : Discovered c fs request m) : Located c request m := by
  cases hm with
  | seed h =>
    obtain ⟨found, hfound, hm⟩ := h
    exact located_modulesOf hnames (.inl rfl) (modulesOf_of_survey hfound).1 _ hm
  | declared _ _ _ h =>
    obtain ⟨found, hfound, hm⟩ := h
    exact located_modulesOf hnames (.inr ⟨_, _, rfl⟩) (modulesOf_of_survey hfound).1 _ hm

end

/-! ### Modules from one file -/

/-- Two modules are read from one file. -/
def ScriptModule.SharesFile (m m' : ScriptModule) : Prop := m.path.components = m'.path.components

instance : Decidable (m.SharesFile m') := inferInstanceAs (Decidable (_ = _))

/-- Two modules have one number, and categories that are spelled differently and have one directory.
There they are called the same. -/
def SpelledTwice (c : Convention) (dir : Path) (m m' : ScriptModule) : Prop :=
  ∃ id id' d d', m.key = .numbered id ∧ m'.key = .numbered id' ∧ id.number = id'.number ∧
    id.category ≠ id'.category ∧ categoryDirectory? c dir id.category = some d ∧
    categoryDirectory? c dir id'.category = some d' ∧ d.components = d'.components ∧
    m.path.fileName? = m'.path.fileName?

theorem fileName?_of_components (h : path.components = dir.components ++ [.name name]) :
    path.fileName? = some name := by
  rw [Path.fileName?_eq_some_iff, h, List.getLast?_concat]

/-- Two located modules from one file have categories that are two spellings of one directory. -/
theorem Located.spelledTwice (hm : Located c request m) (hm' : Located c request m')
    (hne : m.key ≠ m'.key) (hshared : m.SharesFile m') :
    SpelledTwice c request.directory m m' := by
  -- the name of the file says whether it has a number, and which one
  have hfile : m.path.fileName? = m'.path.fileName? := by
    rw [Path.fileName?, Path.fileName?, hshared]
  cases hm with
  | @inCategory id d name hkey hdir hname hpath =>
    have hfound := fileName?_of_components hpath
    cases hm' with
    | @inCategory id' d' name' hkey' hdir' hname' hpath' =>
      obtain ⟨hdirs, hlast⟩ := List.append_inj' (hpath.symm.trans (hshared.trans hpath')) rfl
      obtain rfl : name = name' := PathComponent.name.inj (List.singleton_inj.1 hlast)
      have hnumber : id.number = id'.number := Option.some.inj (hname.symm.trans hname')
      refine ⟨id, id', d, d', hkey, hkey', hnumber, fun hcategory => hne ?_, hdir, hdir', hdirs, hfile⟩
      rw [hkey, hkey']
      cases id
      cases id'
      simp_all
    | requested _ _ hname' =>
      rw [← hfile, hfound, Option.bind_some, hname] at hname'
      cases hname'
  | requested hrequest hkey hname =>
    cases hm' with
    | inCategory _ _ hname' hpath' =>
      rw [hfile, fileName?_of_components hpath', Option.bind_some, hname'] at hname
      cases hname
    | requested hrequest' hkey' _ =>
      refine absurd ?_ hne
      rw [hkey, hkey', Request.file.inj (hrequest.symm.trans hrequest')]

/-- Located modules whose categories are two spellings of one directory come from one file. -/
theorem Located.sharesFile (hm : Located c request m) (hm' : Located c request m')
    (h : SpelledTwice c request.directory m m') : m.SharesFile m' := by
  obtain ⟨id, id', d, d', hkey, hkey', -, -, hdir, hdir', hdirs, hfile⟩ := h
  cases hm with
  | requested _ hkey₁ _ => cases hkey.symm.trans hkey₁
  | inCategory hkey₁ hdir₁ _ hpath =>
    cases hm' with
    | requested _ hkey₂ _ => cases hkey'.symm.trans hkey₂
    | inCategory hkey₂ hdir₂ _ hpath' =>
      obtain rfl := ModuleKey.numbered.inj (hkey.symm.trans hkey₁)
      obtain rfl := ModuleKey.numbered.inj (hkey'.symm.trans hkey₂)
      obtain rfl := Option.some.inj (hdir.symm.trans hdir₁)
      obtain rfl := Option.some.inj (hdir'.symm.trans hdir₂)
      rw [fileName?_of_components hpath, fileName?_of_components hpath'] at hfile
      rw [ScriptModule.SharesFile, hpath, hpath', hdirs, Option.some.inj hfile]

/-- A located module lies at a path only if it is the requested file or there is a number in the name. -/
theorem Located.of_components (hm : Located c request m) (h : m.path.components = path.components) :
    request = .file m.path ∨
      ∃ name number, path.fileName? = some name ∧ moduleNumber? c.extension name = some number := by
  cases hm with
  | inCategory _ _ hname hpath =>
    exact .inr ⟨_, _, fileName?_of_components (h.symm.trans hpath), hname⟩
  | requested hrequest _ _ => exact .inl hrequest

/-! ### The modules of a bundle -/

namespace ModuleSet

variable {s : ModuleSet} {limit : Nat} {u v : Fin s.size}

/-- The modules of a request are located. -/
theorem located_get (hnames : ∀ q, PlainNames q (fs q))
    (h : outcome fs (ofRequest c request limit) = .ok s) (u : Fin s.size) :
    Located c request (s.modules.get u) :=
  Located.of_discovered hnames (discovered_get h u)

/-- The loader script has been found in the directory of the request. -/
theorem path_of_loader? {loader : Loader} (h : outcome fs (s.loader? c) = .ok (some loader)) :
    loader.path = s.dir.join ⟨c.loaderFile⟩ := by
  unfold loader? at h
  split_ifs at h
  · rw [outcome_bind, bind_eq_ok_iff] at h
    obtain ⟨text, -, h⟩ := h
    cases text with
    | none => cases Except.ok.inj h
    | some text =>
      obtain rfl := Option.some.inj (Except.ok.inj h)
      rfl
  · cases Except.ok.inj h

end ModuleSet

/-- The modules that are put in order are those of the request. -/
theorem Resolution.outcome_ofRequest_eq_ok_iff {r : Resolution} :
    outcome fs (ofRequest c request) = .ok r ↔
      outcome fs (ModuleSet.ofRequest c request) = .ok r.set ∧ r.set.resolve = .ok r := by
  rw [ofRequest, outcome_bind, bind_eq_ok_iff]
  constructor
  · rintro ⟨s, hs, h⟩
    cases hresolve : s.resolve with
    | error failure =>
      rw [hresolve] at h
      cases h
    | ok r' =>
      rw [hresolve] at h
      obtain rfl := Except.ok.inj h
      obtain ⟨w, -, rfl⟩ := map_eq_ok_iff.1 hresolve
      exact ⟨hs, hresolve⟩
  · rintro ⟨hs, hresolve⟩
    refine ⟨r.set, hs, ?_⟩
    rw [hresolve]
    rfl

theorem Resolution.outcome_set {r : Resolution} (h : outcome fs (ofRequest c request) = .ok r) :
    outcome fs (ModuleSet.ofRequest c request) = .ok r.set :=
  (outcome_ofRequest_eq_ok_iff.1 h).1

/-- The modules of a bundle are those of its request, and its loader script has been found there. -/
theorem Bundle.exists_resolution {b : Bundle} (h : outcome fs (ofRequest c request) = .ok b) :
    ∃ r, outcome fs (Resolution.ofRequest c request) = .ok r ∧
      outcome fs (ModuleSet.ofRequest c request) = .ok r.set ∧ b.order = r.set.keysIn r.order ∧
      ∀ path, b.loader = some path → path = request.directory.join ⟨c.loaderFile⟩ := by
  rw [ofRequest, outcome_bind, bind_eq_ok_iff] at h
  obtain ⟨r, hr, h⟩ := h
  have hset := Resolution.outcome_set hr
  rw [ModuleSet.emit, outcome_bind, bind_eq_ok_iff] at h
  obtain ⟨loader, hloader, h⟩ := h
  obtain rfl := Except.ok.inj h
  refine ⟨r, hr, hset, rfl, fun path hpath => ?_⟩
  obtain ⟨l, rfl, rfl⟩ := Option.map_eq_some_iff.1 hpath
  obtain ⟨k, -, hdir⟩ := ModuleSet.exists_closure hset
  rw [ModuleSet.path_of_loader? hloader, hdir]
  rfl

/-- **Two modules of a bundle come from one file if and only if their categories are two spellings of one
directory.  A module comes from the loader script in front of them only if it is the requested file
itself, or if there is a number in the name of the loader script.** -/
theorem Bundle.sharesFile_iff {b : Bundle} (hnames : ∀ q, PlainNames q (fs q))
    (h : outcome fs (ofRequest c request) = .ok b) :
    ∃ r, outcome fs (Resolution.ofRequest c request) = .ok r ∧ b.order = r.set.keysIn r.order ∧
      (∀ u v, u ≠ v → ((r.set.modules.get u).SharesFile (r.set.modules.get v) ↔
        SpelledTwice c request.directory (r.set.modules.get u) (r.set.modules.get v))) ∧
      ∀ loader, b.loader = some loader → loader = request.directory.join ⟨c.loaderFile⟩ ∧
        ∀ u, (r.set.modules.get u).path.components = loader.components →
          request = .file (r.set.modules.get u).path ∨ ∃ name number,
            loader.fileName? = some name ∧ moduleNumber? c.extension name = some number := by
  obtain ⟨r, hr, hset, horder, hloader⟩ := exists_resolution h
  have hlocated := ModuleSet.located_get hnames hset
  refine ⟨r, hr, horder, fun u v hne => ?_, fun loader hfound => ⟨hloader loader hfound, fun u hu => ?_⟩⟩
  · exact ⟨(hlocated u).spelledTwice (hlocated v) (ModuleSet.key_injective hset hne),
      (hlocated u).sharesFile (hlocated v)⟩
  · exact (hlocated u).of_components hu

/-! ### Files that are there twice -/

/-- A request is bundled if dependencies lead only to later modules and the loader script can be read. -/
theorem Bundle.exists_of_ascending {s : ModuleSet} {loader : Option Loader}
    (hs : outcome fs (ModuleSet.ofRequest c request) = .ok s)
    (hedges : ∀ u v, s.Edge u v → u.val < v.val) (hloader : outcome fs (s.loader? c) = .ok loader) :
    ∃ b r, outcome fs (ofRequest c request) = .ok b ∧
      outcome fs (Resolution.ofRequest c request) = .ok r ∧ r.set = s ∧
      b.loader = loader.map Loader.path := by
  have hdown (u v : Fin s.size) (h : s.Edge u v) : s.size - v.val < s.size - u.val := by
    have := hedges u v h
    omega
  obtain ⟨w, hw⟩ : ∃ w, s.weigh = .ok w := by
    refine ModuleSet.exists_weigh ?_ ?_
    · exact not_transGen_of_rank (fun u => s.size - u.val) fun u v h => hdown u v h.edge
    · exact not_transGen_of_rank (fun u => s.size - u.val) fun u v h => hdown u v h.1
  have hresolve : s.resolve = .ok ⟨s, w, s.loadOrder w⟩ := by
    rw [ModuleSet.resolve, hw]
    rfl
  have hr : outcome fs (Resolution.ofRequest c request) = .ok ⟨s, w, s.loadOrder w⟩ :=
    Resolution.outcome_ofRequest_eq_ok_iff.2 ⟨hs, hresolve⟩
  cases hemit : outcome fs (s.emit c (s.loadOrder w)) with
  | error failure =>
    rw [ModuleSet.emit, outcome_bind, hloader] at hemit
    cases hemit
  | ok b =>
    have hb : outcome fs (ofRequest c request) = .ok b := by
      rw [ofRequest, outcome_bind]
      exact bind_eq_ok_iff.2 ⟨_, hr, hemit⟩
    rw [ModuleSet.emit, outcome_bind, hloader] at hemit
    obtain rfl := Except.ok.inj hemit
    exact ⟨_, _, hb, hr, rfl, rfl⟩

/-- Both can be checked on the set of the request, and other things with them. -/
theorem Bundle.exists_of_checks {P : ModuleSet → Prop} [DecidablePred P] {path : Option Path}
    (h : (outcome fs (ModuleSet.ofRequest c request)).map (fun s =>
      decide ((∀ u v, s.Edge u v → u.val < v.val) ∧
        (outcome fs (s.loader? c)).map (Option.map Loader.path) = .ok path ∧ P s)) = .ok true) :
    ∃ b r, outcome fs (ofRequest c request) = .ok b ∧
      outcome fs (Resolution.ofRequest c request) = .ok r ∧ b.loader = path ∧ P r.set := by
  obtain ⟨s, hs, htrue⟩ := map_eq_ok_iff.1 h
  obtain ⟨hedges, hread, hP⟩ := of_decide_eq_true htrue
  obtain ⟨loader, hloader, hpath⟩ := map_eq_ok_iff.1 hread
  obtain ⟨b, r, hb, hr, rfl, hfound⟩ := exists_of_ascending hs hedges hloader
  exact ⟨b, r, hb, hr, hfound.trans hpath, hP⟩

/-- An application that needs one utility under two spellings of its category, and a loader script. -/
def respelledFiles : MemoryTree :=
  .ofFiles
    [(⟨"js/0_app.js"⟩, "((a,Script)=>setLaunchDependencies(['lib/3','./lib/3']))();".toUTF8),
     (⟨"js/lib/3_util.js"⟩, "let util = 3;".toUTF8),
     (⟨"js/Loader.js"⟩, "(name => name)();".toUTF8)]

/-- The utility is bundled twice. -/
theorem respelledFiles_utility :
    ∃ b r, outcome respelledFiles.fileSystem (Bundle.ofRequest {} (.file ⟨"js/0_app.js"⟩)) = .ok b ∧
      outcome respelledFiles.fileSystem (Resolution.ofRequest {} (.file ⟨"js/0_app.js"⟩)) = .ok r ∧
      b.loader = some ⟨"js/Loader.js"⟩ ∧
      ∃ u v, u ≠ v ∧ (r.set.modules.get u).SharesFile (r.set.modules.get v) := by
  have hset : (outcome respelledFiles.fileSystem (ModuleSet.ofRequest {} (.file ⟨"js/0_app.js"⟩))).map
      (fun s => decide ((∀ u v, s.Edge u v → u.val < v.val) ∧
        (outcome respelledFiles.fileSystem (s.loader? {})).map (Option.map Loader.path)
          = .ok (some ⟨"js/Loader.js"⟩) ∧
        ∃ u v, u ≠ v ∧ (s.modules.get u).SharesFile (s.modules.get v))) = .ok true := by
    decide +kernel
  exact Bundle.exists_of_checks hset

theorem respelledFiles_spelledTwice :
    ∃ b, ∃ r : Resolution,
      outcome respelledFiles.fileSystem (Bundle.ofRequest {} (.file ⟨"js/0_app.js"⟩)) = .ok b ∧
      b.order = r.set.keysIn r.order ∧ b.loader = some ⟨"js/Loader.js"⟩ ∧
      (∃ u v, u ≠ v ∧ SpelledTwice {} ⟨"js"⟩ (r.set.modules.get u) (r.set.modules.get v)) ∧
      ∀ u, (r.set.modules.get u).path.components ≠ (Path.mk "js/Loader.js").components := by
  obtain ⟨b, r, hb, hr, hfound, u, v, hne, hshared⟩ := respelledFiles_utility
  obtain ⟨r', hr', horder, hspelled, hloader⟩ := Bundle.sharesFile_iff respelledFiles.plainNames hb
  obtain rfl := Except.ok.inj (hr.symm.trans hr')
  refine ⟨b, r, hb, horder, hfound, ⟨u, v, hne, (hspelled u v hne).1 hshared⟩, fun u hu => ?_⟩
  rcases (hloader _ hfound).2 u hu with hfile | ⟨name, number, hname, hnumber⟩
  · rw [← Request.file.inj hfile] at hu
    revert hu
    decide +kernel
  · have hcalled : (Path.mk "js/Loader.js").fileName? = some "Loader.js" := by decide +kernel
    obtain rfl := Option.some.inj (hcalled.symm.trans hname)
    have hnone : moduleNumber? "js" "Loader.js" = none := by decide +kernel
    cases hnone.symm.trans hnumber

/-- It is not so that every file is bundled only once. -/
theorem respelledFiles_sharesFile :
    ¬ ∀ (fs : FileSystem) (request : Request) (b : Bundle) (r : Resolution),
      (∀ q, PlainNames q (fs q)) → outcome fs (Bundle.ofRequest {} request) = .ok b →
      outcome fs (Resolution.ofRequest {} request) = .ok r →
        (∀ u v, u ≠ v → (r.set.modules.get u).path.components ≠ (r.set.modules.get v).path.components) ∧
        ∀ loader, b.loader = some loader →
          ∀ u, (r.set.modules.get u).path.components ≠ loader.components := by
  intro h
  obtain ⟨b, r, hb, hr, -, u, v, hne, hshared⟩ := respelledFiles_utility
  exact (h _ _ b r respelledFiles.plainNames hb hr).1 u v hne hshared

end ScriptBundle

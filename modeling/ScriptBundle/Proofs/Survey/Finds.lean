import ScriptBundle.Proofs.Request.Ids
import ScriptBundle.Proofs.Script.Canonical
import ScriptBundle.Proofs.Survey.Modules

/-!
# Surveys as maps

A survey gives modules in the order of their keys.  Each of them has been read anew: it has the key
under which it is found, what it says about itself stands in its source, and it was not known.

## Main definitions

* `Survey.Named`: what the key of a module of a request says.
* `Survey.Reads`: a module is read for a key that is neither known nor there.
* `Survey.ReadAnew`: what holds of the modules of a survey.
* `Survey.Finds`: a survey for an id alone finds a module.

## Main results

* `modulesOf_induction`, `forall_modulesOf`: what is kept when a module that is read is put in holds of the
  modules of a survey, and so does what holds of each module that is read.
* `readAnew_modulesOf`, `named_modulesOf`: the modules of a survey have been read anew, and how they are
  called.
* `finds_iff`: what is found for an id does not depend on the other ids of a survey.
* `adds_ofIds`: **a survey for ids finds for each of them what a survey for it alone finds.**
-/

namespace ScriptBundle.Survey

open BundleAccess

variable {c : Convention} {fs : FileSystem} {known : ModuleKey → Bool} {dir path : Path}
  {key : ModuleKey} {id : ModuleId} {category : String} {number : Option Nat}
  {selection : Selection} {modules modules' : ModuleMap} {m : ScriptModule}

/-! ### Reading a module -/

/-- What a module says about itself stands in its source. -/
def SpeaksForItself (c : Convention) (m : ScriptModule) : Prop :=
  Manifest.ofSource c m.source.toList = .ok m.manifest

theorem outcome_manifest (source : String) {result : Manifest} :
    outcome fs (manifest c source) = .ok result ↔ Manifest.ofSource c source.toList = .ok result := by
  unfold manifest
  cases Manifest.ofSource c source.toList with
  | ok manifest => simp
  | error reason => simp

/-- A module that has been read has a text and what the text says about it, and is for the rest what it was
read for. -/
theorem exists_of_load (h : outcome fs (load c path key category number) = .ok (some m)) :
    ∃ source modified manifest, outcome fs (text? path) = .ok (some (source, modified)) ∧
      Manifest.ofSource c source.toList = .ok manifest ∧
      m = { key, path, category, number, source, modified
            version := String.ofList modified.version
            manifest } := by
  rw [load, outcome_bind, bind_eq_ok_iff] at h
  obtain ⟨text, htext, h⟩ := h
  cases text with
  | none => cases Except.ok.inj h
  | some text =>
    obtain ⟨source, modified⟩ := text
    dsimp only at h
    rw [outcome_bind, bind_eq_ok_iff] at h
    obtain ⟨manifest, hmanifest, h⟩ := h
    exact ⟨source, modified, manifest, htext, (outcome_manifest source).1 hmanifest,
      (Option.some.inj (Except.ok.inj h)).symm⟩

/-- A module that has been read has the key for which it was read. -/
theorem of_load (h : outcome fs (load c path key category number) = .ok (some m)) :
    m.key = key ∧ SpeaksForItself c m := by
  obtain ⟨source, modified, manifest, -, hmanifest, rfl⟩ := exists_of_load h
  exact ⟨rfl, hmanifest⟩

/-- A module that is found at an entry of a directory has been read there, under a name with its number. -/
theorem load_of_moduleAt {name : String} (h : moduleAt c fs dir id name = .ok (some m)) :
    moduleNumber? c.extension name = some id.number ∧
      outcome fs (load c (dir.join ⟨name⟩) (.numbered id) id.category (some id.number)) = .ok (some m) := by
  rw [moduleAt] at h
  by_cases hfile : moduleNumber? c.extension name = some id.number ∧
      fs (.isFile (dir.join ⟨name⟩)) = true
  · rw [if_pos hfile] at h
    exact ⟨hfile.1, h⟩
  · rw [if_neg hfile] at h
    cases Except.ok.inj h

/-- The key of a module is its category and number, or it is the requested file and has no number. -/
inductive Named (request : Request) (m : ScriptModule) : Prop where
  | numbered {n : Nat} (hnumber : m.number = some n) (hkey : m.key = .numbered ⟨m.category, n⟩)
  | requested (hnumber : m.number = none) (hkey : m.key = .file m.path) (hrequest : request = .file m.path)

theorem named_of_loadFile (h : outcome fs (loadFile c path) = .ok (some m)) : Named (.file path) m := by
  unfold loadFile at h
  dsimp only at h
  cases hnumber : path.fileName?.bind (moduleNumber? c.extension) with
  | none =>
    rw [hnumber] at h
    obtain ⟨source, modified, manifest, -, -, rfl⟩ := exists_of_load h
    exact .requested rfl rfl rfl
  | some n =>
    rw [hnumber] at h
    obtain ⟨source, modified, manifest, -, -, rfl⟩ := exists_of_load h
    exact .numbered rfl rfl

/-- A module of a request is read for a key that is neither known nor there. -/
structure Reads (c : Convention) (fs : FileSystem) (known : ModuleKey → Bool) (request : Request)
    (modules : ModuleMap) (key : ModuleKey) (path : Path) (category : String) (number : Option Nat)
    (m : ScriptModule) : Prop where
  load : outcome fs (load c path key category number) = .ok (some m)
  absent : Sorted.contains key modules = false
  new : known key = false
  named : Named request m

/-- What holds of no modules, and is kept when a module that is read is put in, holds of the modules of a
survey. -/
theorem modulesOf_induction {request : Request} {P : ModuleMap → Prop} (hnil : P [])
    (hinsert : ∀ modules key path category number m, P modules →
      Reads c fs known request modules key path category number m → P (Sorted.insert key m modules))
    (h : outcome fs (modulesOf c known request) = .ok modules) : P modules := by
  have hentry (dir : Path) (category : String) (selection : Selection) (modules : ModuleMap)
      (name : String) (modules' : ModuleMap) (hmodules : P modules)
      (h : outcome fs (addEntry c known dir category selection modules name) = .ok modules') :
      P modules' := by
    rcases addEntry_cases h with ⟨rfl, -⟩ | ⟨id, m, hpresent, hasked, hat, rfl, -⟩
    · exact hmodules
    · have hload := (load_of_moduleAt hat).2
      have hnamed : Named request m := by
        obtain ⟨source, modified, manifest, -, -, rfl⟩ := exists_of_load hload
        exact .numbered rfl rfl
      exact hinsert _ _ _ _ _ m hmodules ⟨hload, hpresent, hasked.2.2, hnamed⟩
  cases request with
  | modules dir name selections =>
    rw [modulesOf, outcome_foldlM] at h
    refine foldlM_keeps (fun modules wanted _ modules' hmodules h => ?_) hnil h
    rw [outcome_addCategory, bind_eq_ok_iff] at h
    obtain ⟨⟨categoryDir, names⟩, -, h⟩ := h
    exact foldlM_keeps (fun modules name _ modules' => hentry _ _ _ modules name modules') hmodules h
  | file path =>
    rw [modulesOf, outcome_bind, bind_eq_ok_iff] at h
    obtain ⟨found, hfound, h⟩ := h
    cases found with
    | none =>
      obtain rfl := Except.ok.inj h
      exact hnil
    | some m =>
      dsimp only at h
      cases hknown : known m.key with
      | true =>
        rw [hknown] at h
        obtain rfl := Except.ok.inj h
        exact hnil
      | false =>
        rw [hknown] at h
        obtain rfl := Except.ok.inj h
        have hnamed := named_of_loadFile hfound
        unfold loadFile at hfound
        dsimp only at hfound
        rw [← (of_load hfound).1] at hfound
        exact hinsert [] m.key _ _ _ m hnil ⟨hfound, rfl, hknown, hnamed⟩

/-- What holds of each module that is read for a request holds of all modules of a survey. -/
theorem forall_modulesOf {request : Request} {P : ScriptModule → Prop}
    (hread : ∀ modules key path category number m,
      Reads c fs known request modules key path category number m → P m)
    (h : outcome fs (modulesOf c known request) = .ok modules) : ∀ e ∈ modules, P e.2 := by
  refine modulesOf_induction (P := fun modules : ModuleMap => ∀ e ∈ modules, P e.2)
    (fun e he => absurd he List.not_mem_nil)
    (fun modules key path category number m hmodules hm e he => ?_) h
  rcases (Sorted.mem_insert_of_contains hm.absent e).1 he with rfl | he
  · exact hread modules key path category number m hm
  · exact hmodules e he

/-! ### The modules of a survey -/

/-- The modules stand in the order of their keys, and each of them has been read anew. -/
structure ReadAnew (c : Convention) (known : ModuleKey → Bool) (modules : ModuleMap) : Prop where
  ascending : Sorted.Ascending modules
  key : ∀ e ∈ modules, e.2.key = e.1
  speaks : ∀ e ∈ modules, SpeaksForItself c e.2
  new : ∀ e ∈ modules, known e.1 = false

theorem readAnew_nil : ReadAnew c known [] :=
  ⟨List.Pairwise.nil, fun _ h => absurd h List.not_mem_nil, fun _ h => absurd h List.not_mem_nil,
    fun _ h => absurd h List.not_mem_nil⟩

theorem readAnew_insert (h : ReadAnew c known modules)
    (hpresent : Sorted.contains key modules = false) (hm : m.key = key) (hspeaks : SpeaksForItself c m)
    (hnew : known key = false) : ReadAnew c known (Sorted.insert key m modules) := by
  have hmem (e : ModuleKey × ScriptModule) (he : e ∈ Sorted.insert key m modules) :
      e = (key, m) ∨ e ∈ modules := (Sorted.mem_insert_of_contains hpresent e).1 he
  refine ⟨Sorted.ascending_insert h.ascending, fun e he => ?_, fun e he => ?_, fun e he => ?_⟩
  · rcases hmem e he with rfl | he
    · exact hm
    · exact h.key e he
  · rcases hmem e he with rfl | he
    · exact hspeaks
    · exact h.speaks e he
  · rcases hmem e he with rfl | he
    · exact hnew
    · exact h.new e he

/-- The modules of a request that are not known have been read anew. -/
theorem readAnew_modulesOf {request : Request}
    (h : outcome fs (modulesOf c known request) = .ok modules) : ReadAnew c known modules := by
  refine modulesOf_induction readAnew_nil (fun modules key path category number m hmodules hread => ?_) h
  obtain ⟨hm, hspeaks⟩ := of_load hread.load
  exact readAnew_insert hmodules hread.absent hm hspeaks hread.new

/-- The modules of a request are called by their categories and numbers, apart from a requested file. -/
theorem named_modulesOf {request : Request} (h : outcome fs (modulesOf c known request) = .ok modules) :
    ∀ e ∈ modules, Named request e.2 :=
  forall_modulesOf (fun _ _ _ _ _ _ hread => hread.named) h

/-! ### Surveys for ids -/

/-- The modules of a survey are what is found for its request. -/
theorem modulesOf_of_survey {request : Request} {found : Survey}
    (h : outcome fs (survey c known request) = .ok found) :
    outcome fs (modulesOf c known request) = .ok found.modules ∧
      found.unresolved = unresolvedOf
        (fun key => known key || Sorted.contains key found.modules) found.modules := by
  rw [survey, outcome_bind, bind_eq_ok_iff] at h
  obtain ⟨modules, hmodules, h⟩ := h
  obtain rfl := Except.ok.inj h
  exact ⟨hmodules, rfl⟩

/-- The ids of a request are asked for unless they are known. -/
theorem exists_asksFor_iff {ids : List ModuleId}
    (hids : ∀ id ∈ ids, id.IsCanonical c) :
    (∃ wanted ∈ ids.foldl Request.addId [], AsksFor known (c.canonical wanted.1) wanted.2 id)
      ↔ id ∈ ids ∧ known (.numbered id) = false := by
  constructor
  · rintro ⟨wanted, hwanted, hcategory, hincludes, hnew⟩
    -- the category of the selection is that of an id, so that it is canonical
    have hmem : (⟨wanted.1, id.number⟩ : ModuleId) ∈ ids :=
      (Request.exists_includes_iff ids _).1 ⟨wanted, hwanted, rfl, hincludes⟩
    have hcanonical : c.canonical wanted.1 = wanted.1 := hids _ hmem
    rw [hcanonical] at hcategory
    rw [hcategory] at hmem
    exact ⟨hmem, hnew⟩
  · rintro ⟨hmem, hnew⟩
    obtain ⟨wanted, hwanted, hcategory, hincludes⟩ := (Request.exists_includes_iff ids id).2 hmem
    have hcanonical : c.canonical id.category = id.category := hids id hmem
    exact ⟨wanted, hwanted, by rw [hcategory, hcanonical], hincludes, hnew⟩

/-- **A survey for ids finds for each of them what is found for it alone.** -/
theorem adds_ofIds {ids : List ModuleId} (hids : ∀ id ∈ ids, id.IsCanonical c)
    (h : outcome fs (modulesOf c known (.ofIds dir ids)) = .ok modules) :
    Adds (fun id => if id ∈ ids ∧ known (.numbered id) = false then moduleOf c fs dir id
      else .ok none) [] modules := by
  have hadds := adds_modulesOf h
  simpa only [exists_asksFor_iff hids] using hadds

/-- Each module of a survey for ids is what is found for one of them. -/
theorem exists_of_mem_ofIds {ids : List ModuleId} (hids : ∀ id ∈ ids, id.IsCanonical c)
    (h : outcome fs (modulesOf c known (.ofIds dir ids)) = .ok modules) (hm : (key, m) ∈ modules) :
    ∃ id ∈ ids, key = .numbered id ∧ known key = false ∧ moduleOf c fs dir id = .ok (some m) := by
  obtain ⟨id, rfl, hfound⟩ := (adds_ofIds hids h).exists_of_mem (readAnew_modulesOf h).ascending hm
  obtain ⟨⟨hid, hnew⟩, hfound⟩ := ite_eq_some_iff.1 hfound
  exact ⟨id, hid, rfl, hnew, hfound⟩

/-- A survey for an id alone finds a module. -/
def Finds (c : Convention) (fs : FileSystem) (dir : Path) (id : ModuleId) (m : ScriptModule) : Prop :=
  ∃ found, outcome fs (survey c (fun _ => false) (.ofIds dir [id])) = .ok found ∧
    (.numbered id, m) ∈ found.modules

theorem Finds.key_eq (h : Finds c fs dir id m) : m.key = .numbered id := by
  obtain ⟨found, hfound, hm⟩ := h
  exact (readAnew_modulesOf (modulesOf_of_survey hfound).1).key _ hm

theorem Finds.unique {m' : ScriptModule} (h : Finds c fs dir id m) (h' : Finds c fs dir id m') :
    m = m' := by
  obtain ⟨found, hfound, hm⟩ := h
  obtain ⟨found', hfound', hm'⟩ := h'
  obtain rfl := Except.ok.inj (hfound.symm.trans hfound')
  have hread := readAnew_modulesOf (modulesOf_of_survey hfound).1
  have hself : compare (ModuleKey.numbered id) (.numbered id) = .eq := Std.ReflCmp.compare_self
  exact (Prod.mk.inj (hread.ascending.eq_of_compare hm hm' hself)).2

/-- A survey for ids that are not known fails only if it fails to find one of them. -/
theorem exists_of_modulesOf_error {ids : List ModuleId} (hids : ∀ id ∈ ids, id.IsCanonical c)
    (hnew : ∀ id ∈ ids, known (.numbered id) = false) {failure : Failure BundleFault}
    (h : outcome fs (modulesOf c known (.ofIds dir ids)) = .error failure) :
    ∃ id ∈ ids, moduleOf c fs dir id = .error failure := by
  rw [Request.ofIds, modulesOf, outcome_foldlM] at h
  obtain ⟨wanted, hwanted, modules, hstep⟩ := exists_step_of_foldlM_error h
  obtain ⟨id, hid, hcategory, hincludes⟩ := Request.exists_mem_of_mem_foldl hwanted
  have hcanonical : c.canonical wanted.1 = id.category := by
    rw [hcategory]
    exact hids id hid
  obtain ⟨id', hid'⟩ := exists_of_addCategory_error ⟨hcanonical, hincludes, hnew id hid⟩ hstep
  rw [askedOf] at hid'
  by_cases hasked : AsksFor known (c.canonical wanted.1) wanted.2 id'
  · rw [if_pos hasked] at hid'
    exact ⟨id', ((exists_asksFor_iff hids).1 ⟨wanted, hwanted, hasked⟩).1, hid'⟩
  · rw [if_neg hasked] at hid'
    cases hid'

/-- What a survey for an id alone finds under this id. -/
theorem moduleOf_eq_find? (hid : id.IsCanonical c)
    (h : outcome fs (modulesOf c (fun _ => false) (.ofIds dir [id])) = .ok modules) :
    moduleOf c fs dir id = .ok (Sorted.find? (.numbered id) modules) := by
  have hids : ∀ id' ∈ [id], id'.IsCanonical c := by
    intro id' hid'
    rwa [List.mem_singleton.1 hid']
  have hnew := (adds_ofIds hids h).new id rfl
  rwa [if_pos ⟨List.mem_cons_self, rfl⟩] at hnew

/-- **What a survey for an id alone finds is the module in the directory of its category.** -/
theorem finds_iff (hid : id.IsCanonical c) :
    Finds c fs dir id m ↔ moduleOf c fs dir id = .ok (some m) := by
  have hids : ∀ id' ∈ [id], id'.IsCanonical c := by
    intro id' hid'
    rwa [List.mem_singleton.1 hid']
  have hmem {modules : ModuleMap}
      (h : outcome fs (modulesOf c (fun _ => false) (.ofIds dir [id])) = .ok modules) :
      (.numbered id, m) ∈ modules ↔ Sorted.find? (.numbered id) modules = some m :=
    mem_numbered_iff (readAnew_modulesOf h).ascending
  constructor
  · rintro ⟨found, hsurvey, hm⟩
    obtain ⟨hmodules, -⟩ := modulesOf_of_survey hsurvey
    rw [moduleOf_eq_find? hid hmodules, (hmem hmodules).1 hm]
  · intro hm
    cases hmodules : outcome fs (modulesOf c (fun _ => false) (.ofIds dir [id])) with
    | error failure =>
      obtain ⟨id', hid', hfailure⟩ := exists_of_modulesOf_error hids (fun _ _ => rfl) hmodules
      rw [List.mem_singleton.1 hid', hm] at hfailure
      cases hfailure
    | ok modules =>
      rw [moduleOf_eq_find? hid hmodules] at hm
      have hsurvey : outcome fs (survey c (fun _ => false) (.ofIds dir [id]))
          = .ok ⟨modules, unresolvedOf (fun key => false || Sorted.contains key modules) modules⟩ := by
        rw [survey, outcome_bind, hmodules]
        rfl
      exact ⟨_, hsurvey, (hmem hmodules).2 (Except.ok.inj hm)⟩

end ScriptBundle.Survey

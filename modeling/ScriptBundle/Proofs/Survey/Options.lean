import Mathlib.Data.List.Forall2
import ScriptBundle.Proofs.Survey.Finds

/-!
# Scripts that declare further options

Two file systems have the same files, but in the second one some scripts declare more ids that they can do
without.  What a survey finds in the first one it finds in the second one as well, with the same keys; the
modules differ in these ids only.

## Main definitions

* `Interspersed`: a list with further entries put in at any places.
* `Manifest.AddsOptions`, `FileSystem.AddsOptions`: a script, and the scripts of a file system, declare
  further options.
* `ScriptModule.Resembles`: two modules differ in such ids only.

## Main results

* `carries_moduleOf`: what is found for an id in the first file system is found in the second one.
* `carries_modulesOf`: **so is what a survey finds.**
-/

namespace ScriptBundle

/-! ### Lists with further entries -/

/-- If lists are related entry by entry, then each entry of the first one is related to one of the second. -/
theorem exists_mem_of_forall₂ {α β : Type} {R : α → β → Prop} {as : List α} {bs : List β} {a : α}
    (h : List.Forall₂ R as bs) (ha : a ∈ as) : ∃ b ∈ bs, R a b := by
  induction h with
  | nil => cases ha
  | @cons a₁ b₁ as bs hab _ ih =>
    rcases List.mem_cons.1 ha with rfl | ha
    · exact ⟨b₁, List.mem_cons_self, hab⟩
    · obtain ⟨b, hb, hab⟩ := ih ha
      exact ⟨b, List.mem_cons_of_mem _ hb, hab⟩

/-- A list into which further entries of some kind have been put, at any places. -/
inductive Interspersed {α : Type} (P : α → Prop) : List α → List α → Prop where
  | nil : Interspersed P [] []
  | kept (a : α) {as bs : List α} (h : Interspersed P as bs) : Interspersed P (a :: as) (a :: bs)
  | further {b : α} (hb : P b) {as bs : List α} (h : Interspersed P as bs) : Interspersed P as (b :: bs)

namespace Interspersed

variable {α β : Type} {P : α → Prop} {as bs : List α} {a : α}

theorem refl (as : List α) : Interspersed P as as := by
  induction as with
  | nil => exact .nil
  | cons a as ih => exact .kept a ih

theorem mem_of_mem (h : Interspersed P as bs) (ha : a ∈ as) : a ∈ bs := by
  induction h with
  | nil => exact ha
  | kept b _ ih =>
    rcases List.mem_cons.1 ha with rfl | ha
    · exact List.mem_cons_self
    · exact List.mem_cons_of_mem _ (ih ha)
  | further _ _ ih => exact List.mem_cons_of_mem _ (ih ha)

theorem mem_or (h : Interspersed P as bs) (ha : a ∈ bs) : a ∈ as ∨ P a := by
  induction h with
  | nil => exact .inl ha
  | kept b _ ih =>
    rcases List.mem_cons.1 ha with rfl | ha
    · exact .inl List.mem_cons_self
    · exact (ih ha).imp_left (List.mem_cons_of_mem _)
  | further hb _ ih =>
    rcases List.mem_cons.1 ha with rfl | ha
    · exact .inr hb
    · exact ih ha

/-- Further entries leave no trace where they are dropped. -/
theorem filterMap_eq {f : α → Option β} (h : Interspersed P as bs) (hf : ∀ a, P a → f a = none) :
    bs.filterMap f = as.filterMap f := by
  induction h with
  | nil => rfl
  | kept a _ ih => rw [List.filterMap_cons, List.filterMap_cons, ih]
  | further hb _ ih => rw [List.filterMap_cons_none (hf _ hb), ih]

end Interspersed

/-! ### Scripts and modules -/

/-- A script declares the same as another one, and further ids of a kind that it can do without. -/
structure Manifest.AddsOptions (P : ModuleId → Prop) (m m' : Manifest) : Prop where
  selfRegistering : m'.selfRegistering = m.selfRegistering
  compile : m'.dependencies.compile = m.dependencies.compile
  launch : m'.dependencies.launch = m.dependencies.launch
  optional : Interspersed P m.dependencies.optional m'.dependencies.optional

theorem Manifest.AddsOptions.refl (P : ModuleId → Prop) (m : Manifest) : m.AddsOptions P m :=
  ⟨rfl, rfl, rfl, .refl _⟩

/-- There is a script at a path that says something about itself. -/
def Tells (c : Convention) (fs : FileSystem) (path : Path) (m : Manifest) : Prop :=
  ∃ source modified, BundleAccess.outcome fs (BundleAccess.text? path) = .ok (some (source, modified)) ∧
    Manifest.ofSource c source.toList = .ok m

/-- In the second of two file systems there are the same files, and scripts that declare the same as in the
first one and further ids of a kind that they can do without. -/
structure FileSystem.AddsOptions (c : Convention) (P : ModuleId → Prop) (fs fs' : FileSystem) : Prop where
  isFile : ∀ path, fs' (.isFile path) = fs (.isFile path)
  isDirectory : ∀ path, fs' (.isDirectory path) = fs (.isDirectory path)
  entries : ∀ path, fs' (.entries path) = fs (.entries path)
  absent : ∀ path, BundleAccess.outcome fs (BundleAccess.text? path) = .ok none →
    BundleAccess.outcome fs' (BundleAccess.text? path) = .ok none
  scripts : ∀ path m, Tells c fs path m → ∃ m', Tells c fs' path m' ∧ m.AddsOptions P m'

/-- A module declares the same as another one with the same key, and further options. -/
structure ScriptModule.Resembles (P : ModuleId → Prop) (m m' : ScriptModule) : Prop where
  key : m'.key = m.key
  category : m'.category = m.category
  manifest : m.manifest.AddsOptions P m'.manifest

namespace ScriptModule.Resembles

variable {P : ModuleId → Prop} {m m' : ScriptModule} {kind : DependencyKind} {id : ModuleId}

theorem mem_declared (h : m.Resembles P m') (hid : (kind, id) ∈ m.declared) : (kind, id) ∈ m'.declared := by
  rw [declared, Dependencies.mem_entries] at hid ⊢
  cases kind with
  | compile =>
    show id ∈ m'.manifest.dependencies.compile
    rw [h.manifest.compile]
    exact hid
  | launch =>
    show id ∈ m'.manifest.dependencies.launch
    rw [h.manifest.launch]
    exact hid
  | optional => exact h.manifest.optional.mem_of_mem hid

/-- What is declared in addition is of the given kind, and optional. -/
theorem mem_declared_or (h : m.Resembles P m') (hid : (kind, id) ∈ m'.declared) :
    (kind, id) ∈ m.declared ∨ kind = .optional ∧ P id := by
  rw [declared, Dependencies.mem_entries] at hid ⊢
  cases kind with
  | compile =>
    refine .inl (?_ : id ∈ m.manifest.dependencies.compile)
    rw [← h.manifest.compile]
    exact hid
  | launch =>
    refine .inl (?_ : id ∈ m.manifest.dependencies.launch)
    rw [← h.manifest.launch]
    exact hid
  | optional => exact (h.manifest.optional.mem_or hid).imp_right fun hP => ⟨rfl, hP⟩

end ScriptModule.Resembles

/-! ### What surveys find -/

namespace Survey

open BundleAccess

variable {c : Convention} {P : ModuleId → Prop} {fs fs' : FileSystem} {known : ModuleKey → Bool}
  {dir path : Path} {key : ModuleKey} {category : String} {number : Option Nat} {selection : Selection}
  {modules modules' : ModuleMap} {m m' : ScriptModule}

/-- Modules with the same keys that resemble each other. -/
def Alike (P : ModuleId → Prop) (modules modules' : ModuleMap) : Prop :=
  List.Forall₂ (fun e e' => e'.1 = e.1 ∧ e.2.Resembles P e'.2) modules modules'

theorem Alike.contains (h : Alike P modules modules') :
    Sorted.contains key modules' = Sorted.contains key modules := by
  induction h with
  | nil => rfl
  | @cons e e' es es' he _ ih =>
    unfold Sorted.contains at ih ⊢
    rw [Sorted.find?_cons, Sorted.find?_cons, he.1]
    cases (compare key e.1).isEq with
    | true => rfl
    | false => exact ih

theorem Alike.insert (h : Alike P modules modules') (hm : m.Resembles P m') :
    Alike P (Sorted.insert key m modules) (Sorted.insert key m' modules') := by
  induction h with
  | nil => exact .cons ⟨rfl, hm⟩ .nil
  | @cons e e' es es' he hes ih =>
    unfold Sorted.insert
    rw [he.1]
    cases compare key e.1 with
    | lt => exact .cons ⟨rfl, hm⟩ (.cons ⟨rfl, he.2⟩ hes)
    | eq => exact .cons ⟨rfl, hm⟩ hes
    | gt => exact .cons ⟨rfl, he.2⟩ ih

theorem Alike.exists_resembles (h : Alike P modules modules') (hm : (key, m) ∈ modules) :
    ∃ m', (key, m') ∈ modules' ∧ m.Resembles P m' := by
  obtain ⟨⟨key', m'⟩, hm', rfl, hresembles⟩ := exists_mem_of_forall₂ h hm
  exact ⟨m', hm', hresembles⟩

theorem Alike.exists_resembled (h : Alike P modules modules') (hm' : (key, m') ∈ modules') :
    ∃ m, (key, m) ∈ modules ∧ m.Resembles P m' := by
  obtain ⟨⟨key', m⟩, hm, rfl, hresembles⟩ := exists_mem_of_forall₂ (List.Forall₂.flip h) hm'
  exact ⟨m, hm, hresembles⟩

variable (h : fs.AddsOptions c P fs')

include h

theorem carries_load :
    Carries (Option.Rel (ScriptModule.Resembles P)) (outcome fs (load c path key category number))
      (outcome fs' (load c path key category number)) := by
  intro found hfound
  rw [load, outcome_bind, bind_eq_ok_iff] at hfound
  obtain ⟨text, htext, hfound⟩ := hfound
  cases text with
  | none =>
    obtain rfl := Except.ok.inj hfound
    refine ⟨none, ?_, .none⟩
    rw [load, outcome_bind, h.absent path htext]
    rfl
  | some text =>
    obtain ⟨source, modified⟩ := text
    dsimp only at hfound
    rw [outcome_bind, bind_eq_ok_iff] at hfound
    obtain ⟨manifest, hmanifest, hfound⟩ := hfound
    obtain rfl := Except.ok.inj hfound
    have htells : Tells c fs path manifest :=
      ⟨source, modified, htext, (outcome_manifest source).1 hmanifest⟩
    obtain ⟨manifest', ⟨source', modified', htext', hsource'⟩, hadds⟩ := h.scripts path manifest htells
    refine ⟨some ⟨key, path, category, number, source', modified', String.ofList modified'.version, manifest'⟩,
      ?_, .some ⟨rfl, rfl, hadds⟩⟩
    rw [load, outcome_bind, htext']
    show outcome fs' (Survey.manifest c source' >>= _) = _
    rw [outcome_bind, (outcome_manifest source').2 hsource']
    rfl

theorem carries_moduleAt {id : ModuleId} (name : String) :
    Carries (Option.Rel (ScriptModule.Resembles P)) (moduleAt c fs dir id name) (moduleAt c fs' dir id name) := by
  unfold moduleAt
  rw [h.isFile]
  split_ifs
  · exact carries_load h
  · exact carries_ok .none

theorem carries_moduleIn {id : ModuleId} (names : List String) :
    Carries (Option.Rel (ScriptModule.Resembles P)) (moduleIn c fs dir id names)
      (moduleIn c fs' dir id names) := by
  unfold moduleIn
  induction names with
  | nil => exact carries_ok .none
  | cons name names ih =>
    intro found hfound
    rw [firstOf] at hfound
    cases hname : moduleAt c fs dir id name with
    | error failure =>
      rw [hname] at hfound
      cases hfound
    | ok result =>
      obtain ⟨result', hresult', hrel⟩ := carries_moduleAt h name result hname
      cases hrel with
      | none =>
        rw [firstOf_cons_of_none hresult']
        rw [hname] at hfound
        exact ih found hfound
      | some hm =>
        rw [hname] at hfound
        obtain rfl := Except.ok.inj hfound
        exact ⟨_, firstOf_cons_of_some hresult' names, .some hm⟩

theorem listing_eq_listing : listing c fs' dir category = listing c fs dir category := by
  unfold listing
  simp only [h.isDirectory, h.entries]

/-- What is found for an id in the first file system is found in the second one. -/
theorem carries_moduleOf (id : ModuleId) :
    Carries (Option.Rel (ScriptModule.Resembles P)) (moduleOf c fs dir id) (moduleOf c fs' dir id) := by
  unfold moduleOf
  rw [listing_eq_listing h]
  apply Carries.bind (carries_refl _)
  rintro ⟨categoryDir, names⟩ _ rfl
  exact carries_moduleIn h names

theorem carries_addEntry (hmodules : Alike P modules modules') (name : String) :
    Carries (Alike P) (outcome fs (addEntry c known dir category selection modules name))
      (outcome fs' (addEntry c known dir category selection modules' name)) := by
  rw [outcome_addEntry, outcome_addEntry]
  cases moduleNumber? c.extension name with
  | none => exact carries_ok hmodules
  | some n =>
    dsimp only
    rw [hmodules.contains]
    split_ifs
    · apply Carries.map (carries_moduleAt h name)
      intro found found' hfound
      cases hfound with
      | none => exact hmodules
      | some hm => exact hmodules.insert hm
    · exact carries_ok hmodules

theorem carries_addCategory (hmodules : Alike P modules modules') (wanted : String × Selection) :
    Carries (Alike P) (outcome fs (addCategory c known dir modules wanted))
      (outcome fs' (addCategory c known dir modules' wanted)) := by
  rw [outcome_addCategory, outcome_addCategory, listing_eq_listing h]
  apply Carries.bind (carries_refl _)
  rintro ⟨categoryDir, names⟩ _ rfl
  exact carries_foldlM (fun _ _ name hmodules => carries_addEntry h hmodules name) names hmodules

/-- **What a survey finds in the first file system it finds in the second one.** -/
theorem carries_modulesOf (request : Request) :
    Carries (Alike P) (outcome fs (modulesOf c known request)) (outcome fs' (modulesOf c known request)) := by
  cases request with
  | modules dir name selections =>
    rw [modulesOf, outcome_foldlM, outcome_foldlM]
    exact carries_foldlM (fun _ _ wanted hmodules => carries_addCategory h hmodules wanted) selections .nil
  | file path =>
    rw [modulesOf, outcome_bind, outcome_bind]
    apply Carries.bind (carries_load h)
    intro found found' hfound
    cases hfound with
    | none => exact carries_ok .nil
    | @some m m' hm =>
      dsimp only
      rw [hm.key]
      cases known m.key with
      | true => exact carries_ok .nil
      | false => exact carries_ok (.cons ⟨rfl, hm⟩ .nil)

theorem carries_survey (request : Request) :
    Carries (fun found found' => Alike P found.modules found'.modules)
      (outcome fs (survey c known request)) (outcome fs' (survey c known request)) := by
  unfold survey
  rw [outcome_bind, outcome_bind]
  apply Carries.bind (carries_modulesOf h request)
  intro modules modules' hmodules
  exact carries_ok hmodules

end Survey

end ScriptBundle

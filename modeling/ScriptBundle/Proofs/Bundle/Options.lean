import ScriptBundle.Proofs.Bundle.SharedFiles
import ScriptBundle.Proofs.Closure.Options
import ScriptBundle.Proofs.Survey.Unaffected

/-!
# Bundles with further options

Modules may declare further ids that they can do without.  If nothing is found for these ids, then they are
dropped: each module is linked with the same modules as before, and so the bits, the weights and the load
order are the same.

## Main definitions

* `Resolution.outline`: what a resolution says of its modules, where modules are named by their places.

## Main results

* `ModuleSet.linked_congr`: ids that are not there leave no trace in the links.
* `ModuleSet.weigh_congr`, `ModuleSet.loadOrder_congr`: weights and load order depend on the links, and on the
  keys, the categories and the registration of the modules.
* `Resolution.exists_outline_eq`: **options for which nothing is found change nothing in the outline.**
-/

namespace ScriptBundle

open BundleAccess Survey

variable {c : Convention} {fs : FileSystem} {request : Request} {P : ModuleId → Prop} {n : Nat} {dir : Path}
  {name : Option String} {id : ModuleId}

/-! ### Outlines -/

/-- What a resolution says of its modules.  They are named by their places. -/
structure Resolution.Outline where
  keys : List ModuleKey
  /-- For each module, the places of the modules that it needs. -/
  links : List (Dependencies Nat)
  bits : List BitSet
  dependents : List BitSet
  compileDependents : List BitSet
  /-- The places in the load order. -/
  order : List Nat
  deriving DecidableEq

/-- What a resolution says of its modules. -/
def Resolution.outline (r : Resolution) : Outline where
  keys := r.set.keys
  links := r.set.links.toList.map fun links => links.mapLists (List.map Fin.val)
  bits := r.weights.bits.toList
  dependents := r.weights.dependents.toList
  compileDependents := r.weights.compileDependents.toList
  order := r.order.map Fin.val

namespace ModuleSet

/-- The set of some modules that stand at places already. -/
def linked (modules : Vector ScriptModule n) (dir : Path) (name : Option String) : ModuleSet :=
  ⟨n, modules, modules.map fun m => m.manifest.dependencies.mapLists (placesOf modules), dir, name⟩

theorem ofModules_eq_linked {ms : List ScriptModule} (hsize : ms.toArray.size = n) :
    ofModules ms dir name = linked (⟨ms.toArray, hsize⟩ : Vector ScriptModule n) dir name := by
  subst hsize
  unfold ofModules linked
  simp

theorem val_placeOf? {modules : Vector ScriptModule n} : (placeOf? modules id).map Fin.val
    = (modules.toList.map ScriptModule.key).findIdx? fun key => (compare key (.numbered id)).isEq := by
  obtain ⟨⟨ms⟩, rfl⟩ := modules
  rw [placeOf?, Vector.findFinIdx?_mk, List.findFinIdx?_toArray, List.findIdx?_map,
    List.findIdx?_eq_map_findFinIdx?_val, Option.map_map]
  rfl

/-- The weights that come from edges, bits and keys. -/
def weighAlong (edges : Fin n → List (DependencyKind × Fin n)) (bits : Vector BitSet n)
    (key : Fin n → ModuleKey) : Except (Failure BundleFault) (Weights n) :=
  match walkAll edges bits with
  | .ok m => .ok ⟨bits, m.dependents, m.compileDependents⟩
  | .error (.error cycle) => .error (.error (.compileCycle (cycle.map key)))
  | .error (.abandoned reason) => .error (.abandoned reason)

theorem weigh_eq_weighAlong (s : ModuleSet) :
    s.weigh = weighAlong s.edges s.bits fun u => (s.modules.get u).key := by
  unfold weigh weighAlong
  rcases walkAll s.edges s.bits with (cycle | reason) | m
  · rfl
  · rfl
  · rfl

/-! ### Modules that resemble each other -/

section

variable {modules modules' : Vector ScriptModule n} {links : Vector (Dependencies (Fin n)) n}
  (hmodules : ∀ u, (modules.get u).Resembles P (modules'.get u))

include hmodules

theorem toList_map_key : modules'.toList.map ScriptModule.key = modules.toList.map ScriptModule.key := by
  rw [← Vector.toList_map, ← Vector.toList_map, Vector.toList_inj]
  ext i hi
  rw [Vector.getElem_map, Vector.getElem_map]
  exact (hmodules ⟨i, hi⟩).key

theorem placeOf?_congr : placeOf? modules' = placeOf? modules := by
  funext id
  apply Option.map_injective (f := Fin.val) fun _ _ => Fin.ext
  rw [val_placeOf?, val_placeOf?, toList_map_key hmodules]

/-- **Ids that are not there leave no trace in the links.** -/
theorem linked_congr (habsent : ∀ id, P id → placeOf? modules id = none) :
    linked modules' dir name = mk n modules' (linked modules dir name).links dir name := by
  have hplaces : placesOf modules' = placesOf modules := by
    unfold placesOf
    rw [placeOf?_congr hmodules]
  have hlinks (u : Fin n) : (modules'.get u).manifest.dependencies.mapLists (placesOf modules)
      = (modules.get u).manifest.dependencies.mapLists (placesOf modules) := by
    obtain ⟨-, hcompile, hlaunch, hoptional⟩ := (hmodules u).manifest
    have hdropped : placesOf modules (modules'.get u).manifest.dependencies.optional
        = placesOf modules (modules.get u).manifest.dependencies.optional := by
      unfold placesOf
      rw [hoptional.filterMap_eq habsent]
    unfold Dependencies.mapLists
    rw [hcompile, hlaunch, hdropped]
  unfold linked
  rw [hplaces]
  congr 1
  ext i hi
  rw [Vector.getElem_map, Vector.getElem_map]
  exact hlinks ⟨i, hi⟩

theorem bits_congr : (mk n modules' links dir name).bits = (mk n modules links dir name).bits := by
  have hcategory (u : Fin n) : (modules'.get u).category = (modules.get u).category := (hmodules u).category
  have hself (u : Fin n) : (modules'.get u).isSelfRegistering = (modules.get u).isSelfRegistering :=
    (hmodules u).manifest.selfRegistering
  simp only [bits, bitOrder, hcategory, hself]

theorem weigh_congr : (mk n modules' links dir name).weigh = (mk n modules links dir name).weigh := by
  have hkey : (fun u => (modules'.get u).key) = fun u => (modules.get u).key :=
    funext fun u => (hmodules u).key
  have hedges : (mk n modules' links dir name).edges = (mk n modules links dir name).edges := rfl
  rw [weigh_eq_weighAlong, weigh_eq_weighAlong, bits_congr hmodules, hedges]
  exact congrArg _ hkey

theorem loadOrder_congr (w : Weights n) :
    (mk n modules' links dir name).loadOrder w = (mk n modules links dir name).loadOrder w := by
  have hkey (u : Fin n) : (modules'.get u).key = (modules.get u).key := (hmodules u).key
  have hplan : LoadOrder.plan (mk n modules' links dir name) w
      = LoadOrder.plan (mk n modules links dir name) w := by
    simp only [LoadOrder.plan, byPriority, priority, hkey]
    rfl
  have hstart : LoadOrder.start (mk n modules' links dir name)
      = LoadOrder.start (mk n modules links dir name) := rfl
  simp only [loadOrder, hplan, hstart]

/-- Sets with the same links have the same outline. -/
theorem exists_resolve_congr {r : Resolution} (h : (mk n modules links dir name).resolve = .ok r) :
    ∃ r', (mk n modules' links dir name).resolve = .ok r' ∧ r'.set = mk n modules' links dir name ∧
      r'.outline = r.outline := by
  obtain ⟨w, hw, rfl⟩ := map_eq_ok_iff.1 h
  refine ⟨⟨mk n modules' links dir name, w, (mk n modules' links dir name).loadOrder w⟩, ?_, rfl, ?_⟩
  · refine map_eq_ok_iff.2 ⟨w, ?_, rfl⟩
    rw [weigh_congr hmodules]
    exact hw
  · unfold Resolution.outline
    dsimp only
    rw [loadOrder_congr hmodules, keys, toList_map_key hmodules]
    rfl

end

end ModuleSet

/-- **Options for which nothing is found change nothing: if a request can be resolved, then with further
options of this kind it can be resolved as well, and the keys, the links, the bits, the weights and the load
order are the same.**  The modules are fewer than the surveys that can be counted, since the further options may
take one survey more. -/
theorem Resolution.exists_outline_eq {fs' : FileSystem} {r : Resolution}
    (h : fs.AddsOptions c (Undiscoverable c fs' request) fs')
    (hr : outcome fs (ofRequest c request) = .ok r) (hsize : r.set.size < surveyLimit) :
    ∃ r', outcome fs' (ofRequest c request) = .ok r' ∧ r'.outline = r.outline := by
  obtain ⟨hset, hresolve⟩ := outcome_ofRequest_eq_ok_iff.1 hr
  obtain ⟨ms, ms', hms, hset', halike, habsent⟩ := ModuleSet.exists_ofRequest h hset hsize
  have hlength : ms'.toArray.size = ms.length := halike.length_eq.symm
  have hmodules (u : Fin ms.length) : ((⟨ms.toArray, rfl⟩ : Vector ScriptModule ms.length).get u).Resembles
      (Undiscoverable c fs' request) ((⟨ms'.toArray, hlength⟩ : Vector ScriptModule ms.length).get u) :=
    (List.forall₂_iff_get.1 halike).2 u.val u.isLt (halike.length_eq ▸ u.isLt)
  have hnone (id : ModuleId) (hid : Undiscoverable c fs' request id) :
      ModuleSet.placeOf? (⟨ms.toArray, rfl⟩ : Vector ScriptModule ms.length) id = none := by
    rw [← ModuleSet.placeOf?_congr hmodules, ModuleSet.placeOf?_eq_none_iff]
    exact habsent id hid
  rw [hms, ModuleSet.ofModules_eq_linked rfl] at hresolve
  obtain ⟨r', hresolve', hr', houtline⟩ := ModuleSet.exists_resolve_congr hmodules hresolve
  refine ⟨r', outcome_ofRequest_eq_ok_iff.2 ⟨?_, ?_⟩, houtline⟩
  · rw [hset', hr', ModuleSet.ofModules_eq_linked hlength, ModuleSet.linked_congr hmodules hnone]
    rfl
  · rw [hr']
    exact hresolve'

/-! ### A script that is written anew -/

namespace FileSystem

/-- Where one answer is replaced, the others are as before. -/
theorem answering_of_ne {q r : Question} {a : q.Answer} (h : q ≠ r) : fs.answering q a r = fs r := dif_neg h

/-- A file is read as before if another one has a new content. -/
theorem outcome_text?_answering {path p : Path} {answer : Except FileFault ByteArray} (h : path ≠ p) :
    outcome (fs.answering (.content path) answer) (text? p) = outcome fs (text? p) := by
  have hstays : BundleAccess.StaysIn (fun _ _ => True)
      (fun q => fs.answering (.content path) answer q = fs q) (fun _ => True) (text? p) := by
    apply staysIn_text?
    · exact answering_of_ne fun heq => h (Question.content.inj heq)
    · exact answering_of_ne fun heq => nomatch heq
  exact hstays.run_eq fun _ => trivial

/-- A script that is written anew may declare further options. -/
theorem AddsOptions.of_answering {path : Path} {answer : Except FileFault ByteArray} {text text' : String × Timestamp}
    {m m' : Manifest} (htext : outcome fs (text? path) = .ok (some text))
    (htext' : outcome (fs.answering (.content path) answer) (text? path) = .ok (some text'))
    (hm : Manifest.ofSource c text.1.toList = .ok m) (hm' : Manifest.ofSource c text'.1.toList = .ok m')
    (hadds : m.AddsOptions P m') : fs.AddsOptions c P (fs.answering (.content path) answer) := by
  constructor
  · exact fun p => answering_of_ne fun heq => nomatch heq
  · exact fun p => answering_of_ne fun heq => nomatch heq
  · exact fun p => answering_of_ne fun heq => nomatch heq
  · intro p hp
    by_cases heq : path = p
    · subst heq
      rw [htext] at hp
      cases hp
    · rwa [outcome_text?_answering heq]
  · rintro p m₁ ⟨source, modified, hp, hm₁⟩
    by_cases heq : path = p
    · subst heq
      rw [htext] at hp
      obtain rfl := Option.some.inj (Except.ok.inj hp)
      obtain rfl := Except.ok.inj (hm.symm.trans hm₁)
      exact ⟨m', ⟨text'.1, text'.2, htext', hm'⟩, hadds⟩
    · refine ⟨m₁, ⟨source, modified, ?_, hm₁⟩, .refl P m₁⟩
      rwa [outcome_text?_answering heq]

end FileSystem

/-- An application that can do without a utility. -/
def looseFiles : FileSystem :=
  (MemoryTree.ofFiles
    [(⟨"js/0_app.js"⟩, "((a,Script)=>setOptionalDependencies(['1']))();".toUTF8),
     (⟨"js/1_util.js"⟩, "let util = 1;".toUTF8)]).fileSystem

/-- The same application, which can do without two scripts that are not there as well. -/
def looserFiles : FileSystem :=
  looseFiles.answering (.content ⟨"js/0_app.js"⟩)
    (.ok "((a,Script)=>setOptionalDependencies(['7','1','lib/3']))();".toUTF8)

/-- The application can be resolved. -/
theorem looseFiles_resolution :
    ∃ r, outcome looseFiles (Resolution.ofRequest {} (.file ⟨"js/0_app.js"⟩)) = .ok r ∧ r.set.size = 2 := by
  have hset : (outcome looseFiles (ModuleSet.ofRequest {} (.file ⟨"js/0_app.js"⟩))).map
      (fun s => decide ((∀ u v, s.Edge u v → u.val < v.val) ∧
        (outcome looseFiles (s.loader? {})).map (Option.map Loader.path) = .ok none ∧ s.size = 2)) = .ok true := by
    decide +kernel
  obtain ⟨b, r, -, hr, -, hsize⟩ := Bundle.exists_of_checks hset
  exact ⟨r, hr, hsize⟩

theorem looserFiles_outline :
    ∃ r r', outcome looseFiles (Resolution.ofRequest {} (.file ⟨"js/0_app.js"⟩)) = .ok r ∧
      looseFiles.AddsOptions {} (Undiscoverable {} looserFiles (.file ⟨"js/0_app.js"⟩)) looserFiles ∧
      r.set.size < surveyLimit ∧
      outcome looserFiles (Resolution.ofRequest {} (.file ⟨"js/0_app.js"⟩)) = .ok r' ∧
      r'.outline = r.outline := by
  obtain ⟨r, hr, hsize⟩ := looseFiles_resolution
  have hlimit : r.set.size < surveyLimit := by
    rw [hsize]
    decide
  have hkeys : (outcome looserFiles (survey {} (fun _ => false) (.file ⟨"js/0_app.js"⟩))).map
      (fun found => Sorted.keys found.modules) = .ok [.numbered ⟨".", 0⟩] := by
    decide +kernel
  have hseven : Undiscoverable {} looserFiles (.file ⟨"js/0_app.js"⟩) ⟨".", 7⟩ :=
    .of_keys (by decide +kernel) hkeys (by decide)
  have hlib : Undiscoverable {} looserFiles (.file ⟨"js/0_app.js"⟩) ⟨"lib", 3⟩ :=
    .of_keys (by decide +kernel) hkeys (by decide)
  have htext : outcome looseFiles (text? ⟨"js/0_app.js"⟩)
      = .ok (some ("((a,Script)=>setOptionalDependencies(['1']))();", .epoch)) := by
    decide +kernel
  have htext' : outcome looserFiles (text? ⟨"js/0_app.js"⟩)
      = .ok (some ("((a,Script)=>setOptionalDependencies(['7','1','lib/3']))();", .epoch)) := by
    decide +kernel
  have hm : Manifest.ofSource {} "((a,Script)=>setOptionalDependencies(['1']))();".toList
      = .ok ⟨true, ⟨[], [], [⟨".", 1⟩]⟩, []⟩ := by
    decide +kernel
  have hm' : Manifest.ofSource {} "((a,Script)=>setOptionalDependencies(['7','1','lib/3']))();".toList
      = .ok ⟨true, ⟨[], [], [⟨".", 7⟩, ⟨".", 1⟩, ⟨"lib", 3⟩]⟩, []⟩ := by
    decide +kernel
  have hadds : looseFiles.AddsOptions {} (Undiscoverable {} looserFiles (.file ⟨"js/0_app.js"⟩)) looserFiles :=
    .of_answering htext htext' hm hm' ⟨rfl, rfl, rfl, .further hseven (.kept _ (.further hlib .nil))⟩
  obtain ⟨r', hr', houtline⟩ := Resolution.exists_outline_eq hadds hr hlimit
  exact ⟨r, r', hr, hadds, hlimit, hr', houtline⟩

end ScriptBundle

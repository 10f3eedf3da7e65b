import Mathlib.Data.Fin.Basic
import Mathlib.Logic.Relation
import ScriptBundle.FileSystem.Memory
import ScriptBundle.Proofs.Closure.Discovered
import ScriptBundle.Proofs.Module.Links

/-!
# The set of a request

The set of modules of a request is the least one that holds what the request finds and that is closed
under looking for the ids that its modules declare.

## Main definitions

* `Declares`: a module declares the id of another one.
* `ModuleSet.IsLeastClosure`: what the set of a request is to be.

## Main results

* `outcome_ofRequest`: what becomes of a closure.
* `isLeastClosure_ofRequest`: **the set of a request is the least closure of what the request finds.**
-/

namespace ScriptBundle

open BundleAccess Relation Survey

variable {c : Convention} {fs : FileSystem} {request : Request} {s : ModuleSet} {m : ScriptModule}
  {limit : Nat}

/-- A module declares the id of another one. -/
def Declares (m m' : ScriptModule) : Prop :=
  ∃ kind id, (kind, id) ∈ m.declared ∧ m'.key = .numbered id

namespace ModuleSet

/-- The least set of modules that holds what a request finds, and what is found for the ids that its
modules declare. -/
structure IsLeastClosure (c : Convention) (fs : FileSystem) (request : Request) (s : ModuleSet) :
    Prop where
  ascending : s.keys.Pairwise fun a b => compare a b = .lt
  /-- It holds what the request finds. -/
  seeds : ∀ m, Seeds c fs request m → m ∈ s.modules
  /-- It has a module for every declared id for which something is found. -/
  closed : ∀ m ∈ s.modules, ∀ kind id, (kind, id) ∈ m.declared →
    ∀ found, Finds c fs request.directory id found → .numbered id ∈ s.keys
  /-- It holds nothing else. -/
  least : ∀ m ∈ s.modules, Discovered c fs request m
  /-- Declared ids lead from what the request finds to every module of the set, within the set. -/
  linked : ∀ m ∈ s.modules, ∃ seed, Seeds c fs request seed ∧
    ReflTransGen (fun a b => a ∈ s.modules ∧ b ∈ s.modules ∧ Declares a b) seed m
  /-- The modules of the set whose ids a module declares by a kind, in the order of the first
  declarations. -/
  links : ∀ u kind, ((s.links.get u).get kind).map (fun v => (s.modules.get v).key)
    = (((s.modules.get u).manifest.dependencies.get kind).filter
      fun id => .numbered id ∈ s.keys).eraseDups.map .numbered

/-- What becomes of a closure. -/
theorem outcome_ofRequest :
    outcome fs (ofRequest c request limit) = (do
      let k ← outcome fs (Closure.extend c request.directory limit {} request)
      if k.modules.isEmpty then .error (.error (.nothingToBundle request.describe))
      else
        match k.missing with
        | [] => .ok (ofModules (Sorted.values k.modules) request.directory request.name?)
        | missing => .error (.error (.missingDependency missing))) := by
  rw [ofRequest, outcome_bind]
  refine congrArg _ (funext fun k => ?_)
  cases k.modules.isEmpty with
  | true => rfl
  | false =>
    cases k.missing with
    | nil => rfl
    | cons first rest => rfl

/-- A request has a set of modules if its closure has modules, and nothing is missing. -/
theorem outcome_ofRequest_eq_ok_iff : outcome fs (ofRequest c request limit) = .ok s ↔
    ∃ k, outcome fs (Closure.extend c request.directory limit {} request) = .ok k ∧ k.modules ≠ [] ∧
      k.missing = [] ∧ s = ofModules (Sorted.values k.modules) request.directory request.name? := by
  rw [outcome_ofRequest, bind_eq_ok_iff]
  refine exists_congr fun k => and_congr_right fun _ => ?_
  cases hmodules : k.modules with
  | nil => simp
  | cons e es =>
    cases hmissing : k.missing with
    | nil => simp [eq_comm]
    | cons first rest => simp

/-- The set of a request is made of the modules of its closure. -/
theorem exists_closure (h : outcome fs (ofRequest c request limit) = .ok s) :
    ∃ k, outcome fs (Closure.extend c request.directory limit {} request) = .ok k ∧
      s = ofModules (Sorted.values k.modules) request.directory request.name? := by
  obtain ⟨k, hk, -, -, hs⟩ := outcome_ofRequest_eq_ok_iff.1 h
  exact ⟨k, hk, hs⟩

theorem mem_modules_ofModules {ms : List ScriptModule} {dir : Path} {name : Option String} :
    m ∈ (ofModules ms dir name).modules ↔ m ∈ ms :=
  Vector.mem_mk.trans List.mem_toArray

/-- The modules of a set are those that the request leads to. -/
theorem mem_modules_ofRequest (h : outcome fs (ofRequest c request limit) = .ok s) :
    m ∈ s.modules ↔ Discovered c fs request m := by
  obtain ⟨k, hk, rfl⟩ := exists_closure h
  obtain ⟨hexplored, hpending⟩ := Closure.explored_of_extend hk
  exact mem_modules_ofModules.trans (hexplored.mem_iff hpending)

theorem discovered_get (h : outcome fs (ofRequest c request limit) = .ok s) (u : Fin s.size) :
    Discovered c fs request (s.modules.get u) :=
  (mem_modules_ofRequest h).1 (Vector.getElem_mem u.isLt)

/-- The modules of a request have different keys. -/
theorem key_injective {u v : Fin s.size} (h : outcome fs (ofRequest c request limit) = .ok s) (hne : u ≠ v) :
    (s.modules.get u).key ≠ (s.modules.get v).key := by
  obtain ⟨k, hk, rfl⟩ := exists_closure h
  obtain ⟨hexplored, -⟩ := Closure.explored_of_extend hk
  have hnodup : ((Sorted.values k.modules).map ScriptModule.key).Nodup := by
    rw [hexplored.consistent.map_key_values]
    exact hexplored.consistent.modules.nodup_keys
  intro heq
  -- equal keys stand at one place of a list without duplicates
  have hlength : ((Sorted.values k.modules).map ScriptModule.key).length
      = (Sorted.values k.modules).length := List.length_map _
  have hsame : ((Sorted.values k.modules).map ScriptModule.key).get (u.cast hlength.symm)
      = ((Sorted.values k.modules).map ScriptModule.key).get (v.cast hlength.symm) := by
    rw [List.get_eq_getElem, List.get_eq_getElem, List.getElem_map, List.getElem_map]
    exact heq
  exact hne (Fin.cast_injective _ (List.nodup_iff_injective_get.1 hnodup hsame))

/-- Declared ids lead to every module that is discovered. -/
theorem exists_chain (hm : Discovered c fs request m) :
    ∃ seed, Seeds c fs request seed ∧ ReflTransGen (fun a b =>
      Discovered c fs request a ∧ Discovered c fs request b ∧ Declares a b) seed m := by
  induction hm with
  | @seed m h => exact ⟨m, h, .refl⟩
  | @declared m found kind id hm hdeclared hseeds hfound ih =>
    obtain ⟨seed, hseed, hchain⟩ := ih
    have hlast : Declares m found := ⟨kind, id, hdeclared, hfound.key_eq⟩
    exact ⟨seed, hseed, hchain.tail ⟨hm, .declared hm hdeclared hseeds hfound, hlast⟩⟩

/-- **The set of a request is the least closure of what the request finds.** -/
theorem isLeastClosure_ofRequest (h : outcome fs (ofRequest c request limit) = .ok s) :
    s.IsLeastClosure c fs request := by
  obtain ⟨k, hk, rfl⟩ := exists_closure h
  obtain ⟨hexplored, hpending⟩ := Closure.explored_of_extend hk
  have hmem (m : ScriptModule) :
      m ∈ (ofModules (Sorted.values k.modules) request.directory request.name?).modules
        ↔ Discovered c fs request m :=
    mem_modules_ofModules.trans (hexplored.mem_iff hpending)
  have hkeys : (Sorted.values k.modules).map ScriptModule.key = Sorted.keys k.modules := by
    rw [Sorted.values, List.map_map]
    exact List.map_congr_left hexplored.consistent.key
  constructor
  · rw [keys_ofModules, hkeys, Sorted.keys, List.pairwise_map]
    exact hexplored.consistent.modules
  · exact fun m hm => (hmem m).2 (.seed hm)
  · intro m hm kind id hdeclared found hfound
    have hentry := hexplored.mem_modules (mem_modules_ofModules.1 hm)
    have hkey := hexplored.hasKey_of_finds hpending ⟨m, hentry, hdeclared⟩ hfound
    obtain ⟨m', hm'⟩ := Closure.hasKey_numbered_iff.1 hkey
    rw [keys_ofModules, hkeys]
    exact List.mem_map.2 ⟨_, hm', rfl⟩
  · exact fun m hm => (hmem m).1 hm
  · intro m hm
    simp only [hmem] at hm ⊢
    exact exists_chain hm
  · intro u kind
    refine map_key_links_ofModules ?_ u kind
    rw [hkeys]
    exact hexplored.consistent.modules.nodup_keys

/-- An application that needs a utility of another category, which needs the application and can do
without a third script that is not there. -/
def utilityFiles : MemoryTree :=
  .ofFiles
    [(⟨"js/0_app.js"⟩, "((a,Script)=>setLaunchDependencies('lib-1'))".toUTF8),
     (⟨"js/lib/1_util.js"⟩,
      "((a,Script)=>setCompileDependencies('0')+setOptionalDependencies('2'))".toUTF8)]

theorem utilityFiles_isLeastClosure :
    ∃ s, outcome utilityFiles.fileSystem (ofRequest {} (.file ⟨"js/0_app.js"⟩)) = .ok s ∧
      s.keys = [.numbered ⟨".", 0⟩, .numbered ⟨"lib", 1⟩] ∧
      s.IsLeastClosure {} utilityFiles.fileSystem (.file ⟨"js/0_app.js"⟩) := by
  have hkeys : (outcome utilityFiles.fileSystem
      (ofRequest {} (.file ⟨"js/0_app.js"⟩))).toOption.map keys
        = some [.numbered ⟨".", 0⟩, .numbered ⟨"lib", 1⟩] := by
    decide +kernel
  obtain ⟨s, h, hkeys⟩ := exists_of_toOption hkeys
  exact ⟨s, h, hkeys, isLeastClosure_ofRequest h⟩

end ModuleSet

end ScriptBundle

import ScriptBundle.Proofs.Closure.LeastClosure
import ScriptBundle.Proofs.Closure.Missing
import ScriptBundle.Proofs.Closure.Success
import ScriptBundle.Proofs.Sorted.Collected
import ScriptBundle.Proofs.Survey.Options

/-!
# Closures with further options

Scripts may declare further ids that they can do without and for which nothing is found.  Then a request
leads to modules with the same keys as before, although more ids are asked for, and in other surveys.

## Main definitions

* `Undiscoverable`: nothing is found for an id.

## Main results

* `Discovered.exists_resembles`, `Discovered.exists_resembled`: what a request leads to is the same as
  before, apart from the further options.
* `ModuleSet.exists_ofRequest`: **a request that has a set of modules has one with the further options as
  well, of modules with the same keys.**
-/

namespace ScriptBundle

open BundleAccess Survey

variable {c : Convention} {fs fs' : FileSystem} {request : Request} {id : ModuleId} {m m' : ScriptModule}
  {k k' : Closure} {limit : Nat}

/-- Nothing is found for an id, and it can be looked for.  Neither does the request itself find a module with
this id. -/
structure Undiscoverable (c : Convention) (fs : FileSystem) (request : Request) (id : ModuleId) : Prop where
  notFound : ∃ found, outcome fs (survey c (fun _ => false) (.ofIds request.directory [id])) = .ok found ∧
    ∀ m, (.numbered id, m) ∉ found.modules
  notSeed : ∀ seed, Seeds c fs request seed → seed.key ≠ .numbered id

namespace Undiscoverable

/-- That nothing is found for an id can be seen from the keys of two surveys. -/
theorem of_keys {keys : List ModuleKey}
    (hnothing : (outcome fs (survey c (fun _ => false) (.ofIds request.directory [id]))).map
      (fun found => Sorted.keys found.modules) = .ok [])
    (hkeys : (outcome fs (survey c (fun _ => false) request)).map
      (fun found => Sorted.keys found.modules) = .ok keys)
    (hid : .numbered id ∉ keys) : Undiscoverable c fs request id := by
  constructor
  · obtain ⟨found, hfound, hempty⟩ := map_eq_ok_iff.1 hnothing
    refine ⟨found, hfound, fun m hm => ?_⟩
    rw [List.map_eq_nil_iff.1 hempty] at hm
    cases hm
  · rintro seed ⟨found, hfound, hseed⟩ hkey
    obtain ⟨found', hfound', rfl⟩ := map_eq_ok_iff.1 hkeys
    obtain rfl := Except.ok.inj (hfound.symm.trans hfound')
    rw [← hkey] at hid
    exact hid (List.mem_map.2 ⟨_, hseed, rfl⟩)

theorem not_finds (h : Undiscoverable c fs request id) : ¬ Finds c fs request.directory id m := by
  rintro ⟨found, hfound, hm⟩
  obtain ⟨found', hfound', hnone⟩ := h.notFound
  obtain rfl := Except.ok.inj (hfound.symm.trans hfound')
  exact hnone m hm

theorem moduleOf_eq_none (h : Undiscoverable c fs request id) (hid : id.IsCanonical c) :
    moduleOf c fs request.directory id = .ok none := by
  obtain ⟨found, hfound, -⟩ := h.notFound
  have hmodule := moduleOf_eq_find? hid (modulesOf_of_survey hfound).1
  cases hfind : Sorted.find? (.numbered id) found.modules with
  | none => rw [hmodule, hfind]
  | some m =>
    rw [hfind, ← finds_iff hid] at hmodule
    exact absurd hmodule h.not_finds

/-- A request leads to no module with such an id. -/
theorem key_ne (h : Undiscoverable c fs request id) (hm : Discovered c fs request m) :
    m.key ≠ .numbered id :=
  absent_of_not_finds h.notSeed (fun _ => h.not_finds) m hm

end Undiscoverable

/-! ### What a request leads to -/

section

variable (h : fs.AddsOptions c (Undiscoverable c fs' request) fs')

include h

theorem Survey.Seeds.exists_resembles (hm : Seeds c fs request m) :
    ∃ m', Seeds c fs' request m' ∧ m.Resembles (Undiscoverable c fs' request) m' := by
  obtain ⟨found, hfound, hm⟩ := hm
  obtain ⟨found', hfound', halike⟩ := carries_survey h request found hfound
  obtain ⟨m', hm', hresembles⟩ := halike.exists_resembles hm
  refine ⟨m', ⟨found', hfound', ?_⟩, hresembles⟩
  rw [hresembles.key]
  exact hm'

theorem Survey.Finds.exists_resembles (hm : Finds c fs request.directory id m) :
    ∃ m', Finds c fs' request.directory id m' ∧ m.Resembles (Undiscoverable c fs' request) m' := by
  obtain ⟨found, hfound, hm⟩ := hm
  obtain ⟨found', hfound', halike⟩ := carries_survey h _ found hfound
  obtain ⟨m', hm', hresembles⟩ := halike.exists_resembles hm
  exact ⟨m', ⟨found', hfound', hm'⟩, hresembles⟩

variable (hfirst : ∃ found, outcome fs (survey c (fun _ => false) request) = .ok found)

include hfirst

theorem Survey.Seeds.exists_resembled (hm' : Seeds c fs' request m') :
    ∃ m, Seeds c fs request m ∧ m.Resembles (Undiscoverable c fs' request) m' := by
  obtain ⟨found, hfound⟩ := hfirst
  obtain ⟨found', hfound', halike⟩ := carries_survey h request found hfound
  obtain ⟨found₁, hfound₁, hm'⟩ := hm'
  obtain rfl := Except.ok.inj (hfound₁.symm.trans hfound')
  obtain ⟨m, hm, hresembles⟩ := halike.exists_resembled hm'
  refine ⟨m, ⟨found, hfound, ?_⟩, hresembles⟩
  rw [← hresembles.key]
  exact hm

/-- The request itself finds a module with an id if and only if it did so before. -/
theorem Survey.seeds_key_iff (key : ModuleKey) :
    (∀ seed, Seeds c fs' request seed → seed.key ≠ key) ↔ ∀ seed, Seeds c fs request seed → seed.key ≠ key := by
  constructor
  · intro hne seed hseed
    obtain ⟨seed', hseed', hresembles⟩ := hseed.exists_resembles h
    rw [← hresembles.key]
    exact hne seed' hseed'
  · intro hne seed' hseed'
    obtain ⟨seed, hseed, hresembles⟩ := hseed'.exists_resembled h hfirst
    rw [hresembles.key]
    exact hne seed hseed

/-- What a request led to before, it leads to now. -/
theorem Discovered.exists_resembles (hm : Discovered c fs request m) :
    ∃ m', Discovered c fs' request m' ∧ m.Resembles (Undiscoverable c fs' request) m' := by
  induction hm with
  | seed hseed =>
    obtain ⟨m', hseed', hresembles⟩ := hseed.exists_resembles h
    exact ⟨m', .seed hseed', hresembles⟩
  | @declared m found kind id _ hdeclared hseeds hfinds ih =>
    obtain ⟨m', hm', hresembles⟩ := ih
    obtain ⟨found', hfinds', hfound⟩ := hfinds.exists_resembles h
    have hseeds' := (seeds_key_iff h hfirst _).2 hseeds
    exact ⟨found', .declared hm' (hresembles.mem_declared hdeclared) hseeds' hfinds', hfound⟩

variable (hsearch : Searchable c fs request)

include hsearch

/-- **What a request leads to now, it led to before.** -/
theorem Discovered.exists_resembled (hm' : Discovered c fs' request m') :
    ∃ m, Discovered c fs request m ∧ m.Resembles (Undiscoverable c fs' request) m' := by
  induction hm' with
  | seed hseed' =>
    obtain ⟨m, hseed, hresembles⟩ := hseed'.exists_resembled h hfirst
    exact ⟨m, .seed hseed, hresembles⟩
  | @declared m' found' kind id _ hdeclared' hseeds' hfinds' ih =>
    obtain ⟨m, hm, hresembles⟩ := ih
    rcases hresembles.mem_declared_or hdeclared' with hdeclared | ⟨-, hundiscoverable⟩
    · have hid : id.IsCanonical c := ScriptModule.isCanonical_of_mem_declared hm.speaksForItself hdeclared
      have hseeds := (seeds_key_iff h hfirst _).1 hseeds'
      -- before, the id could be looked for as well, and the same was found
      obtain ⟨result, hresult⟩ := hsearch m hm kind id hdeclared hseeds
      obtain ⟨result', hresult', hrel⟩ := carries_moduleOf h id result hresult
      rw [(finds_iff hid).1 hfinds'] at hresult'
      obtain rfl := Except.ok.inj hresult'
      cases hrel with
      | @some found _ hfound =>
        exact ⟨found, .declared hm hdeclared hseeds ((finds_iff hid).2 hresult), hfound⟩
    · exact absurd hfinds' hundiscoverable.not_finds

/-- Whatever is declared now can be looked for. -/
theorem Searchable.of_addsOptions : Searchable c fs' request := by
  intro m' hm' kind id hdeclared' hseeds'
  obtain ⟨m, hm, hresembles⟩ := hm'.exists_resembled h hfirst hsearch
  rcases hresembles.mem_declared_or hdeclared' with hdeclared | ⟨-, hundiscoverable⟩
  · obtain ⟨result, hresult⟩ := hsearch m hm kind id hdeclared ((seeds_key_iff h hfirst _).1 hseeds')
    obtain ⟨result', hresult', -⟩ := carries_moduleOf h id result hresult
    exact ⟨result', hresult'⟩
  · have hid : id.IsCanonical c := ScriptModule.isCanonical_of_mem_declared hm'.speaksForItself hdeclared'
    exact ⟨none, hundiscoverable.moduleOf_eq_none hid⟩

/-- What is missing now was missing before. -/
theorem Lacks.of_addsOptions (hid : Lacks c fs' request id) : Lacks c fs request id := by
  constructor
  · obtain ⟨m', kind, hm', hdeclared', hmandatory⟩ := hid.declared
    obtain ⟨m, hm, hresembles⟩ := hm'.exists_resembled h hfirst hsearch
    rcases hresembles.mem_declared_or hdeclared' with hdeclared | ⟨rfl, -⟩
    · exact ⟨m, kind, hm, hdeclared, hmandatory⟩
    · cases hmandatory
  · intro m hm
    obtain ⟨m', hm', hresembles⟩ := hm.exists_resembles h hfirst
    rw [← hresembles.key]
    exact hid.absent m' hm'
  · intro found hfinds
    obtain ⟨found', hfinds', -⟩ := hfinds.exists_resembles h
    exact hid.notFound found' hfinds'

end

/-! ### Closures -/

namespace Closure

theorem hasKey_empty : hasKey {} = fun _ => false := rfl

/-- If a closure is formed, then the request can be surveyed. -/
theorem exists_survey_of_extend {dir : Path} (h : outcome fs (extend c dir limit {} request) = .ok k) :
    ∃ found, outcome fs (survey c (fun _ => false) request) = .ok found := by
  cases limit with
  | zero => cases h
  | succ limit =>
    rw [outcome_extend_succ, bind_eq_ok_iff] at h
    obtain ⟨found, hfound, -⟩ := h
    rw [hasKey_empty] at hfound
    exact ⟨found, hfound⟩

variable (h : fs.AddsOptions c (Undiscoverable c fs' request) fs')
  (hextend : outcome fs (extend c request.directory limit {} request) = .ok k)

include h hextend

/-- Each module that has been found now stands beside one that was found before. -/
theorem Explored.exists_mem_of_extend (hk' : Explored c fs' request k') {e' : ModuleKey × ScriptModule}
    (he' : e' ∈ k'.modules) :
    ∃ m, (e'.1, m) ∈ k.modules ∧ m.Resembles (Undiscoverable c fs' request) e'.2 := by
  obtain ⟨hk, hpending⟩ := explored_of_extend hextend
  obtain ⟨m, hm, hresembles⟩ := (hk'.discovered e' he').exists_resembled h
    (exists_survey_of_extend hextend) (searchable_of_extend hextend)
  refine ⟨m, ?_, hresembles⟩
  rw [← hk'.consistent.key e' he', hresembles.key]
  exact hk.mem_modules ((hk.mem_iff hpending).2 hm)

/-- Not more modules are found than before. -/
theorem Explored.length_le (hk' : Explored c fs' request k') : k'.modules.length ≤ k.modules.length := by
  have hnodup : (Sorted.keys k'.modules).Nodup := hk'.consistent.modules.nodup_keys
  have hsub : Sorted.keys k'.modules ⊆ Sorted.keys k.modules := by
    intro key hkey
    obtain ⟨e', he', rfl⟩ := List.mem_map.1 hkey
    obtain ⟨m, hm, -⟩ := hk'.exists_mem_of_extend h hextend he'
    exact List.mem_map.2 ⟨_, hm, rfl⟩
  have hlength := (List.subperm_of_subset hnodup hsub).length_le
  rwa [Sorted.keys, Sorted.keys, List.length_map, List.length_map] at hlength

/-- **A closure is formed as before, of modules with the same keys, and no more ids are missing.** -/
theorem exists_extend_of_addsOptions {limit' : Nat} (hlimit : k.modules.length < limit') :
    ∃ k', outcome fs' (extend c request.directory limit' {} request) = .ok k' ∧
      Alike (Undiscoverable c fs' request) k.modules k'.modules ∧ (k.missing = [] → k'.missing = []) := by
  have hfirst := exists_survey_of_extend hextend
  have hsearch := searchable_of_extend hextend
  obtain ⟨hk, hpending⟩ := explored_of_extend hextend
  have hfirst' : ∃ found, outcome fs' (survey c (hasKey {}) request) = .ok found := by
    obtain ⟨found, hfound⟩ := hfirst
    obtain ⟨found', hfound', -⟩ := carries_survey h request found hfound
    rw [hasKey_empty]
    exact ⟨found', hfound'⟩
  obtain ⟨k', hextend'⟩ := exists_extend hfirst' (.of_addsOptions h hfirst hsearch)
    (fun _ hk' => hk'.length_le h hextend) hlimit
  obtain ⟨hk', hpending'⟩ := explored_of_extend hextend'
  refine ⟨k', hextend', ?_, ?_⟩
  · apply hk.consistent.modules.forall₂ hk'.consistent.modules
    · intro e he
      obtain ⟨m', hm', hresembles⟩ := (hk.discovered e he).exists_resembles h hfirst
      refine ⟨m', ?_, hresembles⟩
      rw [← hk.consistent.key e he, ← hresembles.key]
      exact hk'.mem_modules ((hk'.mem_iff hpending').2 hm')
    · intro e' he'
      obtain ⟨m, hm, -⟩ := hk'.exists_mem_of_extend h hextend he'
      exact ⟨m, hm⟩
  · intro hmissing
    rw [List.eq_nil_iff_forall_not_mem]
    intro entry hentry
    have hlacks := ((hk'.isMissingReport hpending').ids entry.id).1 ⟨entry, hentry, rfl⟩
    obtain ⟨entry, hentry, -⟩ :=
      ((hk.isMissingReport hpending).ids entry.id).2 (hlacks.of_addsOptions h hfirst hsearch)
    rw [hmissing] at hentry
    cases hentry

end Closure

theorem Survey.Alike.values {P : ModuleId → Prop} {modules modules' : ModuleMap}
    (h : Alike P modules modules') :
    List.Forall₂ (ScriptModule.Resembles P) (Sorted.values modules) (Sorted.values modules') := by
  rw [Sorted.values, Sorted.values, List.forall₂_map_left_iff, List.forall₂_map_right_iff]
  exact h.imp fun _ _ he => he.2

/-- **A request that has a set of modules has one with the further options as well, of modules with the same
keys.** -/
theorem ModuleSet.exists_ofRequest (h : fs.AddsOptions c (Undiscoverable c fs' request) fs') {s : ModuleSet}
    (hs : outcome fs (ofRequest c request limit) = .ok s) {limit' : Nat} (hlimit : s.size < limit') :
    ∃ ms ms', s = ofModules ms request.directory request.name? ∧
      outcome fs' (ofRequest c request limit') = .ok (ofModules ms' request.directory request.name?) ∧
      List.Forall₂ (ScriptModule.Resembles (Undiscoverable c fs' request)) ms ms' ∧
      ∀ id, Undiscoverable c fs' request id → .numbered id ∉ ms'.map ScriptModule.key := by
  obtain ⟨k, hextend, hmodules, hmissing, rfl⟩ := outcome_ofRequest_eq_ok_iff.1 hs
  have hlength : k.modules.length < limit' := by
    rwa [← List.length_map Prod.snd]
  obtain ⟨k', hextend', halike, hmissing'⟩ :=
    Closure.exists_extend_of_addsOptions h hextend hlength
  obtain ⟨hk', hpending'⟩ := Closure.explored_of_extend hextend'
  have hmodules' : k'.modules ≠ [] := by
    rw [← List.length_pos_iff, ← halike.length_eq, List.length_pos_iff]
    exact hmodules
  refine ⟨Sorted.values k.modules, Sorted.values k'.modules, rfl, ?_, halike.values, ?_⟩
  · exact outcome_ofRequest_eq_ok_iff.2 ⟨k', hextend', hmodules', hmissing' hmissing, rfl⟩
  · intro id hid hkey
    obtain ⟨m', hm', hkey⟩ := List.mem_map.1 hkey
    exact hid.key_ne ((hk'.mem_iff hpending').1 hm') hkey

end ScriptBundle

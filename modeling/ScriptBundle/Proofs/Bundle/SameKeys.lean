import ScriptBundle.Proofs.Bundle.SharedFiles
import ScriptBundle.Proofs.Sorted.Collected

/-!
# Modules that are found in different ways

Of the modules of a bundle some are selected by the request, and others are found because modules declare
their ids.  Another request may select others of the same modules, so that they are found in other surveys
and in another order.  The bundle does not show it: which file a module is read from depends on its id
alone, and everything else depends on the modules.

## Main results

* `Discovered.exists_moduleOf`: what a selection leads to is what is found for its id.
* `ModuleSet.eq_of_mem_keys`: selections that lead to the same keys lead to the same set of modules.
* `Bundle.eq_of_keys`: **selections that lead to the same keys have the same bundle.**
-/

namespace ScriptBundle

open BundleAccess Survey

variable {c : Convention} {fs : FileSystem} {dir : Path} {name name' : Option String}
  {selections selections' : List (String × Selection)} {m m' : ScriptModule} {k k' : Closure}

/-! ### What is found for an id -/

/-- What selections find themselves is found for its id. -/
theorem Survey.Seeds.exists_moduleOf (h : Seeds c fs (.modules dir name selections) m) :
    ∃ id, m.key = .numbered id ∧ moduleOf c fs dir id = .ok (some m) := by
  obtain ⟨found, hfound, hm⟩ := h
  obtain ⟨hmodules, -⟩ := modulesOf_of_survey hfound
  obtain ⟨id, hid, hasked⟩ :=
    (adds_modulesOf hmodules).exists_of_mem (readAnew_modulesOf hmodules).ascending hm
  exact ⟨id, hid, (ite_eq_some_iff.1 hasked).2⟩

/-- **What a selection leads to is what is found for its id.** -/
theorem Discovered.exists_moduleOf (hm : Discovered c fs (.modules dir name selections) m) :
    ∃ id, m.key = .numbered id ∧ moduleOf c fs dir id = .ok (some m) := by
  cases hm with
  | seed hseed => exact hseed.exists_moduleOf
  | @declared referrer _ kind id hreferrer hdeclared _ hfinds =>
    have hid : id.IsCanonical c :=
      ScriptModule.isCanonical_of_mem_declared hreferrer.speaksForItself hdeclared
    exact ⟨id, hfinds.key_eq, (finds_iff hid).1 hfinds⟩

/-- Modules with one key are one module, whichever selections lead to them. -/
theorem Discovered.eq_of_key (hm : Discovered c fs (.modules dir name selections) m)
    (hm' : Discovered c fs (.modules dir name' selections') m') (hkey : m.key = m'.key) : m = m' := by
  obtain ⟨id, hid, hmodule⟩ := hm.exists_moduleOf
  obtain ⟨id', hid', hmodule'⟩ := hm'.exists_moduleOf
  obtain rfl : id = id' := ModuleKey.numbered.inj (hid.symm.trans (hkey.trans hid'))
  rw [hmodule] at hmodule'
  exact Option.some.inj (Except.ok.inj hmodule')

/-! ### Sets and bundles -/

/-- The modules of a closure are in every closure that has their keys. -/
theorem Closure.Explored.mem_of_keys (hk : Explored c fs (.modules dir name selections) k)
    (hk' : Explored c fs (.modules dir name' selections') k')
    (hkeys : ∀ key ∈ Sorted.keys k.modules, key ∈ Sorted.keys k'.modules) {e : ModuleKey × ScriptModule}
    (he : e ∈ k.modules) : e ∈ k'.modules := by
  obtain ⟨e', he', hkey⟩ := List.mem_map.1 (hkeys e.1 (List.mem_map.2 ⟨e, he, rfl⟩))
  have hmodule : e'.2.key = e.2.key := by
    rw [hk'.consistent.key e' he', hk.consistent.key e he, hkey]
  have heq : e' = e := Prod.ext hkey ((hk'.discovered e' he').eq_of_key (hk.discovered e he) hmodule)
  rwa [← heq]

/-- Selections that lead to the same keys lead to the same set of modules. -/
theorem ModuleSet.eq_of_mem_keys {s s' : ModuleSet} {limit limit' : Nat}
    (h : outcome fs (ofRequest c (.modules dir name selections) limit) = .ok s)
    (h' : outcome fs (ofRequest c (.modules dir name selections') limit') = .ok s')
    (hkeys : ∀ key, key ∈ s.keys ↔ key ∈ s'.keys) : s = s' := by
  obtain ⟨k, hextend, rfl⟩ := exists_closure h
  obtain ⟨k', hextend', rfl⟩ := exists_closure h'
  obtain ⟨hk, -⟩ := Closure.explored_of_extend hextend
  obtain ⟨hk', -⟩ := Closure.explored_of_extend hextend'
  rw [keys_ofModules, keys_ofModules, hk.consistent.map_key_values, hk'.consistent.map_key_values] at hkeys
  have hmodules : k.modules = k'.modules := by
    apply Sorted.Ascending.ext hk.consistent.modules hk'.consistent.modules
    intro e
    constructor
    · exact hk.mem_of_keys hk' fun key => (hkeys key).1
    · exact hk'.mem_of_keys hk fun key => (hkeys key).2
  rw [hmodules]
  rfl

/-- **Selections of modules in one directory, under one name, that lead to the same keys have the same set
of modules with the same weights and the same load order, and the same bundle.** -/
theorem Bundle.eq_of_keys {r r' : Resolution}
    (h : outcome fs (Resolution.ofRequest c (.modules dir name selections)) = .ok r)
    (h' : outcome fs (Resolution.ofRequest c (.modules dir name selections')) = .ok r')
    (hkeys : ∀ key, key ∈ r.set.keys ↔ key ∈ r'.set.keys) :
    r = r' ∧ outcome fs (ofRequest c (.modules dir name selections))
      = outcome fs (ofRequest c (.modules dir name selections')) := by
  have hset := Resolution.outcome_set h
  have hset' := Resolution.outcome_set h'
  have hsame : outcome fs (Resolution.ofRequest c (.modules dir name selections))
      = outcome fs (Resolution.ofRequest c (.modules dir name selections')) := by
    rw [Resolution.ofRequest, Resolution.ofRequest, outcome_bind, outcome_bind, hset, hset',
      ModuleSet.eq_of_mem_keys hset hset' hkeys]
  constructor
  · rw [h, h'] at hsame
    exact Except.ok.inj hsame
  · rw [ofRequest, ofRequest, outcome_bind, outcome_bind, hsame]

/-- An application that needs a utility. -/
def pairedFiles : MemoryTree :=
  .ofFiles
    [(⟨"js/0_app.js"⟩, "((a,Script)=>setLaunchDependencies('1'))();".toUTF8),
     (⟨"js/1_util.js"⟩, "let util = 1;".toUTF8)]

/-- The application brings the utility with it; the wildcard selects both. -/
theorem pairedFiles_eq :
    ∃ r b, r.set.keys = [.numbered ⟨".", 0⟩, .numbered ⟨".", 1⟩] ∧
      ∀ selection ∈ [Selection.bits (.singleton 0), .every],
        outcome pairedFiles.fileSystem (Resolution.ofRequest {} (.modules ⟨"js"⟩ none [(".", selection)]))
          = .ok r ∧
        outcome pairedFiles.fileSystem (Bundle.ofRequest {} (.modules ⟨"js"⟩ none [(".", selection)]))
          = .ok b := by
  have hset : ∀ selection ∈ [Selection.bits (.singleton 0), .every],
      (outcome pairedFiles.fileSystem
        (ModuleSet.ofRequest {} (.modules ⟨"js"⟩ none [(".", selection)]))).map
        (fun s => decide ((∀ u v, s.Edge u v → u.val < v.val) ∧
          (outcome pairedFiles.fileSystem (s.loader? {})).map (Option.map Loader.path) = .ok none ∧
          s.keys = [.numbered ⟨".", 0⟩, .numbered ⟨".", 1⟩])) = .ok true := by
    refine List.forall_mem_cons.2 ⟨?_, List.forall_mem_singleton.2 ?_⟩
    · decide +kernel
    · decide +kernel
  have hbundle : ∀ selection ∈ [Selection.bits (.singleton 0), .every], ∃ b r,
      outcome pairedFiles.fileSystem (Bundle.ofRequest {} (.modules ⟨"js"⟩ none [(".", selection)]))
        = .ok b ∧
      outcome pairedFiles.fileSystem (Resolution.ofRequest {} (.modules ⟨"js"⟩ none [(".", selection)]))
        = .ok r ∧ r.set.keys = [.numbered ⟨".", 0⟩, .numbered ⟨".", 1⟩] := by
    intro selection hselection
    obtain ⟨b, r, hb, hr, -, hkeys⟩ := Bundle.exists_of_checks (hset selection hselection)
    exact ⟨b, r, hb, hr, hkeys⟩
  obtain ⟨b, r, hb, hr, hkeys⟩ := hbundle (.bits (.singleton 0)) (by simp)
  refine ⟨r, b, hkeys, fun selection hselection => ?_⟩
  obtain ⟨b', r', hb', hr', hkeys'⟩ := hbundle selection hselection
  obtain ⟨rfl, hbundles⟩ := Bundle.eq_of_keys hr hr' fun key => by rw [hkeys, hkeys']
  exact ⟨hr', hbundles.symm.trans hb⟩

end ScriptBundle

import Mathlib.Data.List.Nodup
import ScriptBundle.ModuleSet
import ScriptBundle.Proofs.Module.KeyOrder

/-!
# The links of a set of modules

In a set that is made of modules with different keys, a module is linked with those modules whose ids it
declares.

## Main definitions

* `ModuleSet.keys`: the keys of the modules of a set.

## Main results

* `foldl_addPlace_nil`: putting places behind others drops those that come again.
* `map_key_links_ofModules`: **a module is linked, in the order of its declarations, with the modules of the
  set whose ids it declares.**
-/

namespace ScriptBundle

/-- The first occurrences of the values of an injective function. -/
theorem eraseDups_map [BEq α] [LawfulBEq α] [BEq β] [LawfulBEq β] {f : α → β} (hf : ∀ a b, f a = f b → a = b)
    (as : List α) : (as.map f).eraseDups = as.eraseDups.map f := by
  -- on the length, since what comes after the first value is filtered before it goes on
  induction h : as.length using Nat.strongRecOn generalizing as with
  | ind n ih =>
    cases as with
    | nil => rfl
    | cons a as =>
      have hbeq (b : α) : (f b == f a) = (b == a) := by
        rw [Bool.eq_iff_iff, beq_iff_eq, beq_iff_eq]
        exact ⟨hf b a, congrArg f⟩
      have hfilter : (as.map f).filter (fun b => !(b == f a)) = (as.filter fun b => !(b == a)).map f := by
        rw [List.filter_map]
        simp only [Function.comp_def, hbeq]
      have hlength : (as.filter fun b => !(b == a)).length < n := by
        rw [← h]
        exact Nat.lt_succ_of_le (List.length_filter_le _ _)
      rw [List.map_cons, List.eraseDups_cons, List.eraseDups_cons, List.map_cons, hfilter,
        ih _ hlength _ rfl]

namespace ModuleSet

variable {n : Nat} {modules : Vector ScriptModule n} {id : ModuleId} {u v : Fin n}

/-- The keys of the modules of a set. -/
def keys (s : ModuleSet) : List ModuleKey := s.modules.toList.map ScriptModule.key

/-! ### Places -/

theorem foldl_addPlace (us places : List (Fin n)) :
    us.foldl addPlace places = places ++ (us.filter fun u => !places.contains u).eraseDups := by
  induction us generalizing places with
  | nil => simp
  | cons u us ih =>
    rw [List.foldl_cons, ih, addPlace]
    by_cases hu : u ∈ places
    · rw [if_pos hu, List.filter_cons_of_neg (by simpa using hu)]
    · rw [if_neg hu, List.filter_cons_of_pos (by simpa using hu), List.eraseDups_cons, List.append_assoc,
        List.filter_filter]
      have htest (v : Fin n) :
          (!(places ++ [u]).contains v) = (!(v == u) && !places.contains v) := by
        rw [Bool.eq_iff_iff]
        simp [and_comm]
      simp only [htest, List.singleton_append]

/-- Putting places behind others drops those that come again. -/
theorem foldl_addPlace_nil (us : List (Fin n)) : us.foldl addPlace [] = us.eraseDups := by
  have hfilter : (us.filter fun u => !([] : List (Fin n)).contains u) = us :=
    List.filter_eq_self.2 fun _ _ => rfl
  rw [foldl_addPlace, List.nil_append, hfilter]

theorem key_of_placeOf? (h : placeOf? modules id = some u) :
    (modules.get u).key = .numbered id := by
  obtain ⟨⟨ms⟩, rfl⟩ := modules
  rw [placeOf?, Vector.findFinIdx?_mk, List.findFinIdx?_toArray] at h
  obtain ⟨v, hv, rfl⟩ := Option.map_eq_some_iff.1 h
  obtain ⟨hkey, -⟩ := List.findFinIdx?_eq_some_iff.1 hv
  exact ModuleKey.compare_numbered.1 (Ordering.isEq_iff_eq_eq.1 hkey)

theorem placeOf?_eq_none_iff :
    placeOf? modules id = none ↔ .numbered id ∉ modules.toList.map ScriptModule.key := by
  obtain ⟨⟨ms⟩, rfl⟩ := modules
  rw [placeOf?, Vector.findFinIdx?_mk, List.findFinIdx?_toArray, Option.map_eq_none_iff,
    List.findFinIdx?_eq_none_iff, List.mem_map]
  constructor
  · rintro h ⟨m, hm, hkey⟩
    refine h m hm (Ordering.isEq_iff_eq_eq.2 ?_)
    rw [hkey]
    exact Std.ReflCmp.compare_self
  · intro h m hm hkey
    exact h ⟨m, hm, ModuleKey.compare_numbered.1 (Ordering.isEq_iff_eq_eq.1 hkey)⟩

/-- The places of ids belong to the modules with these ids. -/
theorem map_key_filterMap_placeOf? (ids : List ModuleId) :
    (ids.filterMap (placeOf? modules)).map (fun u => (modules.get u).key)
      = (ids.filter fun id => .numbered id ∈ modules.toList.map ScriptModule.key).map .numbered := by
  induction ids with
  | nil => rfl
  | cons id ids ih =>
    cases hplace : placeOf? modules id with
    | none =>
      have hnone := placeOf?_eq_none_iff.1 hplace
      rw [List.filterMap_cons_none hplace, ih, List.filter_cons_of_neg (by simpa using hnone)]
    | some u =>
      have hsome : .numbered id ∈ modules.toList.map ScriptModule.key := by
        by_contra h
        rw [placeOf?_eq_none_iff.2 h] at hplace
        cases hplace
      rw [List.filterMap_cons_some hplace, List.map_cons, ih,
        List.filter_cons_of_pos (by simpa using hsome), List.map_cons, key_of_placeOf? hplace]

/-- The places of ids are different, and belong to the modules with these ids. -/
theorem map_key_placesOf (hkeys : ∀ u v, (modules.get u).key = (modules.get v).key → u = v)
    (ids : List ModuleId) :
    (placesOf modules ids).map (fun u => (modules.get u).key)
      = (ids.filter fun id => .numbered id ∈ modules.toList.map ScriptModule.key).eraseDups.map
        .numbered := by
  have hnumbered (id id' : ModuleId) (h : ModuleKey.numbered id = .numbered id') : id = id' :=
    ModuleKey.numbered.inj h
  rw [placesOf, foldl_addPlace_nil, ← eraseDups_map hkeys, map_key_filterMap_placeOf?,
    eraseDups_map hnumbered]

/-! ### Sets that are made of modules -/

theorem get_mapLists (d : Dependencies α) (f : List α → List β) (kind : DependencyKind) :
    (d.mapLists f).get kind = f (d.get kind) := by
  cases kind <;> rfl

variable {ms : List ScriptModule} {dir : Path} {name : Option String}

theorem keys_ofModules : (ofModules ms dir name).keys = ms.map ScriptModule.key := rfl

theorem links_get_ofModules (u : Fin (ofModules ms dir name).size) :
    (ofModules ms dir name).links.get u = ((ofModules ms dir name).modules.get u).manifest.dependencies.mapLists
        (placesOf (ofModules ms dir name).modules) := by
  simp only [ofModules, Vector.get, List.getElem_toArray, List.getElem_map]
  rfl

/-- **A module is linked, in the order of its declarations, with the modules of the set whose ids it
declares.** -/
theorem map_key_links_ofModules (hms : (ms.map ScriptModule.key).Nodup)
    (u : Fin (ofModules ms dir name).size) (kind : DependencyKind) :
    (((ofModules ms dir name).links.get u).get kind).map
        (fun v => ((ofModules ms dir name).modules.get v).key)
      = ((((ofModules ms dir name).modules.get u).manifest.dependencies.get kind).filter
        fun id => .numbered id ∈ (ofModules ms dir name).keys).eraseDups.map .numbered := by
  rw [links_get_ofModules, get_mapLists]
  refine map_key_placesOf (fun u v huv => ?_) _
  have hlength : (ms.map ScriptModule.key).length = (ofModules ms dir name).size := List.length_map _
  have hget (u : Fin (ofModules ms dir name).size) :
      (ms.map ScriptModule.key).get (u.cast hlength.symm) = ((ofModules ms dir name).modules.get u).key :=
    List.getElem_map _
  rw [← hget, ← hget] at huv
  have hcast := congrArg Fin.val (List.nodup_iff_injective_get.1 hms huv)
  exact Fin.ext hcast

end ModuleSet

end ScriptBundle

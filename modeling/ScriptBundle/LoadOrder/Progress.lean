import ScriptBundle.Places
import ScriptBundle.Sorted
import ScriptBundle.Weight.Basic

/-!
# Loading one module after the other

Modules are loaded one at a time.  Two counters of each module say how many modules it still waits
for, in any way and for its compilation; loading a module counts them down at its dependents.  The
modules that wait for nothing are kept in a set in which the first one by priority is found at
once: the one that is needed most.  When there are none, one that waits is loaded all the same.

## Main definitions

* `ModuleSet.priority`: which of two modules comes first, if nothing else decides.
* `ModuleSet.byPriority`: the modules in that order.
* `ModuleSet.needs`, `ModuleSet.needsToCompile`: the modules that a module waits for.
* `ModuleSet.dependentsOf`: the modules that wait for a module.
* `LoadOrder.Plan`: what does not change while modules are loaded.
* `LoadOrder.Progress`: which modules are loaded, and what the others wait for.
* `LoadOrder.next?`, `LoadOrder.load`: the module that is loaded next, and loading it.
* `LoadOrder.run`: load the modules one after the other; nothing if a counter that is zero would
  be counted down.

## Main results

* `unloaded_of_load`: fewer modules are left when one of them is loaded.
-/

namespace ScriptBundle

/-! ### What comes first -/

namespace ModuleSet

/-- Which of two modules comes first, if nothing else decides: the one with the greater compile
weight, then the one with the greater weight, then the one with the smaller bit, then the one with
the smaller key. -/
def priority (s : ModuleSet) (w : Weights s.size) (u v : Fin s.size) : Ordering :=
  (compare (w.compileDependents.get v) (w.compileDependents.get u)).then <|
    (compare (w.dependents.get v) (w.dependents.get u)).then <|
      (compare (w.bits.get u) (w.bits.get v)).then <|
        compare (s.modules.get u).key (s.modules.get v).key

/-- The modules by priority, and by place where priority does not decide. -/
def byPriority (s : ModuleSet) (w : Weights s.size) : List (Fin s.size) :=
  (List.finRange s.size).mergeSort fun u v => (s.priority w u v).isLE

/-- The module `u` needs another module `v`. -/
def needs (s : ModuleSet) (u v : Fin s.size) : Bool := u != v && (s.edges u).any fun e => e.2 == v

/-- The module `u` needs another module `v` for its compilation. -/
def needsToCompile (s : ModuleSet) (u v : Fin s.size) : Bool :=
  u != v && (s.links.get u).compile.contains v

/-- The modules that need the module `v`, each with whether it needs it for its compilation. -/
def dependentsOf (s : ModuleSet) (v : Fin s.size) : List (Fin s.size × Bool) :=
  ((List.finRange s.size).filter fun u => s.needs u v).map fun u => (u, s.needsToCompile u v)

theorem needs_of_needsToCompile {s : ModuleSet} {u v : Fin s.size}
    (h : s.needsToCompile u v = true) : s.needs u v = true := by
  rw [needsToCompile, Bool.and_eq_true, List.contains_iff_mem] at h
  rw [needs, Bool.and_eq_true, List.any_eq_true]
  refine ⟨h.1, (.compile, v), ?_, by simp⟩
  exact List.mem_flatMap.2 ⟨.compile, by simp [DependencyKind.all], List.mem_map.2 ⟨v, h.2, rfl⟩⟩

end ModuleSet

/-! ### Loading -/

namespace LoadOrder

/-- What does not change while modules are loaded. -/
structure Plan (n : Nat) where
  /-- The modules by priority. -/
  places : List (Fin n)
  /-- The place of each module by priority. -/
  rank : Vector Nat n
  /-- The modules that need a module, each with whether it needs it for its compilation. -/
  dependents : Vector (List (Fin n × Bool)) n

/-- Which modules are loaded, and what the others wait for. -/
structure Progress (n : Nat) where
  /-- How many modules that a module needs are not loaded. -/
  pending : Vector Nat n
  /-- How many modules that a module needs for its compilation are not loaded. -/
  pendingCompile : Vector Nat n
  /-- The modules that could be loaded, by their ranks. -/
  ready : List (Nat × Fin n)
  loaded : Vector Bool n
  /-- The loaded modules. -/
  order : List (Fin n)

/-- The plan for a set of modules. -/
def plan (s : ModuleSet) (w : Weights s.size) : Plan s.size :=
  let places := s.byPriority w
  { places
    rank := .ofFn fun u => places.idxOf u
    dependents := .ofFn s.dependentsOf }

/-- Nothing is loaded yet. -/
def start (s : ModuleSet) (plan : Plan s.size) : Progress s.size :=
  let pending : Vector Nat s.size := .ofFn fun u => (List.finRange s.size).countP (s.needs u)
  { pending
    pendingCompile := .ofFn fun u => (List.finRange s.size).countP (s.needsToCompile u)
    ready := ((List.finRange s.size).filter fun u => pending[u] == 0).foldl
      (fun ready u => Sorted.insert plan.rank[u] u ready) []
    loaded := .replicate s.size false
    order := [] }

variable {n : Nat}

/-- A counter, one less if a module is due; there is nothing below zero. -/
def countDown : (due : Bool) → Nat → Option Nat
  | false, k => some k
  | true, 0 => none
  | true, k + 1 => some k

/-- A dependent of a loaded module waits for one module less.  It could be loaded itself when it
waits for nothing more. -/
def settle (plan : Plan n) (p : Progress n) (d : Fin n × Bool) : Option (Progress n) := do
  let pending ← countDown true p.pending[d.1]
  let pendingCompile ← countDown d.2 p.pendingCompile[d.1]
  return { p with
    pending := p.pending.set d.1 pending d.1.isLt
    pendingCompile := p.pendingCompile.set d.1 pendingCompile d.1.isLt
    ready :=
      if pending == 0 && !p.loaded[d.1] then Sorted.insert plan.rank[d.1] d.1 p.ready
      else p.ready }

/-- The module is loaded, its dependents have not noticed yet. -/
def mark (p : Progress n) (v : Fin n) : Progress n :=
  { p with loaded := p.loaded.set v true v.isLt, order := p.order ++ [v] }

/-- Load a module. -/
def load (plan : Plan n) (p : Progress n) (v : Fin n) : Option (Progress n) :=
  plan.dependents[v].foldlM (settle plan) (mark p v)

/-- The module that is loaded although it waits: the first one that waits for nothing for its
compilation, otherwise the first one. -/
def forced? (plan : Plan n) (p : Progress n) : Option (Fin n) :=
  (plan.places.find? fun u => !p.loaded[u] && p.pendingCompile[u] == 0).or
    (plan.places.find? fun u => !p.loaded[u])

/-- The module that is loaded next; it is no longer among those that could be loaded. -/
def next? (plan : Plan n) (p : Progress n) : Option (Fin n × Progress n) :=
  match p.ready with
  | (_, v) :: ready => some (v, { p with ready })
  | [] => (forced? plan p).map fun v => (v, p)

/-! ### Fewer modules are left -/

/-- How many modules are not loaded. -/
def unloaded (p : Progress n) : Nat := (List.finRange n).countP fun u => !p.loaded[u]

theorem loaded_of_forced? {plan : Plan n} {p : Progress n} {v : Fin n}
    (h : forced? plan p = some v) : p.loaded[v] = false := by
  rcases Option.or_eq_some_iff.1 h with h | ⟨-, h⟩
  · have := List.find?_some h
    simp_all
  · simpa using List.find?_some h

theorem next?_keeps {plan : Plan n} {p q : Progress n} {v : Fin n}
    (h : next? plan p = some (v, q)) : q.loaded = p.loaded ∧ q.order = p.order := by
  unfold next? at h
  split at h
  · obtain ⟨-, rfl⟩ := Prod.mk.inj (Option.some.inj h)
    exact ⟨rfl, rfl⟩
  · obtain ⟨u, -, hq⟩ := Option.map_eq_some_iff.1 h
    rw [← (Prod.mk.inj hq).2]
    exact ⟨rfl, rfl⟩

/-- Only what could be loaded is perhaps loaded already. -/
theorem length_ready_of_next? {plan : Plan n} {p q : Progress n} {v : Fin n}
    (h : next? plan p = some (v, q)) (hv : q.loaded[v] = true) :
    q.ready.length < p.ready.length := by
  unfold next? at h
  split at h
  · next hr =>
    obtain ⟨-, rfl⟩ := Prod.mk.inj (Option.some.inj h)
    simp [hr]
  · obtain ⟨u, hu, hq⟩ := Option.map_eq_some_iff.1 h
    obtain ⟨rfl, rfl⟩ := Prod.mk.inj hq
    simp [loaded_of_forced? hu] at hv

theorem settle_keeps {plan : Plan n} {p q : Progress n} {d : Fin n × Bool}
    (h : settle plan p d = some q) : q.loaded = p.loaded ∧ q.order = p.order := by
  obtain ⟨pending, -, h⟩ := Option.bind_eq_some_iff.1 h
  obtain ⟨pendingCompile, -, h⟩ := Option.bind_eq_some_iff.1 h
  rw [← Option.some.inj h]
  exact ⟨rfl, rfl⟩

theorem foldlM_settle_keeps {plan : Plan n} {ds : List (Fin n × Bool)} {p q : Progress n}
    (h : ds.foldlM (settle plan) p = some q) : q.loaded = p.loaded ∧ q.order = p.order := by
  induction ds generalizing p with
  | nil =>
    rw [← Option.some.inj h]
    exact ⟨rfl, rfl⟩
  | cons d ds ih =>
    rw [List.foldlM_cons] at h
    obtain ⟨p', hp', h⟩ := Option.bind_eq_some_iff.1 h
    have hd := settle_keeps hp'
    have hds := ih h
    exact ⟨hds.1.trans hd.1, hds.2.trans hd.2⟩

/-- A module that is loaded stands behind the others. -/
theorem order_of_load {plan : Plan n} {p q : Progress n} {v : Fin n}
    (h : load plan p v = some q) : q.order = p.order ++ [v] := (foldlM_settle_keeps h).2

theorem unloaded_of_load {plan : Plan n} {p q : Progress n} {v : Fin n}
    (hv : p.loaded[v] = false) (h : load plan p v = some q) : unloaded q < unloaded p := by
  have hq : q.loaded = p.loaded.set v true := (foldlM_settle_keeps h).1
  refine countP_lt (a := v) (fun u _ hu => ?_) (List.mem_finRange v) (by simp [hq])
    (by simpa using hv)
  by_cases hvu : v = u
  · simp [hq, hvu] at hu
  · have : v.1 ≠ u.1 := fun he => hvu (Fin.ext he)
    simpa [hq, Vector.getElem_set, this] using hu

/-- Load the modules one after the other. -/
def run (plan : Plan n) (p : Progress n) : Option (Progress n) :=
  if p.order.length < n then
    match hnext : next? plan p with
    | none => some p
    | some (v, q) =>
      if hv : q.loaded[v] = true then run plan q
      else
        match hload : load plan q v with
        | none => none
        | some r => run plan r
  else some p
termination_by (unloaded p, p.ready.length)
decreasing_by
  · have hq : unloaded q = unloaded p := by rw [unloaded, unloaded, (next?_keeps hnext).1]
    rw [hq]
    exact .right _ (length_ready_of_next? hnext hv)
  · have hq : unloaded q = unloaded p := by rw [unloaded, unloaded, (next?_keeps hnext).1]
    exact .left _ _ (hq ▸ unloaded_of_load (by simpa using hv) hload)

end LoadOrder

end ScriptBundle

import ScriptBundle.Proofs.Module.Numbered
import ScriptBundle.Weight.Walk

/-!
# Walks of bounded length

A walk ends because there are finitely many bits, which is no way to compute it.  With a bound on
its depth it is computed step by step.

## Main definitions

* `walkWithin`: the marks at the end of a walk, if it does not go deeper than a bound.
* `cycleWithin`: the cycle with which a walk ends, if it does not go deeper than a bound.
* `ModuleSet.weighWithin`: the weights, if no walk goes deeper than a bound.
* `ModuleSet.revealWithin`: the cycle that is revealed, if no walk goes deeper than a bound.

## Main results

* `walk_of_walkWithin`, `walk_of_cycleWithin`: a bounded walk that ends with marks or with a cycle is the
  walk.
* `ModuleSet.weigh_of_weighWithin`: **weights that are found within a bound are the weights.**
* `ModuleSet.weigh_of_revealWithin`: **a cycle that is revealed within a bound is reported.**
-/

namespace ScriptBundle

variable {n : ℕ}

/-- The marks at the end of a walk.  There are none if the walk goes deeper than a bound, or if it
does not end with marks. -/
def walkWithin (edges : Fin n → List (DependencyKind × Fin n)) {bits : Vector BitSet n} :
    ℕ → List (Fin n) → Fin n → List (DependencyKind × Fin n) → Marks bits → Option (Marks bits)
  | 0, _, _, _, _ => none
  | _ + 1, _, _, [], m => some m
  | depth + 1, path, u, (kind, v) :: todo, m =>
    if (m.compileOutgoing u kind).intersects bits[v] then none
    else if (m.visit u kind v).dependents[v] = m.dependents[v] ∧ !(m.outgoing u).isEmpty then
      walkWithin edges depth path u todo (m.visit u kind v)
    else if (m.visit u kind v).dependents[v] = m.dependents[v] ∧ path.contains v then none
    else
      (walkWithin edges depth (v :: path) v (edges v) (m.visit u kind v)).bind
        (walkWithin edges depth path u todo)

section Entered

variable {bits : Vector BitSet n} {path : List (Fin n)} {entered : List (Fin n × Marks bits)}
  {m m' : Marks bits} {u v : Fin n} {kind : DependencyKind}

theorem mem_cons_of_entered (h : ∀ e ∈ entered, e.1 ∈ path) : ∀ e ∈ (v, m') :: entered, e.1 ∈ v :: path := by
  intro e he
  rcases List.mem_cons.1 he with rfl | he
  · exact List.mem_cons_self
  · exact List.mem_cons_of_mem v (h e he)

theorem mem_singleton_of_entered (u : Fin n) (m : Marks bits) : ∀ e ∈ [(u, m)], e.1 ∈ [u] := by
  intro e he
  rw [List.mem_singleton.1 he]
  exact List.mem_singleton_self u

/-- A module that is not on the path has not been entered. -/
theorem not_entered (h : ∀ e ∈ entered, e.1 ∈ path)
    (hend : ¬ ((m.visit u kind v).dependents[v] = m.dependents[v] ∧ path.contains v)) :
    ¬ (m.visit u kind v = m ∧ entered.contains (v, m)) := by
  rintro ⟨hsame, hmem⟩
  refine hend ⟨by rw [hsame], ?_⟩
  exact List.contains_iff_mem.2 (h (v, m) (List.contains_iff_mem.1 hmem))

end Entered

/-- A bounded walk that ends with marks is the walk. -/
theorem walk_of_walkWithin {edges : Fin n → List (DependencyKind × Fin n)}
    {bits : Vector BitSet n} {depth : ℕ} {path : List (Fin n)} {u : Fin n}
    {todo : List (DependencyKind × Fin n)} {m m' : Marks bits} {entered : List (Fin n × Marks bits)}
    (hentered : ∀ e ∈ entered, e.1 ∈ path) (h : walkWithin edges depth path u todo m = some m') :
    ∃ hmore, walk edges path entered u todo m = .ok ⟨m', hmore⟩ := by
  induction depth generalizing path entered u todo m m' with
  | zero => cases h
  | succ depth ih =>
    cases todo with
    | nil =>
      obtain rfl := Option.some.inj h
      exact ⟨.inl rfl, walk_nil⟩
    | cons e todo =>
      obtain ⟨kind, v⟩ := e
      rw [walkWithin] at h
      split at h
      · cases h
      · next hdet =>
        split at h
        · next hskip =>
          obtain ⟨hmore, hw⟩ := ih hentered h
          rw [walk_skip hdet hskip, hw]
          exact ⟨_, rfl⟩
        · next hskip =>
          split at h
          · cases h
          · next hend =>
            -- the module is entered, and both parts of the walk are less deep
            obtain ⟨m₁, hinner, hrest⟩ := Option.bind_eq_some_iff.1 h
            obtain ⟨hmore, hw⟩ := ih (mem_cons_of_entered hentered) hinner
            obtain ⟨hmore', hw'⟩ := ih hentered hrest
            rw [walk_enter hdet hskip (not_entered hentered hend), hw]
            dsimp only [Except.bind]
            rw [hw']
            exact ⟨_, rfl⟩

/-- The cycle with which a walk ends.  There is none if the walk goes deeper than a bound, or if it ends in
another way. -/
def cycleWithin (edges : Fin n → List (DependencyKind × Fin n)) {bits : Vector BitSet n} :
    ℕ → List (Fin n) → Fin n → List (DependencyKind × Fin n) → Marks bits → Option (List (Fin n))
  | 0, _, _, _, _ => none
  | _ + 1, _, _, [], _ => none
  | depth + 1, path, u, (kind, v) :: todo, m =>
    if (m.compileOutgoing u kind).intersects bits[v] then
      some (cycleThrough bits path v (m.compileOutgoing u kind))
    else if (m.visit u kind v).dependents[v] = m.dependents[v] ∧ !(m.outgoing u).isEmpty then
      cycleWithin edges depth path u todo (m.visit u kind v)
    else if (m.visit u kind v).dependents[v] = m.dependents[v] ∧ path.contains v then none
    else
      (cycleWithin edges depth (v :: path) v (edges v) (m.visit u kind v)).or
        ((walkWithin edges depth (v :: path) v (edges v) (m.visit u kind v)).bind
          (cycleWithin edges depth path u todo))

/-- A bounded walk that ends with a cycle is the walk. -/
theorem walk_of_cycleWithin {edges : Fin n → List (DependencyKind × Fin n)} {bits : Vector BitSet n}
    {depth : ℕ} {path : List (Fin n)} {u : Fin n} {todo : List (DependencyKind × Fin n)} {m : Marks bits}
    {cycle : List (Fin n)} {entered : List (Fin n × Marks bits)} (hentered : ∀ e ∈ entered, e.1 ∈ path)
    (h : cycleWithin edges depth path u todo m = some cycle) :
    walk edges path entered u todo m = .error (.error cycle) := by
  induction depth generalizing path entered u todo m with
  | zero => cases h
  | succ depth ih =>
    cases todo with
    | nil => cases h
    | cons e todo =>
      obtain ⟨kind, v⟩ := e
      rw [cycleWithin] at h
      split at h
      · next hdet =>
        obtain rfl := Option.some.inj h
        exact walk_of_intersects hdet
      · next hdet =>
        split at h
        · next hskip =>
          rw [walk_skip hdet hskip, ih hentered h]
          rfl
        · next hskip =>
          split at h
          · cases h
          · next hend =>
            rw [walk_enter hdet hskip (not_entered hentered hend)]
            -- the cycle is revealed behind `v`, or when the walk has come back
            rcases Option.or_eq_some_iff.1 h with hinner | ⟨-, hrest⟩
            · rw [ih (mem_cons_of_entered hentered) hinner]
              rfl
            · obtain ⟨m₁, hwalk, hrest⟩ := Option.bind_eq_some_iff.1 hrest
              obtain ⟨hmore, hw⟩ := walk_of_walkWithin (mem_cons_of_entered hentered) hwalk
              rw [hw]
              dsimp only [Except.bind]
              rw [ih hentered hrest]
              rfl

namespace ModuleSet

/-- The weights of the modules with some bits, if no walk goes deeper than a bound. -/
def weighWithin (s : ModuleSet) (depth : ℕ) (bits : Vector BitSet s.size) :
    Option (Weights s.size) :=
  ((List.finRange s.size).foldlM
    (fun m u => walkWithin s.edges depth [u] u (s.edges u) m) (Marks.none bits)).map
      fun m => ⟨bits, m.dependents, m.compileDependents⟩

theorem walkAll_of_walkWithin {s : ModuleSet} {depth : ℕ} {us : List (Fin s.size)}
    {m m' : Marks s.bits}
    (h : us.foldlM (fun m u => walkWithin s.edges depth [u] u (s.edges u) m) m = some m') :
    us.foldlM (walkFrom s.edges) m = .ok m' := by
  induction us generalizing m with
  | nil =>
    obtain rfl := Option.some.inj h
    rfl
  | cons u us ih =>
    obtain ⟨m₁, hu, hus⟩ := Option.bind_eq_some_iff.1 h
    obtain ⟨hmore, hw⟩ := walk_of_walkWithin (mem_singleton_of_entered u m) hu
    rw [List.foldlM_cons, walkFrom, hw]
    exact ih hus

/-- **Weights that are found within a bound are the weights.** -/
theorem weigh_of_weighWithin {s : ModuleSet} {depth : ℕ} {w : Weights s.size}
    (h : s.weighWithin depth s.bits = some w) : s.weigh = .ok w := by
  obtain ⟨m, hm, rfl⟩ := Option.map_eq_some_iff.1 h
  have hall : walkAll s.edges s.bits = .ok m := walkAll_of_walkWithin hm
  rw [weigh, hall]

theorem weigh_numbered {links : Vector (Dependencies (Fin n)) n} {depth : ℕ}
    {w : Weights (numbered links).size}
    (h : (numbered links).weighWithin depth (.ofFn fun u => .singleton u) = some w) :
    (numbered links).weigh = .ok w := by
  rw [← bits_numbered links] at h
  exact weigh_of_weighWithin h

/-- The cycle that is revealed in a set of modules with some bits by walks from the modules `us`, if no walk
goes deeper than a bound. -/
def revealWithin (s : ModuleSet) (depth : ℕ) {bits : Vector BitSet s.size} :
    List (Fin s.size) → Marks bits → Option (List (Fin s.size))
  | [], _ => none
  | u :: us, m =>
    (cycleWithin s.edges depth [u] u (s.edges u) m).or
      ((walkWithin s.edges depth [u] u (s.edges u) m).bind (s.revealWithin depth us))

theorem foldlM_of_revealWithin {s : ModuleSet} {depth : ℕ} {us : List (Fin s.size)} {m : Marks s.bits}
    {cycle : List (Fin s.size)} (h : s.revealWithin depth us m = some cycle) :
    us.foldlM (walkFrom s.edges) m = .error (.error cycle) := by
  induction us generalizing m with
  | nil => cases h
  | cons u us ih =>
    rw [List.foldlM_cons, walkFrom]
    rcases Option.or_eq_some_iff.1 h with hinner | ⟨-, hrest⟩
    · rw [walk_of_cycleWithin (mem_singleton_of_entered u m) hinner]
      rfl
    · obtain ⟨m₁, hwalk, hrest⟩ := Option.bind_eq_some_iff.1 hrest
      obtain ⟨hmore, hw⟩ := walk_of_walkWithin (mem_singleton_of_entered u m) hwalk
      rw [hw]
      exact ih hrest

/-- **A cycle that is revealed within a bound is reported.**  The bits of self-registering modules of one
category follow their places. -/
theorem weigh_of_revealWithin {s : ModuleSet} {depth : ℕ} {cycle : List (Fin s.size)}
    (hself : ∀ u, (s.modules.get u).isSelfRegistering = true)
    (hcategory : ∀ u v, (s.modules.get u).category = (s.modules.get v).category)
    (h : s.revealWithin depth (List.finRange s.size) (.none (.ofFn fun u => .singleton u)) = some cycle) :
    s.weigh = .error (.error (.compileCycle (cycle.map fun u => (s.modules.get u).key))) := by
  rw [← bits_of_self hself hcategory] at h
  have hall : walkAll s.edges s.bits = .error (.error cycle) := foldlM_of_revealWithin h
  rw [weigh, hall]

end ModuleSet

end ScriptBundle

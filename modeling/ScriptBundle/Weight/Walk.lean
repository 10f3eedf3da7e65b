import ScriptBundle.Fault
import ScriptBundle.Weight.Marks

/-!
# The walk that finds weights

Bits are carried from each module to what it needs.  When they bring something new to a module,
what it needs in turn is visited again.  Where nothing is passed on, a module is entered in any case.
A bit that comes back to its own module along compile dependencies reveals a cycle.

Long chains of dependencies would use up the call stack, so the walk can keep a stack of its own: the
modules on its path, each with the place of the dependency that comes next.  It then goes on step by
step and knows nothing beforehand of whether it will come to an end.

## Main definitions

* `walk`: carry bits along the dependencies of a module.
* `cycleThrough`: the modules that are named for a cycle that was revealed.
* `ModuleSet.weigh`: the weights of the modules of a set.
* `StackWalk`: the marks so far, the stack, and the modules from which the walk is still to start.
* `StackWalk.next`, `StackWalk.run`: one step, and the result if the walk ends within a number of steps.
* `ModuleSet.stackWalk`: the walk through all modules of a set.

## Main results

* `walk_of_intersects`, `walk_skip`, `walk_enter`: what the walk does at one dependency.
-/

namespace ScriptBundle

variable {n : Nat}

/-- How many modules have not been entered with the marks `m`. -/
def notEntered {bits : Vector BitSet n} (entered : List (Fin n × Marks bits)) (m : Marks bits) : Nat :=
  (List.finRange n).countP fun u => !entered.contains (u, m)

theorem notEntered_cons_lt {bits : Vector BitSet n} {u : Fin n} {m : Marks bits}
    {entered : List (Fin n × Marks bits)} (h : (u, m) ∉ entered) :
    notEntered ((u, m) :: entered) m < notEntered entered m :=
  countP_lt (a := u) (fun v _ hv => by simp_all) (List.mem_finRange u) (by simp) (by simp [h])

/-- The modules that are named when the bits `incoming` come back to `v` and reveal a cycle.  If `v` is
on the path, given from its end to its start, they are the part of the path from the first place
of `v` on; otherwise they are the modules whose bits have come.  In the end stands `v`. -/
def cycleThrough (bits : Vector BitSet n) (path : List (Fin n)) (v : Fin n) (incoming : BitSet) :
    List (Fin n) :=
  let onPath := path.reverse.dropWhile (· != v)
  let members :=
    if onPath.isEmpty then
      incoming.toList.filterMap fun i => (List.finRange n).find? fun u => (bits.get u).contains i
    else onPath
  members ++ [v]

/-- The marks `m`, or marks that have fewer missing. -/
abbrev MoreMarks {bits : Vector BitSet n} (m : Marks bits) : Type :=
  { m' : Marks bits // m' = m ∨ m'.missing < m.missing }

theorem more_trans {bits : Vector BitSet n} {m m' m'' : Marks bits}
    (h' : m'' = m' ∨ m''.missing < m'.missing) (h : m' = m ∨ m'.missing < m.missing) :
    m'' = m ∨ m''.missing < m.missing := by
  rcases h with rfl | hlt
  · exact h'
  · rcases h' with rfl | hlt'
    · exact .inr hlt
    · exact .inr (Nat.lt_trans hlt' hlt)

/-- A walk ends with marks, with the modules named for a cycle, or not at all. -/
abbrev WalkResult {bits : Vector BitSet n} (m : Marks bits) : Type :=
  Except (Failure (List (Fin n))) (MoreMarks m)

/-- Carry the bits of the module `u` along its dependencies `todo`.  The path leads from `u` back to
where the walk started, and its modules have been entered with the given marks.  A module cannot be
entered once more with the same marks, because the walk would go round for ever. -/
def walk (edges : Fin n → List (DependencyKind × Fin n)) {bits : Vector BitSet n}
    (path : List (Fin n)) (entered : List (Fin n × Marks bits)) (u : Fin n)
    (todo : List (DependencyKind × Fin n)) (m : Marks bits) : WalkResult m :=
  match todo with
  | [] => .ok ⟨m, .inl rfl⟩
  | (kind, v) :: todo =>
    have hmore := m.visit_eq_or_missing_lt u kind v
    if (m.compileOutgoing u kind).intersects bits[v] then
      .error (.error (cycleThrough bits path v (m.compileOutgoing u kind)))
    else if (m.visit u kind v).dependents[v] = m.dependents[v] ∧ !(m.outgoing u).isEmpty then
      match walk edges path entered u todo (m.visit u kind v) with
      | .error failure => .error failure
      | .ok ⟨m', h⟩ => .ok ⟨m', more_trans h hmore⟩
    else if hp : m.visit u kind v = m ∧ entered.contains (v, m) then
      .error (.abandoned .endlessWalk)
    else
      match walk edges (v :: path) ((v, m.visit u kind v) :: entered) v (edges v) (m.visit u kind v) with
      | .error failure => .error failure
      | .ok ⟨m₁, h₁⟩ =>
        match walk edges path entered u todo m₁ with
        | .error failure => .error failure
        | .ok ⟨m₂, h₂⟩ => .ok ⟨m₂, more_trans h₂ (more_trans h₁ hmore)⟩
termination_by (m.missing, notEntered entered m, todo.length)
decreasing_by
  · rcases hmore with h | h
    · rw [h]
      exact .right _ (.right _ (by simp))
    · exact .left _ _ h
  · rcases hmore with h | h
    · have hv : (v, m) ∉ entered := by simpa [h] using hp
      rw [h]
      exact .right _ (.left _ _ (notEntered_cons_lt hv))
    · exact .left _ _ h
  · rcases more_trans h₁ hmore with h | h
    · rw [h]
      exact .right _ (.right _ (by simp))
    · exact .left _ _ h

/-! ### The walk along one dependency -/

section Dependency

variable {edges : Fin n → List (DependencyKind × Fin n)} {bits : Vector BitSet n}
  {path : List (Fin n)} {entered : List (Fin n × Marks bits)} {u v : Fin n} {kind : DependencyKind}
  {todo : List (DependencyKind × Fin n)} {m : Marks bits}

theorem walk_nil : walk edges path entered u [] m = .ok ⟨m, .inl rfl⟩ := by rw [walk]

/-- The walk ends when a bit comes back to its module. -/
theorem walk_of_intersects (hdet : (m.compileOutgoing u kind).intersects bits[v] = true) :
    walk edges path entered u ((kind, v) :: todo) m
      = .error (.error (cycleThrough bits path v (m.compileOutgoing u kind))) := by
  rw [walk, if_pos hdet]

/-- The walk goes on with the next dependency when there is nothing new. -/
theorem walk_skip (hdet : ¬ (m.compileOutgoing u kind).intersects bits[v] = true)
    (hskip : (m.visit u kind v).dependents[v] = m.dependents[v] ∧ !(m.outgoing u).isEmpty) :
    walk edges path entered u ((kind, v) :: todo) m
      = (walk edges path entered u todo (m.visit u kind v)).map fun m' =>
        ⟨m'.1, more_trans m'.2 (m.visit_eq_or_missing_lt u kind v)⟩ := by
  rw [walk, if_neg hdet, if_pos hskip]
  cases walk edges path entered u todo (m.visit u kind v) <;> rfl

/-- Otherwise the module is entered, and then the walk goes on. -/
theorem walk_enter (hdet : ¬ (m.compileOutgoing u kind).intersects bits[v] = true)
    (hskip : ¬ ((m.visit u kind v).dependents[v] = m.dependents[v] ∧ !(m.outgoing u).isEmpty))
    (hend : ¬ (m.visit u kind v = m ∧ entered.contains (v, m))) :
    walk edges path entered u ((kind, v) :: todo) m
      = (walk edges (v :: path) ((v, m.visit u kind v) :: entered) v (edges v)
          (m.visit u kind v)).bind fun m₁ =>
        (walk edges path entered u todo m₁.1).map fun m₂ =>
          ⟨m₂.1, more_trans m₂.2 (more_trans m₁.2 (m.visit_eq_or_missing_lt u kind v))⟩ := by
  rw [walk, if_neg hdet, if_neg hskip, dif_neg hend]
  cases walk edges (v :: path) ((v, m.visit u kind v) :: entered) v (edges v) (m.visit u kind v) with
  | error failure => rfl
  | ok m₁ =>
    dsimp only [Except.bind]
    cases walk edges path entered u todo m₁.1 <;> rfl

end Dependency

/-! ### The walk through all modules -/

/-- Start a walk at a module. -/
def walkFrom (edges : Fin n → List (DependencyKind × Fin n)) {bits : Vector BitSet n}
    (m : Marks bits) (u : Fin n) : Except (Failure (List (Fin n))) (Marks bits) :=
  (walk edges [u] [(u, m)] u (edges u) m).map Subtype.val

/-- The marks after a walk from each module. -/
def walkAll (edges : Fin n → List (DependencyKind × Fin n)) (bits : Vector BitSet n) :
    Except (Failure (List (Fin n))) (Marks bits) :=
  (List.finRange n).foldlM (walkFrom edges) (.none bits)

/-- The weights of the modules of a set. -/
def ModuleSet.weigh (s : ModuleSet) : Except (Failure BundleFault) (Weights s.size) :=
  match walkAll s.edges s.bits with
  | .ok m => .ok ⟨s.bits, m.dependents, m.compileDependents⟩
  | .error (.error cycle) =>
    .error (.error (.compileCycle (cycle.map fun u => (s.modules.get u).key)))
  | .error (.abandoned reason) => .error (.abandoned reason)

/-! ### The walk with a stack of its own -/

/-- A walk with a stack of its own. -/
structure StackWalk (bits : Vector BitSet n) where
  marks : Marks bits
  /-- The modules on the path, the last one first, each with the place of its next dependency. -/
  stack : List (Fin n × Nat)
  /-- The modules from which the walk is still to start. -/
  roots : List (Fin n)

namespace StackWalk

variable {bits : Vector BitSet n}

/-- A walk ends with marks or with the modules of a cycle. -/
abbrev Result (bits : Vector BitSet n) : Type := Except (List (Fin n)) (Marks bits)

/-- One step.  A module from which the walk starts is entered without any bits.  One that a dependency
leads to is entered if the bits bring something new to it, or if there are none. -/
def next (edges : Fin n → List (DependencyKind × Fin n)) (w : StackWalk bits) :
    StackWalk bits ⊕ Result bits :=
  match w.stack with
  | [] =>
    match w.roots with
    | [] => .inr (.ok w.marks)
    | root :: roots => .inl { w with stack := [(root, 0)], roots }
  | (u, i) :: below =>
    match (edges u)[i]? with
    | none => .inl { w with stack := below }
    | some (kind, v) =>
      let stack := (u, i + 1) :: below
      let incoming := w.marks.compileOutgoing u kind
      if incoming.intersects bits[v] then
        .inr (.error (cycleThrough bits (stack.map Prod.fst) v incoming))
      else
        let marks := w.marks.visit u kind v
        let changed := decide (marks.dependents[v] ≠ w.marks.dependents[v])
        if (w.marks.outgoing u).isEmpty || changed then
          .inl { w with marks, stack := (v, 0) :: stack }
        else .inl { w with marks, stack }

/-- The result of a walk, if it ends within a number of steps. -/
def run (edges : Fin n → List (DependencyKind × Fin n)) : Nat → StackWalk bits → Option (Result bits)
  | 0, _ => none
  | steps + 1, w =>
    match w.next edges with
    | .inl w => run edges steps w
    | .inr result => some result

end StackWalk

/-- The walk through all modules of a set. -/
def ModuleSet.stackWalk (s : ModuleSet) : StackWalk s.bits := ⟨.none s.bits, [], List.finRange s.size⟩

end ScriptBundle

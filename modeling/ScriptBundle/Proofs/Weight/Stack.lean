import ScriptBundle.Proofs.Weight.CompileCycle
import ScriptBundle.Proofs.Weight.RealCycles
import ScriptBundle.Weight.Walk

/-!
# The walk with a stack of its own

The walk with a stack of its own goes the way of the recursive one: while a module is on the stack, what is
above it is what the recursive walk does for its dependencies.  So it comes to the same end.  Where the
recursive walk gives up, a module is entered again with the marks with which it was entered, and the walk with
a stack goes round for ever.

## Main definitions

* `StackWalk.LeadsIn`: after some steps the top of the stack has become another one, whatever lies below.
* `StackWalk.Ends`: a walk comes to an end after some steps.
* `StackWalk.Forever`: a walk never comes to an end, whatever lies below on its stack.
* `ModuleSet.EndsWithWeights`: the walk through all modules ends, and its result is that of `weigh`.

## Main results

* `exists_leadsIn_of_walk`, `ends_of_walk`, `forever_or_climbs_of_walk`: what the walk with a stack does where
  the recursive one ends with marks, with a cycle, or not at all.
* `endsWithWeights_or_forever`: the recursive walk tells whether the walk with a stack ends, and how.
* `endsWithWeights_of_cyclesRegister`: **the walk ends if every cycle of dependencies has a
  self-registering module on it; in the set of a request it has.**
-/

namespace ScriptBundle

namespace StackWalk

variable {n : ℕ} {bits : Vector BitSet n} {edges : Fin n → List (DependencyKind × Fin n)}
  {w : StackWalk bits} {result : Result bits} {m m' m'' : Marks bits} {path : List (Fin n)}
  {entered : List (Fin n × Marks bits)} {u v : Fin n} {i steps steps' : ℕ} {kind : DependencyKind}
  {todo : List (DependencyKind × Fin n)} {stack stack' stack'' below : List (Fin n × ℕ)}
  {roots : List (Fin n)}

/-! ### Some steps -/

/-- After some steps the top of the stack has become another one, whatever lies below. -/
def LeadsIn (edges : Fin n → List (DependencyKind × Fin n)) (steps : ℕ) (m : Marks bits)
    (stack : List (Fin n × ℕ)) (m' : Marks bits) (stack' : List (Fin n × ℕ)) : Prop :=
  ∀ below roots more,
    run edges (more + steps) ⟨m, stack ++ below, roots⟩ = run edges more ⟨m', stack' ++ below, roots⟩

/-- A walk comes to an end after some steps. -/
def Ends (edges : Fin n → List (DependencyKind × Fin n)) (w : StackWalk bits) (result : Result bits) :
    Prop := ∃ steps, run edges steps w = some result

/-- A walk never comes to an end, whatever lies below on its stack. -/
def Forever (edges : Fin n → List (DependencyKind × Fin n)) (m : Marks bits)
    (stack : List (Fin n × ℕ)) : Prop :=
  ∀ below roots steps, run edges steps ⟨m, stack ++ below, roots⟩ = none

theorem LeadsIn.trans (h : LeadsIn edges steps m stack m' stack')
    (h' : LeadsIn edges steps' m' stack' m'' stack'') :
    LeadsIn edges (steps' + steps) m stack m'' stack'' := by
  intro below roots more
  rw [← Nat.add_assoc, h, h']

/-- What lies below may be taken as a part of the top. -/
theorem LeadsIn.above (h : LeadsIn edges steps m stack m' stack') (between : List (Fin n × ℕ)) :
    LeadsIn edges steps m (stack ++ between) m' (stack' ++ between) := by
  intro below roots more
  rw [List.append_assoc, List.append_assoc, h]

theorem LeadsIn.ends (h : LeadsIn edges steps m stack m' stack')
    (h' : Ends edges ⟨m', stack' ++ below, roots⟩ result) :
    Ends edges ⟨m, stack ++ below, roots⟩ result := by
  obtain ⟨more, hmore⟩ := h'
  exact ⟨more + steps, by rw [h, hmore]⟩

/-- A walk that has ended stays so. -/
theorem run_add (h : run edges steps w = some result) (more : ℕ) :
    run edges (steps + more) w = some result := by
  induction steps generalizing w with
  | zero => cases h
  | succ steps ih =>
    rw [Nat.succ_add, run]
    rw [run] at h
    cases hnext : w.next edges with
    | inl w' =>
      rw [hnext] at h
      exact ih h
    | inr result' =>
      rw [hnext] at h
      exact h

theorem LeadsIn.run_eq_none (h : LeadsIn edges steps m stack m' stack')
    (h' : ∀ more, run edges more ⟨m', stack' ++ below, roots⟩ = none) (more : ℕ) :
    run edges more ⟨m, stack ++ below, roots⟩ = none := by
  rw [Option.eq_none_iff_forall_ne_some]
  intro result hresult
  have hlater := run_add hresult steps
  rw [h, h'] at hlater
  cases hlater

theorem LeadsIn.forever (h : LeadsIn edges steps m stack m' stack') (h' : Forever edges m' stack') :
    Forever edges m stack := fun below roots => h.run_eq_none (h' below roots)

theorem Forever.above (h : Forever edges m stack) (between : List (Fin n × ℕ)) :
    Forever edges m (stack ++ between) := by
  intro below roots steps
  rw [List.append_assoc, h]

/-- A walk that comes back to what it was, only with more below on the stack, never ends. -/
theorem LeadsIn.forever_of_loop {between : List (Fin n × ℕ)}
    (h : LeadsIn edges (steps + 1) m stack m (stack ++ between)) : Forever edges m stack := by
  intro below roots more
  -- the induction is on the number of steps: each round takes some of them
  induction more using Nat.strong_induction_on generalizing below with
  | _ more ih =>
    by_cases hround : more < steps + 1
    · rw [Option.eq_none_iff_forall_ne_some]
      intro result hresult
      obtain ⟨rest, hrest⟩ : ∃ rest, more + rest = 0 + (steps + 1) := ⟨steps + 1 - more, by omega⟩
      have hlater := run_add hresult rest
      rw [hrest, h] at hlater
      cases hlater
    · obtain ⟨rest, rfl⟩ : ∃ rest, more = rest + (steps + 1) := ⟨more - (steps + 1), by omega⟩
      rw [h, List.append_assoc]
      exact ih rest (by omega) (between ++ below)

/-! ### One step -/

theorem leadsIn_of_next (h : ∀ below roots, next edges ⟨m, stack ++ below, roots⟩
    = .inl ⟨m', stack' ++ below, roots⟩) : LeadsIn edges 1 m stack m' stack' := by
  intro below roots more
  rw [run, h]

/-- A module whose dependencies are done is left. -/
theorem leadsIn_leave (h : (edges u).drop i = []) : LeadsIn edges 1 m [(u, i)] m [] := by
  have hnone : (edges u)[i]? = none := List.getElem?_eq_none (List.drop_eq_nil_iff.1 h)
  refine leadsIn_of_next fun below roots => ?_
  simp only [next, List.singleton_append, hnone, List.nil_append]

section Dependency

variable (hnext : (edges u).drop i = (kind, v) :: todo)

include hnext

theorem getElem?_of_drop : (edges u)[i]? = some (kind, v) ∧ (edges u).drop (i + 1) = todo := by
  constructor
  · rw [← List.head?_drop, hnext, List.head?_cons]
  · rw [← List.drop_drop, hnext, List.drop_one, List.tail_cons]

/-- The walk ends when a bit comes back to its module. -/
theorem ends_of_intersects (hdet : (m.compileOutgoing u kind).intersects bits[v] = true) :
    Ends edges ⟨m, (u, i) :: below, roots⟩
      (.error (cycleThrough bits (u :: below.map Prod.fst) v (m.compileOutgoing u kind))) := by
  refine ⟨1, ?_⟩
  simp only [run, next, (getElem?_of_drop hnext).1, hdet, if_true, List.map_cons]

/-- The walk goes on with the next dependency when there is nothing new. -/
theorem leadsIn_skip (hdet : ¬ (m.compileOutgoing u kind).intersects bits[v] = true)
    (hskip : (m.visit u kind v).dependents[v] = m.dependents[v] ∧ !(m.outgoing u).isEmpty) :
    LeadsIn edges 1 m [(u, i)] (m.visit u kind v) [(u, i + 1)] := by
  have hstay : ((m.outgoing u).isEmpty ||
      decide ((m.visit u kind v).dependents[v] ≠ m.dependents[v])) = false := by
    simpa [and_comm] using hskip
  refine leadsIn_of_next fun below roots => ?_
  simp only [next, List.singleton_append, (getElem?_of_drop hnext).1]
  rw [if_neg hdet, hstay, if_neg Bool.false_ne_true]

/-- Otherwise the module is entered. -/
theorem leadsIn_enter (hdet : ¬ (m.compileOutgoing u kind).intersects bits[v] = true)
    (hskip : ¬ ((m.visit u kind v).dependents[v] = m.dependents[v] ∧ !(m.outgoing u).isEmpty)) :
    LeadsIn edges 1 m [(u, i)] (m.visit u kind v) [(v, 0), (u, i + 1)] := by
  have henter : ((m.outgoing u).isEmpty ||
      decide ((m.visit u kind v).dependents[v] ≠ m.dependents[v])) = true := by
    rw [← Bool.not_eq_false]
    intro hstay
    apply hskip
    simpa [and_comm] using hstay
  refine leadsIn_of_next fun below roots => ?_
  simp only [next, List.singleton_append, (getElem?_of_drop hnext).1]
  rw [if_neg hdet, henter, if_pos rfl]
  rfl

end Dependency

/-! ### The walk from one module -/

/-- If the recursive walk ends with marks, the walk with a stack leaves the module with these marks. -/
theorem exists_leadsIn_of_walk (htodo : (edges u).drop i = todo) {more : MoreMarks m}
    (h : walk edges path entered u todo m = .ok more) :
    ∃ steps, LeadsIn edges steps m [(u, i)] more.1 [] := by
  -- the induction follows the walk; of its cases those are left that end with marks
  fun_induction walk edges path entered u todo m generalizing i with
  | case1 path entered u m =>
    cases h
    exact ⟨1, leadsIn_leave htodo⟩
  | case4 path entered u m kind v todo _ hdet hskip m₁ h₁ hrest ih =>
    cases h
    obtain ⟨steps, hsteps⟩ := ih (getElem?_of_drop htodo).2 hrest
    exact ⟨_, (leadsIn_skip htodo hdet hskip).trans hsteps⟩
  | case8 path entered u m kind v todo _ hdet hskip hend m₁ h₁ hinner m₂ h₂ hrest ihinner ihrest =>
    cases h
    obtain ⟨there, hthere⟩ := ihinner List.drop_zero hinner
    obtain ⟨back, hback⟩ := ihrest (getElem?_of_drop htodo).2 hrest
    exact ⟨_, ((leadsIn_enter htodo hdet hskip).trans (hthere.above [(u, i + 1)])).trans hback⟩
  | _ => cases h

/-- If the recursive walk ends with a cycle, the walk with a stack ends with it. -/
theorem ends_of_walk (htodo : (edges u).drop i = todo) (hpath : path = u :: below.map Prod.fst)
    {cycle : List (Fin n)} (h : walk edges path entered u todo m = .error (.error cycle)) :
    Ends edges ⟨m, (u, i) :: below, roots⟩ (.error cycle) := by
  fun_induction walk edges path entered u todo m generalizing i below with
  | case2 path entered u m kind v todo _ hdet =>
    cases h
    rw [hpath]
    exact ends_of_intersects htodo hdet
  | case3 path entered u m kind v todo _ hdet hskip failure hrest ih =>
    cases h
    exact (leadsIn_skip htodo hdet hskip).ends (ih (getElem?_of_drop htodo).2 hpath hrest)
  | case6 path entered u m kind v todo _ hdet hskip hend failure hinner ih =>
    cases h
    have hstack : v :: path = v :: ((u, i + 1) :: below).map Prod.fst := congrArg (v :: ·) hpath
    exact (leadsIn_enter htodo hdet hskip).ends (ih List.drop_zero hstack hinner)
  | case7 path entered u m kind v todo _ hdet hskip hend m₁ h₁ hinner failure hrest ihinner ihrest =>
    cases h
    obtain ⟨there, hthere⟩ := exists_leadsIn_of_walk List.drop_zero hinner
    have hback := ihrest (getElem?_of_drop htodo).2 hpath hrest
    exact ((leadsIn_enter htodo hdet hskip).trans (hthere.above [(u, i + 1)])).ends hback
  | _ => cases h

/-- The walk comes to a module that was entered with the marks that there are then. -/
def Climbs (edges : Fin n → List (DependencyKind × Fin n)) (entered : List (Fin n × Marks bits))
    (m : Marks bits) (stack : List (Fin n × ℕ)) : Prop :=
  ∃ e ∈ entered, ∃ between steps, LeadsIn edges (steps + 1) m stack e.2 ((e.1, 0) :: between)

theorem LeadsIn.climbs (h : LeadsIn edges steps m stack m' stack') (h' : Climbs edges entered m' stack') :
    Climbs edges entered m stack := by
  obtain ⟨e, he, between, steps', hsteps'⟩ := h'
  refine ⟨e, he, between, steps' + steps, ?_⟩
  rw [Nat.add_right_comm]
  exact h.trans hsteps'

/-- If the recursive walk gives up, the walk with a stack goes round for ever, or it comes to a module that
was entered with the marks that there are then. -/
theorem forever_or_climbs_of_walk (htodo : (edges u).drop i = todo) {reason : Abandonment}
    (h : walk edges path entered u todo m = .error (.abandoned reason)) :
    Forever edges m [(u, i)] ∨ Climbs edges entered m [(u, i)] := by
  fun_induction walk edges path entered u todo m generalizing i with
  | case3 path entered u m kind v todo _ hdet hskip failure hrest ih =>
    cases h
    have hone := leadsIn_skip htodo hdet hskip
    exact (ih (getElem?_of_drop htodo).2 hrest).imp hone.forever hone.climbs
  | case5 path entered u m kind v todo _ hdet hskip hend =>
    have hone := leadsIn_enter htodo hdet hskip
    rw [hend.1] at hone
    exact .inr ⟨(v, m), List.contains_iff_mem.1 hend.2, [(u, i + 1)], 0, hone⟩
  | case6 path entered u m kind v todo _ hdet hskip hend failure hinner ih =>
    cases h
    have hone := leadsIn_enter htodo hdet hskip
    rcases ih List.drop_zero hinner with hforever | ⟨e, he, between, steps, hsteps⟩
    · exact .inl (hone.forever (hforever.above [(u, i + 1)]))
    · rcases List.mem_cons.1 he with rfl | he
      · -- the walk has come back to `v`, which it has just entered
        exact .inl (hone.forever (Forever.above (LeadsIn.forever_of_loop hsteps) [(u, i + 1)]))
      · exact .inr (hone.climbs ⟨e, he, between ++ [(u, i + 1)], steps, hsteps.above [(u, i + 1)]⟩)
  | case7 path entered u m kind v todo _ hdet hskip hend m₁ h₁ hinner failure hrest ihinner ihrest =>
    cases h
    obtain ⟨there, hthere⟩ := exists_leadsIn_of_walk List.drop_zero hinner
    have hback := (leadsIn_enter htodo hdet hskip).trans (hthere.above [(u, i + 1)])
    exact (ihrest (getElem?_of_drop htodo).2 hrest).imp hback.forever hback.climbs
  | _ => cases h

/-! ### The walk from all modules -/

theorem run_start (us : List (Fin n)) (steps : ℕ) :
    run edges (steps + 1) ⟨m, [], u :: us⟩ = run edges steps ⟨m, [(u, 0)] ++ [], us⟩ := rfl

/-- Where the recursive walk from some modules ends, the walk with a stack ends with the same result. -/
theorem ends_of_foldlM {us : List (Fin n)}
    (h : us.foldlM (walkFrom edges) m = result.mapError .error) : Ends edges ⟨m, [], us⟩ result := by
  induction us generalizing m with
  | nil =>
    cases result with
    | ok m' =>
      cases h
      exact ⟨1, rfl⟩
    | error cycle => cases h
  | cons u us ih =>
    have hstart (h : Ends edges ⟨m, [(u, 0)] ++ [], us⟩ result) : Ends edges ⟨m, [], u :: us⟩ result := by
      obtain ⟨steps, hsteps⟩ := h
      exact ⟨steps + 1, (run_start us steps).trans hsteps⟩
    apply hstart
    rw [List.foldlM_cons, walkFrom] at h
    cases hwalk : walk edges [u] [(u, m)] u (edges u) m with
    | ok more =>
      rw [hwalk] at h
      obtain ⟨steps, hsteps⟩ := exists_leadsIn_of_walk List.drop_zero hwalk
      exact hsteps.ends (ih h)
    | error failure =>
      rw [hwalk] at h
      cases result with
      | ok m' => cases h
      | error cycle =>
        cases h
        exact ends_of_walk List.drop_zero rfl hwalk

/-- Where the recursive walk from some modules gives up, the walk with a stack never ends. -/
theorem run_eq_none_of_foldlM {us : List (Fin n)} {reason : Abandonment}
    (h : us.foldlM (walkFrom edges) m = .error (.abandoned reason)) (steps : ℕ) :
    run edges steps ⟨m, [], us⟩ = none := by
  induction us generalizing m steps with
  | nil => cases h
  | cons u us ih =>
    cases steps with
    | zero => rfl
    | succ steps =>
      rw [run_start]
      rw [List.foldlM_cons, walkFrom] at h
      cases hwalk : walk edges [u] [(u, m)] u (edges u) m with
      | ok more =>
        rw [hwalk] at h
        obtain ⟨there, hthere⟩ := exists_leadsIn_of_walk List.drop_zero hwalk
        exact hthere.run_eq_none (ih h) steps
      | error failure =>
        rw [hwalk] at h
        cases h
        rcases forever_or_climbs_of_walk List.drop_zero hwalk with hforever | ⟨e, he, between, there, hloop⟩
        · exact hforever [] us steps
        · rw [List.mem_singleton.1 he] at hloop
          exact LeadsIn.forever_of_loop hloop [] us steps

end StackWalk

namespace ModuleSet

open Relation

variable {s : ModuleSet}

/-- The walk through all modules ends after some steps, with marks or with a cycle, and the weights are
found from these marks or not at all because of this cycle. -/
def EndsWithWeights (s : ModuleSet) : Prop :=
  ∃ result, StackWalk.Ends s.edges s.stackWalk result ∧
    s.weigh = match result with
      | .ok m => .ok ⟨s.bits, m.dependents, m.compileDependents⟩
      | .error cycle => .error (.error (.compileCycle (cycle.map fun u => (s.modules.get u).key)))

theorem SelfRegisteringSources.cyclesRegister (hs : s.SelfRegisteringSources) : s.CyclesRegister := by
  intro u hcycle
  obtain ⟨v, ⟨⟨kind, hedge⟩, hsilent⟩, -⟩ := TransGen.head'_iff.1 hcycle
  rw [hs u (List.ne_nil_of_mem hedge)] at hsilent
  cases hsilent

/-- **The recursive walk tells whether the walk with a stack ends, and how: where it gives up, the walk with
a stack goes round for ever.** -/
theorem endsWithWeights_or_forever (s : ModuleSet) :
    s.EndsWithWeights ∨
      (∃ reason, s.weigh = .error (.abandoned reason)) ∧
        ∀ steps, StackWalk.run s.edges steps s.stackWalk = none := by
  have hends (result : StackWalk.Result s.bits) (h : walkAll s.edges s.bits = result.mapError .error) :
      StackWalk.Ends s.edges s.stackWalk result := StackWalk.ends_of_foldlM h
  cases hwalk : walkAll s.edges s.bits with
  | ok m => exact .inl ⟨.ok m, hends (.ok m) hwalk, by rw [weigh, hwalk]⟩
  | error failure =>
    cases failure with
    | error cycle => exact .inl ⟨.error cycle, hends (.error cycle) hwalk, by rw [weigh, hwalk]⟩
    | abandoned reason =>
      exact .inr ⟨⟨reason, by rw [weigh, hwalk]⟩, StackWalk.run_eq_none_of_foldlM hwalk⟩

theorem EndsWithWeights.of_cyclesRegister (hs : s.CyclesRegister) : s.EndsWithWeights := by
  rcases s.endsWithWeights_or_forever with hends | ⟨⟨reason, hreason⟩, -⟩
  · exact hends
  · rcases s.weigh_cases with ⟨w, hw⟩ | ⟨cycle, hcycle, -⟩ | ⟨_, -, x, hx⟩
    · exact nomatch hreason.symm.trans hw
    · exact nomatch hreason.symm.trans hcycle
    · exact absurd hx (hs x)

/-- **The walk through all modules ends if every cycle of dependencies has a self-registering module on
it.  In the set of a request only self-registering modules depend on others, so that it ends there.** -/
theorem endsWithWeights_of_cyclesRegister :
    (∀ s : ModuleSet, s.CyclesRegister → s.EndsWithWeights) ∧
      ∀ (c : Convention) (fs : FileSystem) (request : Request) (limit : ℕ) (s : ModuleSet),
        BundleAccess.outcome fs (ofRequest c request limit) = .ok s →
          s.SelfRegisteringSources ∧ s.EndsWithWeights := by
  refine ⟨fun s hs => .of_cyclesRegister hs, fun c fs request limit s h => ?_⟩
  have hs := selfRegisteringSources_ofRequest h
  exact ⟨hs, .of_cyclesRegister hs.cyclesRegister⟩

theorem plainRing_utilityFiles_endsWithWeights :
    TransGen plainRing.Edge 0 0 ∧ plainRing.CyclesRegister ∧ plainRing.EndsWithWeights ∧
      ∃ s, BundleAccess.outcome utilityFiles.fileSystem (ofRequest {} (.file ⟨"js/0_app.js"⟩)) = .ok s ∧
        s.SelfRegisteringSources ∧ s.EndsWithWeights := by
  have hsome : (BundleAccess.outcome utilityFiles.fileSystem
      (ofRequest {} (.file ⟨"js/0_app.js"⟩))).toOption.isSome = true := by
    decide +kernel
  obtain ⟨hring, hrequest⟩ := endsWithWeights_of_cyclesRegister
  obtain ⟨s, h⟩ := exists_of_isSome hsome
  exact ⟨plainRing_transGen, plainRing_cyclesRegister, hring plainRing plainRing_cyclesRegister, s, h,
    hrequest _ _ _ _ s h⟩

end ModuleSet

end ScriptBundle

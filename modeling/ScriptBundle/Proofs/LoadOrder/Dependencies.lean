import Mathlib.Data.List.Basic
import ScriptBundle.Proofs.LoadOrder.Greedy
import ScriptBundle.Proofs.Module.Numbered
import ScriptBundle.Proofs.Module.Reach
import ScriptBundle.Proofs.Weight.Evaluation
import ScriptBundle.Proofs.Weight.Walk

/-!
# What a module needs is loaded before it

Where dependencies form a cycle, modules are loaded before others that they need.  The compile
dependencies of a module are not among these, unless they form a cycle of their own.

When every module that is left waits, the first one that waits for nothing for its compilation is
loaded.  It need not lie on the cycle that has to be opened: it may wait for that cycle only.  This
is when a module is loaded before one that it needs, although the two share no cycle.

## Main definitions

* `ModuleSet.LoadedBefore`: one module stands before another one in the load order.
* `ModuleSet.Waits`: a module waits for another one.

## Main results

* `exists_chosen`: every module is the greedy choice at its turn.
* `exists_compileReadyAfter`: some module that is left waits for nothing for its compilation.
* `compile_dependency_loadedBefore`: **every compile dependency of a module is loaded before it,
  if the compile dependencies form no cycle.**
* `exists_compileReady_on_cycle`: where no module is ready, some module on a cycle waits for nothing
  for its compilation.
* `compare_dependents_eq_lt`: a self-registering module has a smaller weight than what it needs.
* `dependency_loadedBefore`: **what a module needs is loaded before it, unless it leads to a cycle
  with a module that the module precedes by priority.**
-/

namespace ScriptBundle.ModuleSet

open Relation

/-- The module `u` stands before the module `v` in the load order. -/
def LoadedBefore (s : ModuleSet) (w : Weights s.size) (u v : Fin s.size) : Prop :=
  (s.loadOrder w).idxOf u < (s.loadOrder w).idxOf v

instance (s : ModuleSet) (w : Weights s.size) (u v : Fin s.size) :
    Decidable (s.LoadedBefore w u v) := inferInstanceAs (Decidable (_ < _))

variable {s : ModuleSet} {w : Weights s.size} {u v x : Fin s.size}

/-! ### The turn of a module -/

theorem mem_loadOrder (s : ModuleSet) (w : Weights s.size) (u : Fin s.size) :
    u ∈ s.loadOrder w := (s.perm_loadOrder w).mem_iff.2 (List.mem_finRange u)

theorem loadedBefore_total (h : u ≠ v) : s.LoadedBefore w u v ∨ s.LoadedBefore w v u := by
  have hne : (s.loadOrder w).idxOf u ≠ (s.loadOrder w).idxOf v :=
    fun he => h ((List.idxOf_inj (s.mem_loadOrder w u)).1 he)
  exact Nat.lt_or_gt_of_ne hne

/-- **Every module is the greedy choice when the modules that stand before it are loaded.** -/
theorem exists_chosen (s : ModuleSet) (w : Weights s.size) (u : Fin s.size) :
    ∃ before, s.Chosen w before u ∧ ∀ v, v ∈ before ↔ s.LoadedBefore w v u := by
  have hlt := List.idxOf_lt_length_of_mem (s.mem_loadOrder w u)
  refine ⟨(s.loadOrder w).take ((s.loadOrder w).idxOf u), ?_, fun v => ?_⟩
  · have := s.greedyOrder_loadOrder w _ hlt
    rwa [List.getElem_idxOf] at this
  · exact List.mem_take_iff_idxOf_lt (s.mem_loadOrder w v)

/-! ### Nothing more to wait for -/

/-- If compile dependencies form no cycle, then of the modules that are left some module waits for
nothing for its compilation. -/
theorem exists_compileReadyAfter
    (hacyclic : ∀ x, ¬ TransGen (fun x y => s.needsToCompile x y = true) x x)
    {before : List (Fin s.size)} (hu : u ∉ before) : ∃ v, s.CompileReadyAfter before v := by
  obtain ⟨v, hv, hend⟩ := exists_sink (P := (· ∉ before)) (fun x _ => hacyclic x) hu
  refine ⟨v, hv, fun x hx => ?_⟩
  by_contra hx'
  exact hend x hx hx'

/-- **Every compile dependency of a module is loaded before it, if the compile dependencies on other
modules form no cycle.** -/
theorem compile_dependency_loadedBefore (s : ModuleSet) (w : Weights s.size)
    (hacyclic : ∀ x, ¬ TransGen (fun x y => s.needsToCompile x y = true) x x)
    (u v : Fin s.size) (huv : s.needsToCompile u v = true) : s.LoadedBefore w v u := by
  obtain ⟨before, hchosen, hbefore⟩ := s.exists_chosen w u
  rw [← hbefore]
  cases hchosen with
  | ready h => exact h.1.2 v (needs_of_needsToCompile huv)
  | compileReady _ h => exact h.1.2 v huv
  | left _ hc h =>
    obtain ⟨x, hx⟩ := exists_compileReadyAfter hacyclic h.1
    exact absurd hx (hc x)

/-- Two modules on a cycle: 0 needs 1 for its compilation, 1 needs 0 at launch. -/
abbrev launchCycle : ModuleSet := numbered (n := 2) #v[⟨[1], [], []⟩, ⟨[], [0], []⟩]

theorem launchCycle_loadedBefore :
    (∀ x, ¬ TransGen (fun x y => launchCycle.needsToCompile x y = true) x x) ∧
      launchCycle.LoadedBefore (.none _) 1 0 := by
  have hstep : ∀ x y, launchCycle.needsToCompile x y = true → 2 - y.val < 2 - x.val := by decide
  have hacyclic := not_transGen_of_rank (fun x : Fin launchCycle.size => 2 - x.val) hstep
  exact ⟨hacyclic, compile_dependency_loadedBefore launchCycle (.none _) hacyclic 0 1 (by decide)⟩
/-! ### A cycle is opened where nothing has to be compiled first -/

/-- The module `x` needs the module `y`, which is not loaded when some modules are. -/
def Waits (s : ModuleSet) (before : List (Fin s.size)) (x y : Fin s.size) : Prop :=
  s.needs x y = true ∧ y ∉ before

variable {before : List (Fin s.size)}

theorem edge_of_needs (h : s.needs u v = true) : s.Edge u v := (needs_iff.1 h).2

/-- What others wait for is not loaded. -/
theorem notMem_of_waits (hu : u ∉ before) (h : ReflTransGen (s.Waits before) u v) :
    v ∉ before := by
  cases h with
  | refl => exact hu
  | tail _ h => exact h.2

theorem reflTransGen_edge_of_waits (h : ReflTransGen (s.Waits before) u v) :
    ReflTransGen s.Edge u v := ReflTransGen.mono (fun _ _ h => edge_of_needs h.1) _ _ h

theorem transGen_needs_of_waits (h : TransGen (s.Waits before) u v) :
    TransGen (fun x y => s.needs x y = true) u v := TransGen.mono (fun _ _ h => h.1) _ _ h

/-- A module that is neither loaded nor ready waits for another one. -/
theorem exists_waits (hu : u ∉ before) (hready : ¬ s.ReadyAfter before u) :
    ∃ v, s.Waits before u v := by
  by_contra hnone
  refine hready ⟨hu, ?_⟩
  intro v hv
  by_contra hv'
  exact hnone ⟨v, hv, hv'⟩

/-- Where no module is ready, every module that is left waits for modules that wait for each other in
a circle. -/
theorem exists_circle (hv : v ∉ before) (hready : ∀ x, ¬ s.ReadyAfter before x) :
    ∃ b, ReflTransGen (s.Waits before) v b ∧
      ∀ x, ReflTransGen (s.Waits before) b x → TransGen (s.Waits before) x x := by
  obtain ⟨b, hvb, hback⟩ := exists_bottom (s.Waits before) v
  refine ⟨b, hvb, ?_⟩
  intro x hbx
  obtain ⟨y, hxy⟩ := exists_waits (notMem_of_waits hv (hvb.trans hbx)) (hready x)
  exact TransGen.head' hxy ((hback y (hbx.tail hxy)).trans hbx)

/-- Where no module is ready, some module on a cycle waits for nothing for its compilation. -/
theorem exists_compileReady_on_cycle (hv : v ∉ before) (hready : ∀ x, ¬ s.ReadyAfter before x)
    (hcompile : ∀ x, ReflTransGen s.Edge v x →
      ¬ TransGen (fun x y => s.needsToCompile x y = true) x x) :
    ∃ x, s.CompileReadyAfter before x ∧ ReflTransGen s.Edge v x ∧
      TransGen (fun x y => s.needs x y = true) x x := by
  obtain ⟨b, hvb, hcircle⟩ := exists_circle hv hready
  have hedge {x : Fin s.size} (hbx : ReflTransGen (s.Waits before) b x) :
      ReflTransGen s.Edge v x := reflTransGen_edge_of_waits (hvb.trans hbx)
  -- among the modules on these circles the compile dependencies come to an end
  obtain ⟨x, hbx, hend⟩ := exists_sink (P := ReflTransGen (s.Waits before) b)
    (fun x hx => hcompile x (hedge hx)) .refl
  have hx : x ∉ before := notMem_of_waits hv (hvb.trans hbx)
  refine ⟨x, ⟨hx, ?_⟩, hedge hbx, transGen_needs_of_waits (hcircle x hbx)⟩
  intro y hxy
  by_contra hy
  exact hend y hxy (hbx.tail ⟨needs_of_needsToCompile hxy, hy⟩)

/-! ### Weights along a path that does not lead back -/

/-- A module that does not lead back has all bits of what leads to it. -/
theorem dependents_subset (h : s.weigh = .ok w) (hux : TransGen s.Edge u x)
    (hback : ¬ TransGen s.Edge x u) {i : ℕ} (hi : w.dependents[u].contains i = true) :
    w.dependents[x].contains i = true := by
  obtain ⟨-, y, hy, hyu⟩ := (contains_dependents_iff h).1 hi
  refine (contains_dependents_iff h).2 ⟨?_, y, hy, hyu.trans hux⟩
  cases hx : s.bits[x].contains i
  · rfl
  · obtain rfl := s.ownBits.distinct y x i hy hx
    exact absurd hyu hback

/-- **A self-registering module has a smaller weight than a module that it needs, unless that one leads
back.** -/
theorem compare_dependents_eq_lt (h : s.weigh = .ok w) (hux : TransGen s.Edge u x)
    (hback : ¬ TransGen s.Edge x u) (hu : (s.modules.get u).isSelfRegistering = true) :
    compare (w.dependents.get u) (w.dependents.get x) = .lt := by
  obtain ⟨i, hi⟩ := exists_bit_iff.2 hu
  refine BitSet.compare_eq_lt_of_ssubset (fun j hj => dependents_subset h hux hback hj) ⟨i, ?_, ?_⟩
  · refine (contains_dependents_iff h).2 ⟨?_, u, hi, hux⟩
    cases hx : s.bits[x].contains i
    · rfl
    · obtain rfl := s.ownBits.distinct u x i hi hx
      exact absurd hux hback
  · cases hd : (w.dependents.get u).contains i
    · rfl
    · have := ((contains_dependents_iff h).1 hd).1
      rw [hi] at this
      cases this

/-- Where weights go the other way, a module precedes another one by its compile weight. -/
theorem Precedes.compare_compileDependents (h : s.Precedes w u x)
    (hlt : compare (w.dependents.get u) (w.dependents.get x) = .lt) :
    compare (w.compileDependents.get x) (w.compileDependents.get u) = .lt := by
  have hgt : compare (w.dependents.get x) (w.dependents.get u) = .gt := by
    rw [Std.OrientedOrd.eq_swap, hlt]
    rfl
  cases hc : compare (w.compileDependents.get x) (w.compileDependents.get u) with
  | lt => rfl
  | eq =>
    have hp : s.priority w u x = .gt := by rw [priority, hc, hgt]; rfl
    rcases h with h | ⟨h, -⟩ <;> rw [hp] at h <;> cases h
  | gt =>
    have hp : s.priority w u x = .gt := by rw [priority, hc]; rfl
    rcases h with h | ⟨h, -⟩ <;> rw [hp] at h <;> cases h

/-! ### What a module needs -/

/-- **What a module needs and does not lead back to it is loaded before it, unless it leads to a cycle
with a module that the module precedes by priority.**  A compile dependency is loaded before it in
any case.  If the module registers itself, it must have the greater compile weight. -/
theorem dependency_loadedBefore (s : ModuleSet) (w : Weights s.size) (h : s.weigh = .ok w)
    (u v : Fin s.size) (kind : DependencyKind) (huv : (kind, v) ∈ s.edges u) (hne : v ≠ u)
    (hback : ¬ TransGen s.Edge v u)
    (hcompile : ∀ x, ReflTransGen s.Edge v x →
      ¬ TransGen (fun x y => s.needsToCompile x y = true) x x) :
    s.LoadedBefore w v u ∨ kind ≠ .compile ∧ ∃ x, ReflTransGen s.Edge v x ∧
      TransGen (fun x y => s.needs x y = true) x x ∧ s.LoadedBefore w u x ∧ s.Precedes w u x ∧
        ((s.modules.get u).isSelfRegistering = true →
          compare (w.compileDependents.get x) (w.compileDependents.get u) = .lt) := by
  have hneeds : s.needs u v = true := needs_iff.2 ⟨hne.symm, kind, huv⟩
  obtain ⟨before, hchosen, hbefore⟩ := s.exists_chosen w u
  by_cases hv : v ∈ before
  · exact .inl ((hbefore v).1 hv)
  refine .inr ?_
  cases hchosen with
  | ready hu => exact absurd (hu.1.2 v hneeds) hv
  | compileReady hr hu =>
    obtain ⟨x, hx, hvx, hcycle⟩ := exists_compileReady_on_cycle hv hr hcompile
    have hux : TransGen s.Edge u x := TransGen.head' (edge_of_needs hneeds) hvx
    have hxu : ¬ TransGen s.Edge x u := fun hxu => hback (TransGen.trans_right hvx hxu)
    have hne' : x ≠ u := by
      rintro rfl
      exact hxu hux
    have hprec : s.Precedes w u x := hu.2 x hx hne'
    refine ⟨?_, x, hvx, hcycle, ?_, hprec, fun hself => ?_⟩
    · rintro rfl
      exact hv (hu.1.2 v (needsToCompile_iff.2 ⟨hne.symm, huv⟩))
    · exact (loadedBefore_total hne').resolve_left fun hlt => hx.1 ((hbefore x).2 hlt)
    · exact hprec.compare_compileDependents (compare_dependents_eq_lt h hux hxu hself)
  | left hr hc hu =>
    obtain ⟨x, hx, -⟩ := exists_compileReady_on_cycle hv hr hcompile
    exact absurd hx (hc x)

/-- Four modules: 0 needs 1 for its compilation, 1 needs 2 at launch, and 2 and 3 need each other at
launch. -/
abbrev detour : ModuleSet :=
  numbered (n := 4) #v[⟨[1], [], []⟩, ⟨[], [2], []⟩, ⟨[], [3], []⟩, ⟨[], [2], []⟩]

theorem isSome_weighWithin_detour :
    (detour.weighWithin 20 (.ofFn fun u => .singleton u)).isSome = true := by decide +kernel

/-- The weights of these modules. -/
def detourWeights : Weights detour.size := Option.get _ isSome_weighWithin_detour

theorem weigh_detour : detour.weigh = .ok detourWeights :=
  weigh_numbered (Option.some_get isSome_weighWithin_detour).symm

/-- No path leads from the cycle of 2 and 3 back to 1. -/
theorem not_transGen_detour : ¬ TransGen detour.Edge 2 1 := by
  have hstep : ∀ x y, x.val = 2 ∨ x.val = 3 → detour.Edge x y → y.val = 2 ∨ y.val = 3 := by decide
  intro h
  exact absurd (mem_of_transGen hstep h (.inl rfl)) (by decide)

theorem acyclic_detour (x : Fin detour.size) :
    ¬ TransGen (fun x y => detour.needsToCompile x y = true) x x := by
  have hstep : ∀ x y, detour.needsToCompile x y = true → 4 - y.val < 4 - x.val := by decide
  exact not_transGen_of_rank (fun x : Fin detour.size => 4 - x.val) hstep x

theorem detour_dependency : detour.weigh = .ok detourWeights ∧
    (detour.LoadedBefore detourWeights 2 1 ∨ DependencyKind.launch ≠ .compile ∧
      ∃ x, ReflTransGen detour.Edge 2 x ∧ TransGen (fun x y => detour.needs x y = true) x x ∧
        detour.LoadedBefore detourWeights 1 x ∧ detour.Precedes detourWeights 1 x ∧
          ((detour.modules.get 1).isSelfRegistering = true →
            compare (detourWeights.compileDependents.get x)
              (detourWeights.compileDependents.get 1) = .lt)) :=
  ⟨weigh_detour, dependency_loadedBefore detour detourWeights weigh_detour 1 2 .launch (by decide)
    (by decide) not_transGen_detour fun x _ => acyclic_detour x⟩

/-- **The module 1 is loaded before 2, which it needs, although no path leads from 2 back to 1.** -/
theorem detour_loadedBefore : ∃ w, detour.weigh = .ok w ∧ (.launch, 2) ∈ detour.edges 1 ∧
    ¬ TransGen detour.Edge 2 1 ∧ detour.LoadedBefore w 1 2 := by
  have horder : detour.loadOrder detourWeights = [1, 0, 2, 3] :=
    loadOrder_eq_of_greedyOrder (by decide) (by decide +kernel)
  refine ⟨detourWeights, weigh_detour, by decide, not_transGen_detour, ?_⟩
  rw [LoadedBefore, horder]
  decide

end ScriptBundle.ModuleSet

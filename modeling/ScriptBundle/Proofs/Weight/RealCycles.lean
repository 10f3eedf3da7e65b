import ScriptBundle.Proofs.Module.Numbered
import ScriptBundle.Proofs.Weight.Walk

/-!
# Reported cycles are real

A cycle is reported when a bit comes back to its module.  Every bit that has come to a module along
compile dependencies has set out from a module that leads there along compile dependencies, whatever
other cycles there are.  So without a cycle of compile dependencies none is reported.  The walk ends
unless it goes round a cycle of modules that have no bits.

## Main definitions

* `ModuleSet.Grounded`: marks that were carried along dependencies of the set.
* `ModuleSet.SilentEdge`: a dependency of a module that does not register itself.
* `ModuleSet.CyclesRegister`: every cycle has a self-registering module on it.
* `ModuleSet.HasReason`: a failure is due to a cycle of the set.
* `selfNeed`, `plainRing`: a set with a cycle that is reported, and one with cycles that are not.

## Main results

* `compileCycle_of_walk`: the module at which a reported cycle ends is on a cycle.
* `silentCycle_of_walk`: a walk that does not end goes round a cycle of modules without bits.
* `exists_weigh`: weights are found if there are no such cycles.
* `weigh_of_acyclic`: **weights are found if compile dependencies form no cycle, and a reported cycle
  ends at a module that is on a cycle of compile dependencies.**
-/

namespace ScriptBundle.ModuleSet

open Relation

variable {s : ModuleSet} {m : Marks s.bits} {path : List (Fin s.size)}
  {entered : List (Fin s.size × Marks s.bits)} {u v w : Fin s.size}
  {kind : DependencyKind} {todo : List (DependencyKind × Fin s.size)}

/-! ### Cycles that are reported -/

/-- The marks were carried along dependencies of the set. -/
def Grounded (s : ModuleSet) (m : Marks s.bits) : Prop :=
  ∃ ps, s.Follows m ps ∧ ∀ p ∈ ps, s.HasPassage p

theorem grounded_none (s : ModuleSet) : s.Grounded (.none s.bits) :=
  ⟨[], s.follows_none, fun _ hp => absurd hp List.not_mem_nil⟩

theorem Grounded.visit (h : s.Grounded m) (he : (kind, v) ∈ s.edges u)
    (hdet : ¬ (m.compileOutgoing u kind).intersects s.bits[v] = true) :
    s.Grounded (m.visit u kind v) := by
  obtain ⟨ps, hm, hps⟩ := h
  refine ⟨ps ++ [⟨u, kind, v⟩], hm.visit hdet, fun p hp => ?_⟩
  rcases List.mem_append.1 hp with hp | hp
  · exact hps p hp
  · rw [List.mem_singleton.1 hp]
    exact he

theorem Grounded.walk (h : s.Grounded m) (htodo : ∀ e ∈ todo, e ∈ s.edges u) {m' : MoreMarks m}
    (hwalk : walk s.edges path entered u todo m = .ok m') : s.Grounded m'.1 := by
  obtain ⟨ps, hm, hps⟩ := h
  obtain ⟨after, htour, hm'⟩ := tour_of_walk hwalk hm
  obtain ⟨qs, rfl, hqs⟩ := htour.exists_append htodo
  exact ⟨ps ++ qs, hm', fun p hp => (List.mem_append.1 hp).elim (hps p) (hqs p)⟩

/-- A visit that reveals a cycle closes a cycle of compile dependencies. -/
theorem Grounded.transGen_of_intersects (h : s.Grounded m) (he : (kind, v) ∈ s.edges u)
    (hdet : (m.compileOutgoing u kind).intersects s.bits[v] = true) :
    TransGen s.CompileEdge v v := by
  obtain ⟨ps, hm, hps⟩ := h
  obtain ⟨-, rfl, hback⟩ := (hm.intersects_iff u kind v).1 hdet
  rcases hback with rfl | hback
  · exact .single he
  · exact (transGen_of_leads hps hback).tail he

/-- The modules of a reported cycle end with one that is on a cycle of compile dependencies. -/
theorem compileCycle_of_walk (hm : s.Grounded m) (htodo : ∀ e ∈ todo, e ∈ s.edges u)
    {cycle : List (Fin s.size)} (h : walk s.edges path entered u todo m = .error (.error cycle)) :
    ∃ x, cycle.getLast? = some x ∧ TransGen s.CompileEdge x x := by
  -- the induction follows the walk; of its cases those are left that end with an error
  fun_induction walk s.edges path entered u todo m with
  | case2 path entered u m kind v todo _ hdet =>
    cases h
    refine ⟨v, List.getLast?_concat, ?_⟩
    exact hm.transGen_of_intersects (htodo _ List.mem_cons_self) hdet
  | case3 path entered u m kind v todo _ hdet hskip failure hrest ih =>
    cases h
    exact ih (hm.visit (htodo _ List.mem_cons_self) hdet)
      (fun e he => htodo e (List.mem_cons_of_mem _ he)) hrest
  | case6 path entered u m kind v todo _ hdet hskip hend failure hinner ih =>
    cases h
    exact ih (hm.visit (htodo _ List.mem_cons_self) hdet) (fun e he => he) hinner
  | case7 path entered u m kind v todo _ hdet hskip hend m₁ h₁ hinner failure hrest ihinner ihrest =>
    cases h
    have hm₁ := (hm.visit (htodo _ List.mem_cons_self) hdet).walk (fun e he => he) hinner
    exact ihrest hm₁ (fun e he => htodo e (List.mem_cons_of_mem _ he)) hrest
  | _ => cases h

/-! ### Walks that do not end -/

/-- The module `u` depends on `v`, and it does not register itself. -/
def SilentEdge (s : ModuleSet) (u v : Fin s.size) : Prop :=
  s.Edge u v ∧ (s.modules.get u).isSelfRegistering = false

instance (s : ModuleSet) (u v : Fin s.size) : Decidable (s.SilentEdge u v) :=
  inferInstanceAs (Decidable (_ ∧ _))

/-- Every cycle of dependencies has a self-registering module on it. -/
def CyclesRegister (s : ModuleSet) : Prop := ∀ u, ¬ TransGen s.SilentEdge u u

/-- A module that passes nothing on does not register itself, and no bit has reached it. -/
theorem isEmpty_outgoing_iff :
    (m.outgoing u).isEmpty = true ↔
      (s.modules.get u).isSelfRegistering = false ∧ m.dependents[u].isEmpty = true := by
  rw [BitSet.isEmpty_iff, BitSet.isEmpty_iff, ← Bool.not_eq_true, ← exists_bit_iff, not_exists]
  simp only [Marks.outgoing, BitSet.contains_union, Bool.or_eq_false_iff, Bool.not_eq_true]
  rw [forall_and, and_comm]

/-- A module that passes something on does so whatever else is visited. -/
theorem isEmpty_outgoing_of_visit (h : ((m.visit u kind v).outgoing w).isEmpty = true) :
    (m.outgoing w).isEmpty = true := by
  rw [isEmpty_outgoing_iff, BitSet.isEmpty_iff] at h ⊢
  refine ⟨h.1, fun i => ?_⟩
  have hi := h.2 i
  simp only [Marks.visit, getElem_set_place] at hi
  by_cases hw : w = v
  · subst hw
    rw [if_pos rfl, BitSet.contains_union, Bool.or_eq_false_iff] at hi
    exact hi.1
  · rwa [if_neg hw] at hi

theorem isEmpty_outgoing_of_walk {m' : MoreMarks m} (h : walk s.edges path entered u todo m = .ok m')
    (hempty : (m'.1.outgoing w).isEmpty = true) : (m.outgoing w).isEmpty = true :=
  walk_keeps (P := fun m' => (m'.outgoing w).isEmpty = true → (m.outgoing w).isEmpty = true)
    (fun _ _ _ _ hkept _ hvisit => hkept (isEmpty_outgoing_of_visit hvisit)) h id hempty

/-- As long as a module passes nothing on, no module on the path that leads to it has a bit. -/
def SilentPath (s : ModuleSet) (m : Marks s.bits) (path : List (Fin s.size)) (u : Fin s.size) : Prop :=
  (m.outgoing u).isEmpty = true → ∀ x ∈ path, ReflTransGen s.SilentEdge x u

/-- Nothing is carried to a module that is entered and passes nothing on. -/
theorem SilentPath.enter (hpath : s.SilentPath m path u) (he : (kind, v) ∈ s.edges u)
    (hskip : ¬ ((m.visit u kind v).dependents[v] = m.dependents[v] ∧ !(m.outgoing u).isEmpty)) :
    s.SilentPath (m.visit u kind v) (v :: path) v := by
  intro hempty x hx
  have hv := isEmpty_outgoing_iff.1 hempty
  have hsame : (m.visit u kind v).dependents[v] = m.dependents[v] := by
    have hv' := isEmpty_outgoing_iff.1 (isEmpty_outgoing_of_visit hempty)
    refine BitSet.ext fun i => ?_
    rw [(BitSet.isEmpty_iff _).1 hv.2 i, (BitSet.isEmpty_iff _).1 hv'.2 i]
  have hu : (m.outgoing u).isEmpty = true := by
    by_contra hne
    exact hskip ⟨hsame, by simpa using hne⟩
  rcases List.mem_cons.1 hx with rfl | hx
  · exact .refl
  · exact (hpath hu x hx).tail ⟨⟨kind, he⟩, (isEmpty_outgoing_iff.1 hu).1⟩

/-- A walk that does not end goes round a cycle of modules that do not register themselves. -/
theorem silentCycle_of_walk (hpath : s.SilentPath m (entered.map Prod.fst) u)
    (htodo : ∀ e ∈ todo, e ∈ s.edges u) {reason : Abandonment}
    (h : walk s.edges path entered u todo m = .error (.abandoned reason)) :
    ∃ x, TransGen s.SilentEdge x x := by
  -- `SilentPath` claims nothing as soon as `u` passes bits on, so that every visit keeps it
  fun_induction walk s.edges path entered u todo m with
  | case3 path entered u m kind v todo _ hdet hskip failure hrest ih =>
    cases h
    refine ih (fun hempty => hpath (isEmpty_outgoing_of_visit hempty)) ?_ hrest
    exact fun e he => htodo e (List.mem_cons_of_mem _ he)
  | case5 path entered u m kind v todo _ hdet hskip hend =>
    -- nothing new has reached `v`, so that `u` passes nothing on
    have hu : (m.outgoing u).isEmpty = true := by
      by_contra hne
      exact hskip ⟨by rw [hend.1], by simpa using hne⟩
    have hback := hpath hu v (List.mem_map_of_mem (List.contains_iff_mem.1 hend.2))
    exact ⟨v, TransGen.tail' hback
      ⟨⟨kind, htodo _ List.mem_cons_self⟩, (isEmpty_outgoing_iff.1 hu).1⟩⟩
  | case6 path entered u m kind v todo _ hdet hskip hend failure hinner ih =>
    cases h
    exact ih (hpath.enter (htodo _ List.mem_cons_self) hskip) (fun e he => he) hinner
  | case7 path entered u m kind v todo _ hdet hskip hend m₁ h₁ hinner failure hrest ihinner ihrest =>
    cases h
    refine ihrest (fun hempty => hpath ?_) ?_ hrest
    · exact isEmpty_outgoing_of_visit (isEmpty_outgoing_of_walk hinner hempty)
    · exact fun e he => htodo e (List.mem_cons_of_mem _ he)
  | _ => cases h

/-! ### The walk through all modules -/

/-- The failure of a walk is due to a cycle of the set: a reported cycle ends at a module that is on a
cycle of compile dependencies, and a walk that does not end goes round modules that do not register
themselves. -/
def HasReason (s : ModuleSet) : Failure (List (Fin s.size)) → Prop
  | .error cycle => ∃ x, cycle.getLast? = some x ∧ TransGen s.CompileEdge x x
  | .abandoned _ => ∃ x, TransGen s.SilentEdge x x

theorem hasReason_of_foldlM {us : List (Fin s.size)} (hm : s.Grounded m)
    {failure : Failure (List (Fin s.size))}
    (h : us.foldlM (walkFrom s.edges) m = .error failure) : s.HasReason failure := by
  induction us generalizing m with
  | nil => cases h
  | cons u us ih =>
    rw [List.foldlM_cons, walkFrom] at h
    cases hwalk : walk s.edges [u] [(u, m)] u (s.edges u) m with
    | ok m' =>
      rw [hwalk] at h
      exact ih (hm.walk (fun e he => he) hwalk) h
    | error failure' =>
      rw [hwalk] at h
      cases h
      cases failure with
      | error cycle => exact compileCycle_of_walk hm (fun e he => he) hwalk
      | abandoned reason =>
        refine silentCycle_of_walk (fun _ x hx => ?_) (fun e he => he) hwalk
        rw [List.mem_singleton.1 hx]

/-- Weights are found, or there is a cycle for which they are not. -/
theorem weigh_cases (s : ModuleSet) :
    (∃ w, s.weigh = .ok w) ∨
    (∃ cycle, s.weigh = .error (.error (.compileCycle (cycle.map fun u => (s.modules.get u).key))) ∧
      s.HasReason (.error cycle)) ∨
    ∃ reason, s.weigh = .error (.abandoned reason) ∧ s.HasReason (.abandoned reason) := by
  unfold weigh
  cases hwalk : walkAll s.edges s.bits with
  | ok m => exact .inl ⟨_, rfl⟩
  | error failure =>
    have hreason := hasReason_of_foldlM s.grounded_none hwalk
    cases failure with
    | error cycle => exact .inr (.inl ⟨cycle, rfl, hreason⟩)
    | abandoned reason => exact .inr (.inr ⟨reason, rfl, hreason⟩)

/-- Weights are found if compile dependencies form no cycle and every cycle of dependencies has a
self-registering module on it. -/
theorem exists_weigh (hcompile : ∀ u, ¬ TransGen s.CompileEdge u u) (hcycles : s.CyclesRegister) :
    ∃ w, s.weigh = .ok w := by
  rcases s.weigh_cases with h | ⟨cycle, -, x, -, hx⟩ | ⟨reason, -, x, hx⟩
  · exact h
  · exact absurd hx (hcompile x)
  · exact absurd hx (hcycles x)

/-- **Weights are found if compile dependencies form no cycle and every cycle of dependencies has a
self-registering module on it.  A cycle that is reported ends at a module that is on a cycle of compile
dependencies.** -/
theorem weigh_of_acyclic (s : ModuleSet) :
    (∀ keys, s.weigh = .error (.error (.compileCycle keys)) →
      ∃ u, keys.getLast? = some (s.modules.get u).key ∧ TransGen s.CompileEdge u u) ∧
    ((∀ u, ¬ TransGen s.CompileEdge u u) → s.CyclesRegister → ∃ w, s.weigh = .ok w) := by
  refine ⟨fun keys hkeys => ?_, exists_weigh⟩
  rcases s.weigh_cases with ⟨w, hw⟩ | ⟨cycle, hcycle, x, hlast, hx⟩ | ⟨reason, habandoned, -⟩
  · rw [hw] at hkeys
    cases hkeys
  · rw [hcycle] at hkeys
    obtain rfl : cycle.map _ = keys := BundleFault.compileCycle.inj
      (Failure.error.inj (Except.error.inj hkeys))
    exact ⟨x, by rw [List.getLast?_map, hlast]; rfl, hx⟩
  · rw [habandoned] at hkeys
    cases hkeys

/-- A module that needs itself for its compilation. -/
abbrev selfNeed : ModuleSet := numbered (n := 1) #v[⟨[0], [], []⟩]

theorem weigh_selfNeed :
    selfNeed.weigh = .error (.error (.compileCycle [.numbered ⟨".", 0⟩, .numbered ⟨".", 0⟩])) := by
  obtain ⟨i, hi⟩ : ∃ i, selfNeed.bits[(0 : Fin selfNeed.size)].contains i = true :=
    exists_bit_iff.2 rfl
  have hdet : ((Marks.none selfNeed.bits).compileOutgoing 0 .compile).intersects
      selfNeed.bits[(0 : Fin selfNeed.size)] = true := by
    refine (BitSet.intersects_iff _ _).2 ⟨i, ?_, hi⟩
    rw [Marks.compileOutgoing, BitSet.contains_union, hi, Bool.or_true]
  have hplaces : List.finRange selfNeed.size = [0] := by decide
  have hedges : selfNeed.edges 0 = [(.compile, 0)] := by decide
  rw [weigh, walkAll, hplaces, List.foldlM_cons, walkFrom, hedges, walk_of_intersects hdet]
  rfl

/-- Four modules on a cycle: 0 needs 3 for its compilation, 3 needs 2 at launch, 2 can use 1, and 1 needs
0 at launch.  Only the module 0 registers itself. -/
def plainRing : ModuleSet where
  size := 4
  modules := .ofFn fun u => if u = 0 then .numbered 0 else { ScriptModule.numbered u with manifest := {} }
  links := #v[⟨[3], [], []⟩, ⟨[], [0], []⟩, ⟨[], [], [1]⟩, ⟨[], [2], []⟩]
  dir := ⟨"."⟩
  name := none

instance : NeZero plainRing.size := ⟨by decide⟩

theorem plainRing_transGen : TransGen plainRing.Edge 0 0 := by
  have h03 : plainRing.Edge 0 3 := by decide
  have h32 : plainRing.Edge 3 2 := by decide
  have h21 : plainRing.Edge 2 1 := by decide
  have h10 : plainRing.Edge 1 0 := by decide
  exact (((TransGen.single h03).tail h32).tail h21).tail h10

theorem plainRing_cyclesRegister : plainRing.CyclesRegister := by
  have hsilent : ∀ u v, plainRing.SilentEdge u v → v.val < u.val := by decide
  exact not_transGen_of_rank (fun u : Fin plainRing.size => u.val) hsilent

theorem selfNeed_plainRing_weigh :
    (selfNeed.weigh = .error (.error (.compileCycle [.numbered ⟨".", 0⟩, .numbered ⟨".", 0⟩])) ∧
      ∃ u, [ModuleKey.numbered ⟨".", 0⟩, .numbered ⟨".", 0⟩].getLast?
        = some (selfNeed.modules.get u).key ∧ TransGen selfNeed.CompileEdge u u) ∧
    TransGen plainRing.Edge 0 0 ∧ (∀ u, ¬ TransGen plainRing.CompileEdge u u) ∧
      plainRing.CyclesRegister ∧ ∃ w, plainRing.weigh = .ok w := by
  have hcompile : ∀ u v, plainRing.CompileEdge u v → 4 - v.val < 4 - u.val := by decide
  have hacyclic : ∀ u, ¬ TransGen plainRing.CompileEdge u u :=
    not_transGen_of_rank (fun u : Fin plainRing.size => 4 - u.val) hcompile
  exact ⟨⟨weigh_selfNeed, (weigh_of_acyclic selfNeed).1 _ weigh_selfNeed⟩, plainRing_transGen, hacyclic,
    plainRing_cyclesRegister, (weigh_of_acyclic plainRing).2 hacyclic plainRing_cyclesRegister⟩

end ScriptBundle.ModuleSet

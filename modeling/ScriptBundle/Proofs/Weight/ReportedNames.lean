import Mathlib.Data.List.Chain
import ScriptBundle.Proofs.BitSet.Numerals
import ScriptBundle.Proofs.Weight.CompileCycle
import ScriptBundle.Proofs.Weight.Spread

/-!
# The names of a reported cycle

A reported cycle ends with the module whose bit has come back.  If this module is on the path of the walk, the
names before it are those of the path from there on, which follows dependencies of all kinds.  Otherwise they
are the names of the modules whose bits have come with its bit, in the order of the bits.

## Main definitions

* `SpellsCycle`: names lead, one after the other, back to the first one.
* `ModuleSet.Arrived`: the walk has come to a module along a path.
* `ModuleSet.Reveals`: a bit comes back to its module.

## Main results

* `exists_reveals_of_tour`: what the walk has come to when it ends with a cycle.
* `Reveals.mem_path`: a module on cycles of compile dependencies only is on the path when its bit comes back.
* `compileCycle_names`: **what the names of a reported cycle are.**
-/

namespace ScriptBundle

open Relation

/-- The first name is also the last one, and the relation leads from each name to the next one. -/
structure SpellsCycle {α : Type*} (r : α → α → Prop) (names : List α) : Prop where
  two_le : 2 ≤ names.length
  ends : names.head? = names.getLast?
  chain : names.IsChain r

namespace ModuleSet

variable {s : ModuleSet} {m : Marks s.bits} {u v x : Fin s.size} {kind : DependencyKind}
  {path members : List (Fin s.size)} {ps before after : List (Passage s.size)}
  {entered : List (Fin s.size × Marks s.bits)} {todo : List (DependencyKind × Fin s.size)}
  {cycle : List (Fin s.size)}

/-! ### The path of the walk -/

/-- The walk has come to the module `u` along a path, which is given from its end to its start. -/
structure Arrived (s : ModuleSet) (m : Marks s.bits) (ps : List (Passage s.size))
    (path : List (Fin s.size)) (u : Fin s.size) : Prop extends s.Open m ps where
  quiet : s.Quiet path ps
  head : path.head? = some u
  chain : path.IsChain fun a b => s.Edge b a

theorem Arrived.mem (h : s.Arrived m ps path u) : u ∈ path := List.mem_of_head? h.head

theorem Arrived.visit (hs : s.SelfRegisteringSources) (h : s.Arrived m before path u)
    (he : (kind, v) ∈ s.edges u) (hdet : ¬ (m.compileOutgoing u kind).intersects s.bits[v] = true) :
    s.Arrived (m.visit u kind v) (before ++ [⟨u, kind, v⟩]) path u where
  toOpen := h.toOpen.visit hs he hdet
  quiet := h.quiet.concat (p := ⟨u, kind, v⟩) he h.mem
  head := h.head
  chain := h.chain

/-- The walk goes on to a module on which the last one depends. -/
theorem Arrived.enter (h : s.Arrived m ps path u) (he : (kind, v) ∈ s.edges u) :
    s.Arrived m ps (v :: path) v where
  toOpen := h.toOpen
  quiet := h.quiet.mono (List.subset_cons_self v path)
  head := rfl
  chain := by
    refine List.isChain_cons.2 ⟨fun y hy => ?_, h.chain⟩
    rw [h.head] at hy
    obtain rfl := Option.some.inj hy
    exact ⟨kind, he⟩

/-- The bit of `v` comes back along a compile dependency of `u`. -/
structure Reveals (s : ModuleSet) (m : Marks s.bits) (ps : List (Passage s.size))
    (path : List (Fin s.size)) (u v : Fin s.size) : Prop extends s.Arrived m ps path u where
  edge : s.CompileEdge u v
  intersects : (m.compileOutgoing u .compile).intersects s.bits[v] = true

theorem Arrived.reveals (h : s.Arrived m ps path u) (he : (kind, v) ∈ s.edges u)
    (hdet : (m.compileOutgoing u kind).intersects s.bits[v] = true) :
    kind = .compile ∧ s.Reveals m ps path u v := by
  obtain ⟨-, rfl, -⟩ := (h.intersects_iff u kind v).1 hdet
  exact ⟨rfl, h, he, hdet⟩

/-- **When a walk ends with a cycle, a bit has come back to its module at some dependency of its tour.** -/
theorem exists_reveals_of_tour (hs : s.SelfRegisteringSources) (htour : s.Tour u todo before after)
    (htodo : ∀ e ∈ todo, e ∈ s.edges u) (h : s.Arrived m before path u)
    (hwalk : walk s.edges path entered u todo m = .error (.error cycle)) :
    ∃ m' ps path' u' v, s.Reveals m' ps path' u' v ∧ ps ++ [⟨u', .compile, v⟩] <+: after ∧
      cycle = cycleThrough s.bits path' v (m'.compileOutgoing u' .compile) := by
  induction htour generalizing m path entered with
  | nil =>
    rw [walk_nil] at hwalk
    cases hwalk
  | @skip u kind v todo before after hsame hout hrest ih =>
    have he : (kind, v) ∈ s.edges u := htodo _ List.mem_cons_self
    have hlist := fun e he => htodo e (List.mem_cons_of_mem _ he)
    by_cases hdet : (m.compileOutgoing u kind).intersects s.bits[v] = true
    · obtain ⟨rfl, hreveals⟩ := h.reveals he hdet
      obtain ⟨qs, rfl, -⟩ := hrest.exists_append hlist
      rw [walk_of_intersects hdet] at hwalk
      cases hwalk
      exact ⟨m, before, path, u, v, hreveals, List.prefix_append _ qs, rfl⟩
    · have h₁ := h.visit hs he hdet
      have hskip : (m.visit u kind v).dependents[v] = m.dependents[v] ∧ !(m.outgoing u).isEmpty := by
        rw [h₁.dependents, Marks.outgoing, h.dependents, hout]
        exact ⟨hsame, rfl⟩
      rw [walk_skip hdet hskip] at hwalk
      exact ih hlist h₁ (map_eq_error_iff.1 hwalk)
  | @enter u kind v todo before inner after hnew hinner hrest ihinner ihrest =>
    have he : (kind, v) ∈ s.edges u := htodo _ List.mem_cons_self
    have hlist := fun e he => htodo e (List.mem_cons_of_mem _ he)
    have hprefix : inner <+: after := by
      obtain ⟨qs, rfl, -⟩ := hrest.exists_append hlist
      exact List.prefix_append inner qs
    by_cases hdet : (m.compileOutgoing u kind).intersects s.bits[v] = true
    · obtain ⟨rfl, hreveals⟩ := h.reveals he hdet
      obtain ⟨ps, rfl, -⟩ := hinner.exists_append fun e he => he
      rw [walk_of_intersects hdet] at hwalk
      cases hwalk
      exact ⟨m, before, path, u, v, hreveals, (List.prefix_append _ ps).trans hprefix, rfl⟩
    · have h₁ := h.visit hs he hdet
      have hchanged := h.toOpen.changed hs he hdet hnew
      rw [walk_enter hdet (fun hskip => hchanged hskip.1) (fun hend => hchanged (by rw [hend.1]))] at hwalk
      -- either the cycle is revealed behind `v`, or the walk comes back to `u`
      rcases walk_of_tour hs hinner (fun e he => he) h₁.toOpen (v :: path) ((v, m.visit u kind v) :: entered) with
        ⟨-, c, hw⟩ | ⟨m₁, hw, hopen⟩
      · rw [hw] at hwalk
        cases hwalk
        obtain ⟨m', ps, path', u', v', hreveals, hps, hcycle⟩ :=
          ihinner (fun e he => he) (h₁.enter he) hw
        exact ⟨m', ps, path', u', v', hreveals, hps.trans hprefix, hcycle⟩
      · rw [hw] at hwalk
        have hquiet := hinner.quiet (fun e he => he) List.mem_cons_self (h₁.enter he).quiet
        have hback : s.Arrived m₁.1 inner path u :=
          ⟨hopen, hquiet.leave h₁.quiet hinner, h.head, h.chain⟩
        exact ihrest hlist hback (map_eq_error_iff.1 hwalk)

theorem exists_reveals_of_tourFrom (hs : s.SelfRegisteringSources) {us : List (Fin s.size)}
    (htour : s.TourFrom us before after) (h : s.Open m before) (hquiet : s.Quiet [] before)
    (hwalk : us.foldlM (walkFrom s.edges) m = .error (.error cycle)) :
    ∃ m' ps path u v, s.Reveals m' ps path u v ∧ ps ++ [⟨u, .compile, v⟩] <+: after ∧
      cycle = cycleThrough s.bits path v (m'.compileOutgoing u .compile) := by
  induction htour generalizing m with
  | nil => cases hwalk
  | @cons u us before inner after htour hrest ih =>
    have harrived : s.Arrived m before [u] u :=
      ⟨h, hquiet.mono (List.nil_subset _), rfl, List.isChain_singleton u⟩
    rw [List.foldlM_cons, walkFrom] at hwalk
    rcases walk_of_tour hs htour (fun e he => he) h [u] [(u, m)] with ⟨-, c, hw⟩ | ⟨m₁, hw, hopen⟩
    · rw [hw] at hwalk
      cases hwalk
      obtain ⟨m', ps, path, u', v, hreveals, hps, hcycle⟩ :=
        exists_reveals_of_tour hs htour (fun e he => he) harrived hw
      obtain ⟨qs, rfl, -⟩ := hrest.exists_append
      exact ⟨m', ps, path, u', v, hreveals, hps.trans (List.prefix_append inner qs), hcycle⟩
    · rw [hw] at hwalk
      have hquiet' := htour.quiet (fun e he => he) List.mem_cons_self harrived.quiet
      exact ih hopen (hquiet'.leave hquiet htour) hwalk

/-! ### The bits that come back -/

/-- A way starts at its first module. -/
theorem exists_source_of_leads (h : Leads ps v u) : ∃ p ∈ ps, p.source = v := by
  obtain ⟨way, hway, hsub⟩ := h
  have hfirst : ∃ p ∈ way, p.source = v := by
    induction hway with
    | single => exact ⟨_, List.mem_singleton_self _, rfl⟩
    | concat _ ih =>
      obtain ⟨p, hp, hsource⟩ := ih ((List.sublist_append_left _ _).trans hsub)
      exact ⟨p, List.mem_append_left _ hp, hsource⟩
  obtain ⟨p, hp, hsource⟩ := hfirst
  exact ⟨p, hsub.subset hp, hsource⟩

namespace Reveals

variable (h : s.Reveals m ps path u v)

include h

theorem leads : v = u ∨ Leads ps v u := ((h.intersects_iff u .compile v).1 h.intersects).2.2

theorem transGen : TransGen s.CompileEdge v v := by
  rcases h.leads with rfl | hback
  · exact .single h.edge
  · exact (transGen_of_leads h.passages hback).tail h.edge

theorem reflTransGen : ReflTransGen s.Edge v u := by
  rcases h.leads with rfl | hback
  · exact .refl
  · exact (TransGen.mono (fun _ _ hedge => CompileEdge.edge hedge) _ _
      (transGen_of_leads h.passages hback)).to_reflTransGen

/-- The modules whose bits have come with the bit of `v`. -/
theorem exists_contains_iff : (∃ i, (m.compileOutgoing u .compile).contains i = true ∧
    s.bits[x].contains i = true) ↔ (s.modules.get x).isSelfRegistering = true ∧ (x = u ∨ Leads ps x u) := by
  rw [← exists_bit_iff]
  constructor
  · rintro ⟨i, hi, hx⟩
    obtain ⟨-, y, hy, hlead⟩ := (h.contains_compileOutgoing u .compile i).1 hi
    obtain rfl := s.ownBits.distinct y x i hy hx
    exact ⟨⟨i, hx⟩, hlead⟩
  · rintro ⟨⟨i, hx⟩, hlead⟩
    exact ⟨i, (h.contains_compileOutgoing u .compile i).2 ⟨rfl, x, hx, hlead⟩, hx⟩

/-- A module that shares no cycle with other dependencies is on the path when its bit comes back.  Otherwise
its bit has spread, so that the cycle would have been revealed before. -/
theorem mem_path (hcompile : s.CompileCyclesOnly v) : v ∈ path := by
  by_contra hv
  have hne : v ≠ u := fun heq => hv (heq ▸ h.mem)
  have hlead := h.leads.resolve_left hne
  obtain ⟨i, hi⟩ : ∃ i, s.bits[v].contains i = true :=
    ((h.intersects_iff u .compile v).1 h.intersects).1
  have hspread : s.Spread v ps := by
    refine (h.quiet v hv).resolve_left fun hnone => ?_
    obtain ⟨p, hp, hsource⟩ := exists_source_of_leads hlead
    exact hnone p hp hsource
  -- the dependency of `u` on `v` has been examined when the bit of `v` had come to `u`
  obtain ⟨before, after, rfl, j, hj, hcontains⟩ :=
    hspread u (hspread.passesOn hi h.reflTransGen) _ h.edge
  obtain hcontains := hcontains.resolve_left fun heq => hne heq.symm
  have hback : Leads before v u := by
    refine leads_of_contains (fun p hp => h.passages p (List.mem_append_left _ hp)) hj ?_ hcontains
    exact fun x y kind hx hxy hy => hcompile x y kind hx hxy (hy.tail h.edge.edge)
  refine h.not_leads v ?_
  rw [List.append_cons]
  exact ((leads_concat before _ v v).2 (.inr ⟨rfl, rfl, .inr hback⟩)).append after

/-! ### The names -/

/-- The path from `v` on leads back to `v`, and what leads back are dependencies. -/
theorem dropWhile_path (hv : v ∈ path) : ∃ back, path.reverse.dropWhile (· != v) = v :: back ∧
    (v :: back).getLast? = some u ∧ SpellsCycle s.Edge (v :: back ++ [v]) := by
  have hne : path.reverse.dropWhile (· != v) ≠ [] := by
    rw [Ne, List.dropWhile_eq_nil_iff]
    intro hall
    simpa using hall v (List.mem_reverse.2 hv)
  obtain ⟨first, back, hback⟩ := List.exists_cons_of_ne_nil hne
  have hfirst : first = v := by
    have hhead := List.head?_dropWhile_not (· != v) path.reverse
    rw [hback] at hhead
    simpa using hhead
  subst hfirst
  have hsuffix : first :: back <:+ path.reverse := hback ▸ List.dropWhile_suffix _
  have hlast : (first :: back).getLast? = some u := by
    obtain ⟨front, hfront⟩ := hsuffix
    have hend : path.reverse.getLast? = some u := by rw [List.getLast?_reverse, h.head]
    rw [← hfront, List.getLast?_append, List.getLast?_cons] at hend
    simpa [List.getLast?_cons] using hend
  refine ⟨back, hback, hlast, by simp, by rw [List.getLast?_concat]; rfl, ?_⟩
  have hchain : (first :: back).IsChain s.Edge :=
    List.IsChain.suffix (List.isChain_reverse.2 h.chain) hsuffix
  refine List.isChain_append.2 ⟨hchain, List.isChain_singleton first, ?_⟩
  intro x hx y hy
  rw [hlast] at hx
  obtain rfl := Option.some.inj hx
  obtain rfl := Option.some.inj hy
  exact h.edge.edge

end Reveals

/-- The names of the modules whose bits are in a set, in the order of the bits. -/
def bearers (s : ModuleSet) (incoming : BitSet) : List (Fin s.size) :=
  incoming.toList.filterMap fun i => (List.finRange s.size).find? fun u => (s.bits.get u).contains i

theorem find?_bits_eq_some_iff {i : ℕ} :
    ((List.finRange s.size).find? fun u => (s.bits.get u).contains i) = some x ↔
      s.bits[x].contains i = true := by
  constructor
  · intro h
    have hx := List.find?_some h
    exact hx
  · intro hx
    cases h : (List.finRange s.size).find? fun u => (s.bits.get u).contains i with
    | none => exact absurd hx (List.find?_eq_none.1 h x (List.mem_finRange x))
    | some y =>
      have hy := List.find?_some h
      rw [s.ownBits.distinct y x i hy hx]

theorem mem_bearers_iff {incoming : BitSet} :
    x ∈ s.bearers incoming ↔ ∃ i, incoming.contains i = true ∧ s.bits[x].contains i = true := by
  simp only [bearers, List.mem_filterMap, BitSet.mem_toList_iff, find?_bits_eq_some_iff]

theorem pairwise_bearers (s : ModuleSet) (incoming : BitSet) :
    (s.bearers incoming).Pairwise fun x y => s.bitOrder.idxOf x < s.bitOrder.idxOf y := by
  refine List.pairwise_filterMap.2 (incoming.pairwise_toList.imp ?_)
  intro i j hij x hx y hy
  rw [(contains_bits.1 (find?_bits_eq_some_iff.1 hx)).2, (contains_bits.1 (find?_bits_eq_some_iff.1 hy)).2]
  exact hij

theorem cycleThrough_of_mem {incoming : BitSet} {back : List (Fin s.size)}
    (h : path.reverse.dropWhile (· != v) = v :: back) :
    cycleThrough s.bits path v incoming = v :: back ++ [v] := by
  rw [cycleThrough, h]
  rfl

theorem cycleThrough_of_notMem {incoming : BitSet} (h : v ∉ path) :
    cycleThrough s.bits path v incoming = s.bearers incoming ++ [v] := by
  have hnil : path.reverse.dropWhile (· != v) = [] := by
    refine List.dropWhile_eq_nil_iff.2 fun x hx => ?_
    have hne : x ≠ v := fun heq => h (heq ▸ List.mem_reverse.1 hx)
    simpa using hne
  rw [cycleThrough, hnil]
  rfl

/-- What leads from `v` back to `v` are compile dependencies, if there are no others on cycles through `v`. -/
theorem isChain_compileEdge (hcompile : s.CompileCyclesOnly v) {rest : List (Fin s.size)}
    (hx : ReflTransGen s.Edge v x) (hchain : (x :: rest).IsChain s.Edge)
    (hlast : (x :: rest).getLast? = some v) :
    (x :: rest).IsChain s.CompileEdge ∧ ReflTransGen s.Edge x v := by
  induction rest generalizing x with
  | nil =>
    obtain rfl := Option.some.inj hlast
    exact ⟨List.isChain_singleton x, .refl⟩
  | cons y rest ih =>
    obtain ⟨hedge, hrest⟩ := List.isChain_cons_cons.1 hchain
    rw [List.getLast?_cons_cons] at hlast
    obtain ⟨hcompileRest, hy⟩ := ih (hx.tail hedge) hrest hlast
    obtain ⟨kind, he⟩ := hedge
    obtain rfl := hcompile x y kind hx he hy
    exact ⟨List.isChain_cons_cons.2 ⟨he, hcompileRest⟩, .head ⟨_, he⟩ hy⟩

/-- The modules whose bits come to `v` when the compile dependency of `u` on it is examined: `u` itself, and
those whose compile dependencies to `u` have been examined one after the other. -/
structure ComeWith (s : ModuleSet) (u v : Fin s.size) (members : List (Fin s.size)) : Prop where
  ordered : members.Pairwise fun x y => s.bitOrder.idxOf x < s.bitOrder.idxOf y
  exists_tour : ∃ tour ps, s.IsTour tour ∧ ps ++ [⟨u, .compile, v⟩] <+: tour ∧
    ∀ x, x ∈ members ↔ (s.modules.get x).isSelfRegistering = true ∧ (x = u ∨ Leads ps x u)
  transGen : ∀ x ∈ members, TransGen s.CompileEdge x v

/-- **When no weights are found, the names that are reported end with a module `v` that is on a cycle of
compile dependencies.**  Either the names lead along dependencies from `v` back to `v`, the last of which is a
compile dependency, or they are those of the modules whose bits come to `v` with its own one, in the order of
the bits.  If only compile dependencies are on cycles through `v`, the names lead along compile dependencies
back to it. -/
theorem compileCycle_names :
    (∀ c fs request limit s, BundleAccess.outcome fs (ofRequest c request limit) = .ok s →
      s.SelfRegisteringSources) ∧
    ∀ s : ModuleSet, s.SelfRegisteringSources → ∀ failure, s.weigh = .error failure →
      ∃ members u v,
        failure = .error (.compileCycle ((members ++ [v]).map fun x => (s.modules.get x).key)) ∧
        u ∈ members ∧ v ∈ members ∧ s.CompileEdge u v ∧ TransGen s.CompileEdge v v ∧
        (members.getLast? = some u ∧ SpellsCycle s.Edge (members ++ [v]) ∨ s.ComeWith u v members) ∧
        (s.CompileCyclesOnly v → SpellsCycle s.CompileEdge (members ++ [v])) := by
  refine ⟨fun c fs request limit s h => selfRegisteringSources_ofRequest h, fun s hs failure hfailure => ?_⟩
  obtain ⟨tour, htour⟩ := exists_isTour hs
  -- the only failure is a cycle
  obtain ⟨cycle, hwalk, rfl⟩ : ∃ cycle, walkAll s.edges s.bits = .error (.error cycle) ∧
      failure = .error (.compileCycle (cycle.map fun x => (s.modules.get x).key)) := by
    rcases foldlM_walk_of_tourFrom hs htour s.open_none with ⟨-, cycle, hwalk⟩ | ⟨m, hwalk, -⟩
    · refine ⟨cycle, hwalk, ?_⟩
      rw [weigh, walkAll, hwalk] at hfailure
      exact (Except.error.inj hfailure).symm
    · rw [weigh, walkAll, hwalk] at hfailure
      cases hfailure
  obtain ⟨m, ps, path, u, v, hreveals, hprefix, rfl⟩ :=
    exists_reveals_of_tourFrom hs htour s.open_none (quiet_nil []) hwalk
  by_cases hv : v ∈ path
  · obtain ⟨back, hback, hlast, hspells⟩ := hreveals.dropWhile_path hv
    refine ⟨v :: back, u, v, by rw [cycleThrough_of_mem hback], List.mem_of_getLast? hlast,
      List.mem_cons_self, hreveals.edge, hreveals.transGen, .inl ⟨hlast, hspells⟩, fun hcompile => ?_⟩
    have hend : (v :: back ++ [v]).getLast? = some v := List.getLast?_concat
    exact ⟨hspells.two_le, hspells.ends, (isChain_compileEdge hcompile .refl hspells.chain hend).1⟩
  · have hself (x : Fin s.size) (hedge : ∃ y, s.CompileEdge x y) :
        (s.modules.get x).isSelfRegistering = true := by
      obtain ⟨y, hy⟩ := hedge
      exact hs x (List.ne_nil_of_mem hy)
    have hmem (x : Fin s.size) : x ∈ s.bearers (m.compileOutgoing u .compile) ↔
        (s.modules.get x).isSelfRegistering = true ∧ (x = u ∨ Leads ps x u) :=
      mem_bearers_iff.trans hreveals.exists_contains_iff
    refine ⟨s.bearers (m.compileOutgoing u .compile), u, v, by rw [cycleThrough_of_notMem hv],
      (hmem u).2 ⟨hself u ⟨v, hreveals.edge⟩, .inl rfl⟩, (hmem v).2 ⟨?_, hreveals.leads⟩,
      hreveals.edge, hreveals.transGen,
      .inr ⟨s.pairwise_bearers _, ⟨tour, ps, htour, hprefix, hmem⟩, fun x hx => ?_⟩,
      fun hcompile => absurd (hreveals.mem_path hcompile) hv⟩
    · obtain ⟨y, hy, -⟩ := TransGen.head'_iff.1 hreveals.transGen
      exact hself v ⟨y, hy⟩
    · rcases ((hmem x).1 hx).2 with rfl | hlead
      · exact .single hreveals.edge
      · exact (transGen_of_leads hreveals.passages hlead).tail hreveals.edge

/-- Four scripts.  The script 0 needs 2 and 1 for its compilation, 1 needs 3, and 3 needs 2 and 0; at launch 2
needs 1 and 0. -/
def crossedFiles : MemoryTree :=
  .ofFiles
    [(⟨"js/0_a.js"⟩, "((a,Script)=>setCompileDependencies([2,1]))()".toUTF8),
     (⟨"js/1_b.js"⟩, "((a,Script)=>setCompileDependencies([3]))()".toUTF8),
     (⟨"js/2_c.js"⟩, "((a,Script)=>setLaunchDependencies([1,0]))()".toUTF8),
     (⟨"js/3_d.js"⟩, "((a,Script)=>setCompileDependencies([2,0]))()".toUTF8)]

/-- The names of the cycle that is revealed in a set of self-registering modules of one category. -/
def revealedKeys (s : ModuleSet) : Option (List ModuleKey) :=
  if (∀ u, (s.modules.get u).isSelfRegistering = true) ∧
      ∀ u v, (s.modules.get u).category = (s.modules.get v).category then
    (s.revealWithin 20 (List.finRange s.size) (.none (.ofFn fun u => .singleton u))).map
      (·.map fun u => (s.modules.get u).key)
  else none

theorem weigh_of_revealedKeys {keys : List ModuleKey} (h : s.revealedKeys = some keys) :
    s.weigh = .error (.error (.compileCycle keys)) := by
  unfold revealedKeys at h
  split at h
  · next hself =>
    obtain ⟨cycle, hcycle, rfl⟩ := Option.map_eq_some_iff.1 h
    exact weigh_of_revealWithin hself.1 hself.2 hcycle
  · cases h

theorem crossedFiles_weigh :
    ∃ s, BundleAccess.outcome crossedFiles.fileSystem (ofRequest {} (.file ⟨"js/0_a.js"⟩)) = .ok s ∧
      s.weigh = .error (.error (.compileCycle
        [.numbered ⟨".", 0⟩, .numbered ⟨".", 1⟩, .numbered ⟨".", 3⟩, .numbered ⟨".", 1⟩])) := by
  have hkeys : (BundleAccess.outcome crossedFiles.fileSystem
      (ofRequest {} (.file ⟨"js/0_a.js"⟩))).toOption.bind revealedKeys
        = some [.numbered ⟨".", 0⟩, .numbered ⟨".", 1⟩, .numbered ⟨".", 3⟩, .numbered ⟨".", 1⟩] := by
    decide +kernel
  obtain ⟨s, hs, hkeys⟩ := Option.bind_eq_some_iff.1 hkeys
  exact ⟨s, toOption_eq_some_iff.1 hs, weigh_of_revealedKeys hkeys⟩

/-- **The bits of 0 and 3 come to 1 with its own one, when the walk has left 1.**  The names that are reported
do not lead back to the first one. -/
theorem crossedFiles_names :
    ∃ s, BundleAccess.outcome crossedFiles.fileSystem (ofRequest {} (.file ⟨"js/0_a.js"⟩)) = .ok s ∧
      ∃ keys, s.weigh = .error (.error (.compileCycle keys)) ∧
        ¬ ∃ names, keys = names.map (fun x => (s.modules.get x).key) ∧ SpellsCycle s.CompileEdge names := by
  obtain ⟨s, hs, hweigh⟩ := crossedFiles_weigh
  refine ⟨s, hs, _, hweigh, ?_⟩
  rintro ⟨names, hnames, hspells⟩
  have hends := congrArg (Option.map fun x => (s.modules.get x).key) hspells.ends
  rw [← List.head?_map, ← List.getLast?_map, ← hnames] at hends
  revert hends
  decide

/-- In the set of these files the last name is that of a module on a cycle, and the names of two modules that
need each other for their compilation spell their cycle. -/
theorem crossedFiles_mutualCompile_names :
    (∃ s, BundleAccess.outcome crossedFiles.fileSystem (ofRequest {} (.file ⟨"js/0_a.js"⟩)) = .ok s ∧
      ∃ v, (s.modules.get v).key = .numbered ⟨".", 1⟩ ∧ TransGen s.CompileEdge v v) ∧
    ∃ names, mutualCompile.weigh
        = .error (.error (.compileCycle (names.map fun x => (mutualCompile.modules.get x).key))) ∧
      SpellsCycle mutualCompile.CompileEdge names := by
  constructor
  · obtain ⟨s, hs, hweigh⟩ := crossedFiles_weigh
    obtain ⟨members, u, v, hkeys, -, -, -, hcycle, -⟩ :=
      compileCycle_names.2 s (compileCycle_names.1 _ _ _ _ s hs) _ hweigh
    have hlast := congrArg List.getLast? (BundleFault.compileCycle.inj (Failure.error.inj hkeys))
    rw [List.map_append, List.map_singleton, List.getLast?_concat] at hlast
    exact ⟨s, hs, v, (Option.some.inj hlast).symm, hcycle⟩
  · have hself : ∀ u, (mutualCompile.modules.get u).isSelfRegistering = true := by decide
    have hcategory : ∀ u v,
        (mutualCompile.modules.get u).category = (mutualCompile.modules.get v).category := by
      decide
    have hreveal : mutualCompile.revealWithin 10 (List.finRange mutualCompile.size)
        (.none (.ofFn fun u => .singleton u)) = some [0, 1, 0] := by
      decide +kernel
    have hweigh := weigh_of_revealWithin hself hcategory hreveal
    have hall : ∀ x, ∀ e ∈ mutualCompile.edges x, e.1 = .compile := by decide
    obtain ⟨members, u, v, hkeys, -, -, -, -, -, hspells⟩ :=
      compileCycle_names.2 mutualCompile (selfRegisteringSources_numbered _) _ hweigh
    exact ⟨_, hweigh.trans (congrArg Except.error hkeys), hspells fun x y kind _ he _ => hall x (kind, y) he⟩

end ModuleSet

end ScriptBundle

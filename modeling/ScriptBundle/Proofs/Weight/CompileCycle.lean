import ScriptBundle.Proofs.Closure.LeastClosure
import ScriptBundle.Proofs.Script.Accounting
import ScriptBundle.Proofs.Weight.Evaluation
import ScriptBundle.Proofs.Weight.Walk

/-!
# Which cycles of compile dependencies are reported

A cycle of compile dependencies is revealed when a bit comes back to its module along compile
dependencies.  The walk goes on where weights have grown, not where compile weights have, so that
a bit that has come to a module by another way is not always carried round the cycle.

## Main definitions

* `ModuleSet.SelfRegisteringSources`: only self-registering modules depend on others.
* `ModuleSet.Open`: marks and examined dependencies when no cycle has been revealed.
* `ModuleSet.CompileCyclesOnly`: the cycles through a module consist of compile dependencies.
* `unnoticedCycle`: a set with a cycle that is not reported.

## Main results

* `selfRegisteringSources_ofRequest`: **in the set of a request only self-registering modules depend on
  others.**
* `exists_isTour`: the dependencies can be examined one after the other to an end.
* `walk_of_tour`: a walk ends with marks if no way of its tour leads back, otherwise with a cycle.
* `compileCycle_iff`: **a cycle is reported if and only if the compile dependencies of some cycle are
  examined one after the other.**
-/

namespace ScriptBundle

open Relation

namespace ModuleSet

variable {s : ModuleSet} {u v x : Fin s.size}

/-- Only self-registering modules depend on others.  The scripts of other modules are not searched
for dependencies. -/
def SelfRegisteringSources (s : ModuleSet) : Prop :=
  ∀ u, s.edges u ≠ [] → (s.modules.get u).isSelfRegistering = true

theorem SelfRegisteringSources.exists_bit (hs : s.SelfRegisteringSources) {kind : DependencyKind}
    (h : (kind, v) ∈ s.edges u) : ∃ i, s.bits[u].contains i = true :=
  exists_bit_iff.2 (hs u (List.ne_nil_of_mem h))

/-- **In the set of a request only self-registering modules depend on others.** -/
theorem selfRegisteringSources_ofRequest {c : Convention} {fs : FileSystem} {request : Request} {limit : Nat}
    (h : BundleAccess.outcome fs (ofRequest c request limit) = .ok s) : s.SelfRegisteringSources := by
  intro u hedges
  by_contra hself
  have hspeaks := (discovered_get h u).speaksForItself
  have hnone := Manifest.dependencies_of_not_selfRegistering hspeaks (Bool.not_eq_true _ ▸ hself)
  obtain ⟨k, -, rfl⟩ := exists_closure h
  rw [edges, links_get_ofModules, hnone] at hedges
  exact hedges rfl

/-- A module with a bit passes something on. -/
theorem isEmpty_outgoing (d : BitSet) (h : ∃ i, s.bits[u].contains i = true) :
    (d ∪ s.bits[u]).isEmpty = false := by
  obtain ⟨i, hi⟩ := h
  rw [← Bool.not_eq_true, BitSet.isEmpty_iff]
  intro hall
  have := hall i
  rw [BitSet.contains_union, hi, Bool.or_true] at this
  cases this

/-! ### A tour comes to an end -/

/-- The dependencies of a module can be examined to an end: whenever a module is entered, fewer bits
are missing. -/
theorem exists_tour (hs : s.SelfRegisteringSources) (m : Marks s.bits) (u : Fin s.size)
    (todo : List (DependencyKind × Fin s.size)) (htodo : ∀ e ∈ todo, e ∈ s.edges u)
    (before : List (Passage s.size)) (hm : m.dependents = s.reached before) :
    ∃ after, ∃ m' : Marks s.bits,
      s.Tour u todo before after ∧ m'.dependents = s.reached after ∧ m'.missing ≤ m.missing := by
  match todo with
  | [] => exact ⟨before, m, .nil, hm, Nat.le_refl _⟩
  | (kind, v) :: todo =>
    have hrest := fun e he => htodo e (List.mem_cons_of_mem _ he)
    have hout := isEmpty_outgoing (s.reached before)[u] (hs.exists_bit (htodo _ List.mem_cons_self))
    have hm₁ : (m.visit u kind v).dependents = s.reached (before ++ [⟨u, kind, v⟩]) := by
      rw [reached_concat, ← hm]
      rfl
    -- something is always carried, so that a module is entered only if new bits reach it
    by_cases hsame : (s.reached (before ++ [⟨u, kind, v⟩]))[v] = (s.reached before)[v]
    · obtain ⟨after, m', htour, hm', hle⟩ := exists_tour hs (m.visit u kind v) u todo hrest _ hm₁
      exact ⟨after, m', .skip hsame hout htour, hm', hle.trans (m.missing_visit_le u kind v)⟩
    · have hlt : (m.visit u kind v).missing < m.missing := by
        refine m.missing_visit_lt u kind v ?_
        rwa [hm₁, hm]
      obtain ⟨inner, m₁, htour, hm₁', hle⟩ :=
        exists_tour hs (m.visit u kind v) v (s.edges v) (fun e he => he) _ hm₁
      obtain ⟨after, m', htour', hm', hle'⟩ := exists_tour hs m₁ u todo hrest inner hm₁'
      exact ⟨after, m', .enter (.inl hsame) htour htour', hm', by omega⟩
termination_by (m.missing, todo.length)
decreasing_by
  · rcases Nat.lt_or_eq_of_le (m.missing_visit_le u kind v) with h | h
    · exact .left _ _ h
    · rw [h]
      exact .right _ (Nat.lt_succ_self _)
  · exact .left _ _ hlt
  · exact .left _ _ (by omega)

theorem exists_tourFrom (hs : s.SelfRegisteringSources) (us : List (Fin s.size)) (m : Marks s.bits)
    (before : List (Passage s.size)) (hm : m.dependents = s.reached before) :
    ∃ after, s.TourFrom us before after := by
  induction us generalizing m before with
  | nil => exact ⟨before, .nil⟩
  | cons u us ih =>
    obtain ⟨inner, m', htour, hm', -⟩ := exists_tour hs m u (s.edges u) (fun e he => he) before hm
    obtain ⟨after, hrest⟩ := ih m' inner hm'
    exact ⟨after, .cons htour hrest⟩

/-- The dependencies can be examined one after the other to an end. -/
theorem exists_isTour (hs : s.SelfRegisteringSources) : ∃ ps, s.IsTour ps :=
  exists_tourFrom hs _ (.none s.bits) [] rfl

/-! ### The walk along a tour -/

/-- The walk has followed dependencies, and none of its ways leads back. -/
structure Open (s : ModuleSet) (m : Marks s.bits) (ps : List (Passage s.size)) : Prop
    extends s.Follows m ps where
  passages : ∀ p ∈ ps, s.HasPassage p
  not_leads : ∀ x, ¬ Leads ps x x

theorem open_none (s : ModuleSet) : s.Open (.none s.bits) [] where
  toFollows := s.follows_none
  passages := by simp
  not_leads _ := not_leads_nil

variable {m : Marks s.bits} {before after : List (Passage s.size)} {kind : DependencyKind}
  {todo : List (DependencyKind × Fin s.size)}

/-- A visit reveals a cycle if its dependency ends a way that leads back. -/
theorem Open.leads_of_intersects (h : s.Open m before)
    (hdet : (m.compileOutgoing u kind).intersects s.bits[v] = true) :
    Leads (before ++ [⟨u, kind, v⟩]) v v := by
  obtain ⟨-, hkind, hlead⟩ := (h.intersects_iff u kind v).1 hdet
  exact (leads_concat before _ v v).2 (.inr ⟨hkind, rfl, hlead⟩)

/-- A visit that reveals no cycle ends no way that leads back. -/
theorem Open.visit (hs : s.SelfRegisteringSources) (h : s.Open m before)
    (he : (kind, v) ∈ s.edges u)
    (hdet : ¬ (m.compileOutgoing u kind).intersects s.bits[v] = true) :
    s.Open (m.visit u kind v) (before ++ [⟨u, kind, v⟩]) where
  toFollows := h.toFollows.visit hdet
  passages p hp := by
    rcases List.mem_append.1 hp with hp | hp
    · exact h.passages p hp
    · rw [List.mem_singleton.1 hp]
      exact he
  not_leads x hx := by
    rcases (leads_concat before _ x x).1 hx with hx | ⟨hkind, rfl, hlead⟩
    · exact h.not_leads x hx
    · -- the target has a bit, because it depends on something
      have hedge : ∃ y, s.CompileEdge x y := by
        rcases hlead with rfl | hlead
        · obtain rfl : kind = .compile := hkind
          exact ⟨x, he⟩
        · obtain ⟨y, hy, -⟩ := TransGen.head'_iff.1 (transGen_of_leads h.passages hlead)
          exact ⟨y, hy⟩
      obtain ⟨y, hy⟩ := hedge
      exact hdet ((h.intersects_iff u kind x).2 ⟨hs.exists_bit hy, hkind, hlead⟩)

/-- A module that the tour enters is reached by new bits, because something is carried to it. -/
theorem Open.changed (hs : s.SelfRegisteringSources) (h : s.Open m before)
    (he : (kind, v) ∈ s.edges u)
    (hdet : ¬ (m.compileOutgoing u kind).intersects s.bits[v] = true)
    (hnew : (s.reached (before ++ [⟨u, kind, v⟩]))[v] ≠ (s.reached before)[v] ∨
      ((s.reached before)[u] ∪ s.bits[u]).isEmpty = true) :
    ¬ (m.visit u kind v).dependents[v] = m.dependents[v] := by
  rw [(h.visit hs he hdet).dependents, h.dependents]
  refine hnew.resolve_right ?_
  rw [isEmpty_outgoing (s.reached before)[u] (hs.exists_bit he)]
  exact Bool.false_ne_true

/-- **A walk ends with marks if no way of its tour leads back, otherwise with a cycle.** -/
theorem walk_of_tour (hs : s.SelfRegisteringSources) (htour : s.Tour u todo before after)
    (htodo : ∀ e ∈ todo, e ∈ s.edges u) (h : s.Open m before) (path : List (Fin s.size))
    (entered : List (Fin s.size × Marks s.bits)) :
    ((∃ x, Leads after x x) ∧ ∃ c, walk s.edges path entered u todo m = .error (.error c)) ∨
      ∃ m' : MoreMarks m, walk s.edges path entered u todo m = .ok m' ∧ s.Open m'.1 after := by
  induction htour generalizing m path entered with
  | nil => exact .inr ⟨⟨m, .inl rfl⟩, walk_nil, h⟩
  | @skip u kind v todo before after hsame hout hrest ih =>
    have hlist := fun e he => htodo e (List.mem_cons_of_mem _ he)
    by_cases hdet : (m.compileOutgoing u kind).intersects s.bits[v] = true
    · -- the walk stops here; the way that leads back is there whatever the tour examines next
      obtain ⟨ps, rfl, -⟩ := hrest.exists_append hlist
      exact .inl ⟨⟨v, (h.leads_of_intersects hdet).append ps⟩, _, walk_of_intersects hdet⟩
    · have h₁ := h.visit hs (htodo _ List.mem_cons_self) hdet
      have hskip : (m.visit u kind v).dependents[v] = m.dependents[v] ∧
          !(m.outgoing u).isEmpty := by
        rw [h₁.dependents, Marks.outgoing, h.dependents, hout]
        exact ⟨hsame, rfl⟩
      rw [walk_skip hdet hskip]
      rcases ih hlist h₁ path entered with ⟨hlead, c, hw⟩ | ⟨m', hw, hopen⟩
      · rw [hw]
        exact .inl ⟨hlead, c, rfl⟩
      · rw [hw]
        exact .inr ⟨_, rfl, hopen⟩
  | @enter u kind v todo before inner after hnew hinner hrest ihinner ihrest =>
    have hlist := fun e he => htodo e (List.mem_cons_of_mem _ he)
    obtain ⟨qs, rfl, -⟩ := hrest.exists_append hlist
    by_cases hdet : (m.compileOutgoing u kind).intersects s.bits[v] = true
    · obtain ⟨ps, rfl, -⟩ := hinner.exists_append fun e he => he
      have hlead := ((h.leads_of_intersects hdet).append ps).append qs
      exact .inl ⟨⟨v, hlead⟩, _, walk_of_intersects hdet⟩
    · have h₁ := h.visit hs (htodo _ List.mem_cons_self) hdet
      have hchanged := h.changed hs (htodo _ List.mem_cons_self) hdet hnew
      rw [walk_enter hdet (fun hskip => hchanged hskip.1) (fun hend => hchanged (by rw [hend.1]))]
      rcases ihinner (fun e he => he) h₁ (v :: path) ((v, m.visit u kind v) :: entered) with
        ⟨⟨x, hlead⟩, c, hw⟩ | ⟨m₁, hw, hopen⟩
      · rw [hw]
        exact .inl ⟨⟨x, hlead.append qs⟩, c, rfl⟩
      · rw [hw]
        dsimp only [Except.bind]
        rcases ihrest hlist hopen path entered with ⟨hlead, c, hw'⟩ | ⟨m₂, hw', hopen'⟩
        · rw [hw']
          exact .inl ⟨hlead, c, rfl⟩
        · rw [hw']
          exact .inr ⟨_, rfl, hopen'⟩

theorem foldlM_walk_of_tourFrom (hs : s.SelfRegisteringSources) {us : List (Fin s.size)}
    (htour : s.TourFrom us before after) (h : s.Open m before) :
    ((∃ x, Leads after x x) ∧ ∃ c, us.foldlM (walkFrom s.edges) m = .error (.error c)) ∨
      ∃ m', us.foldlM (walkFrom s.edges) m = .ok m' ∧ s.Open m' after := by
  induction htour generalizing m with
  | nil => exact .inr ⟨m, rfl, h⟩
  | @cons u us before inner after htour hrest ih =>
    rw [List.foldlM_cons, walkFrom]
    rcases walk_of_tour hs htour (fun e he => he) h [u] [(u, m)] with ⟨⟨x, hlead⟩, c, hw⟩ | ⟨m₁, hw, hopen⟩
    · obtain ⟨qs, rfl, -⟩ := hrest.exists_append
      rw [hw]
      exact .inl ⟨⟨x, hlead.append qs⟩, c, rfl⟩
    · rw [hw]
      exact ih hopen

/-- Weights are found if no way of the tour leads back, otherwise a cycle is reported. -/
theorem weigh_of_isTour (hs : s.SelfRegisteringSources) {ps : List (Passage s.size)}
    (htour : s.IsTour ps) :
    ((∃ x, Leads ps x x) ∧ ∃ c, s.weigh = .error (.error (.compileCycle c))) ∨
      (∀ x, ¬ Leads ps x x) ∧ ∃ w, s.weigh = .ok w := by
  rcases foldlM_walk_of_tourFrom hs htour s.open_none with ⟨hlead, c, hw⟩ | ⟨m, hw, hopen⟩
  · refine .inl ⟨hlead, c.map fun u => (s.modules.get u).key, ?_⟩
    rw [weigh, walkAll, hw]
  · refine .inr ⟨hopen.not_leads, ⟨s.bits, m.dependents, m.compileDependents⟩, ?_⟩
    rw [weigh, walkAll, hw]

/-! ### Cycles that are always reported -/

/-- All dependencies on the cycles through a module are compile dependencies. -/
def CompileCyclesOnly (s : ModuleSet) (u : Fin s.size) : Prop :=
  ∀ x y kind, ReflTransGen s.Edge u x → (kind, y) ∈ s.edges x → ReflTransGen s.Edge y u →
    kind = .compile

/-- A cycle through modules that need each other for their compilation only is examined in its
order. -/
theorem IsTour.exists_leads (hs : s.SelfRegisteringSources) {ps : List (Passage s.size)}
    (htour : s.IsTour ps) (hcycle : TransGen s.CompileEdge u u)
    (hcompile : s.CompileCyclesOnly u) : ∃ x, Leads ps x x := by
  obtain ⟨y, hy, -⟩ := TransGen.head'_iff.1 hcycle
  obtain ⟨i, hi⟩ := hs.exists_bit hy
  obtain ⟨v, huv, hvu⟩ := TransGen.tail'_iff.1 hcycle
  refine ⟨u, htour.leads_of_compileEdge hi hvu ?_⟩
  rcases reflTransGen_iff_eq_or_transGen.1 huv with rfl | huv
  · exact .inl rfl
  · refine .inr ⟨TransGen.mono (fun _ _ h => CompileEdge.edge h) _ _ huv, ?_⟩
    -- a path that goes on to `v` goes on along the cycle
    exact fun x z kind hx hxz hz => hcompile x z kind hx hxz (hz.tail hvu.edge)

/-! ### What is reported -/

/-- **A cycle of compile dependencies is reported if and only if the compile dependencies of some cycle
are examined one after the other; otherwise weights are found.**  This is so for every cycle whose
modules share no cycle with other dependencies. -/
theorem compileCycle_iff (s : ModuleSet) (hs : s.SelfRegisteringSources) :
    (∃ ps, s.IsTour ps) ∧
    (∀ ps, s.IsTour ps →
      ((∃ c, s.weigh = .error (.error (.compileCycle c))) ↔ ∃ x, Leads ps x x) ∧
      ((∃ w, s.weigh = .ok w) ↔ ∀ x, ¬ Leads ps x x)) ∧
    ∀ u, TransGen s.CompileEdge u u → s.CompileCyclesOnly u →
      ∃ c, s.weigh = .error (.error (.compileCycle c)) := by
  have hiff (ps : List (Passage s.size)) (htour : s.IsTour ps) :
      ((∃ c, s.weigh = .error (.error (.compileCycle c))) ↔ ∃ x, Leads ps x x) ∧
        ((∃ w, s.weigh = .ok w) ↔ ∀ x, ¬ Leads ps x x) := by
    rcases weigh_of_isTour hs htour with ⟨⟨x, hx⟩, c, hc⟩ | ⟨hnone, w, hw⟩
    · refine ⟨⟨fun _ => ⟨x, hx⟩, fun _ => ⟨c, hc⟩⟩, ⟨?_, fun hnone => absurd hx (hnone x)⟩⟩
      rintro ⟨w, hw⟩
      rw [hw] at hc
      cases hc
    · refine ⟨⟨?_, ?_⟩, ⟨fun _ => hnone, fun _ => ⟨w, hw⟩⟩⟩
      · rintro ⟨c, hc⟩
        rw [hw] at hc
        cases hc
      · rintro ⟨x, hx⟩
        exact absurd hx (hnone x)
  refine ⟨exists_isTour hs, hiff, fun u hcycle hcompile => ?_⟩
  obtain ⟨ps, htour⟩ := exists_isTour hs
  exact (hiff ps htour).1.2 (htour.exists_leads hs hcycle hcompile)

theorem selfRegisteringSources_numbered {n : ℕ} (links : Vector (Dependencies (Fin n)) n) :
    (numbered links).SelfRegisteringSources := by
  intro u _
  rw [modules_get_numbered]
  rfl

/-- Two modules that need each other for their compilation. -/
abbrev mutualCompile : ModuleSet := numbered (n := 2) #v[⟨[1], [], []⟩, ⟨[0], [], []⟩]

theorem mutualCompile_weigh : mutualCompile.SelfRegisteringSources ∧
    ∃ c, mutualCompile.weigh = .error (.error (.compileCycle c)) := by
  have hs : mutualCompile.SelfRegisteringSources := selfRegisteringSources_numbered _
  have h01 : mutualCompile.CompileEdge 0 1 := by decide
  have h10 : mutualCompile.CompileEdge 1 0 := by decide
  have hall : ∀ x, ∀ e ∈ mutualCompile.edges x, e.1 = .compile := by decide
  exact ⟨hs, (compileCycle_iff mutualCompile hs).2.2 0 ((TransGen.single h01).tail h10)
    fun x y kind _ he _ => hall x (kind, y) he⟩

/-- Five modules.  The compile dependencies of 0 on 3, of 3 on 2, of 2 on 1 and of 1 on 0 form a
cycle. -/
abbrev unnoticedCycle : ModuleSet :=
  numbered (n := 5)
    #v[⟨[4, 3], [], []⟩, ⟨[0], [], []⟩, ⟨[4, 1], [4], []⟩, ⟨[2], [1], []⟩, ⟨[], [3], []⟩]

/-- **Weights are found for this set, although it has a cycle of compile dependencies.** -/
theorem unnoticedCycle_weigh : unnoticedCycle.SelfRegisteringSources ∧
    TransGen unnoticedCycle.CompileEdge 0 0 ∧
    ∃ w, unnoticedCycle.weigh = .ok w := by
  refine ⟨selfRegisteringSources_numbered _, ?_, ?_⟩
  · have h03 : unnoticedCycle.CompileEdge 0 3 := by decide
    have h32 : unnoticedCycle.CompileEdge 3 2 := by decide
    have h21 : unnoticedCycle.CompileEdge 2 1 := by decide
    have h10 : unnoticedCycle.CompileEdge 1 0 := by decide
    exact (((TransGen.single h03).tail h32).tail h21).tail h10
  · have hsome : (unnoticedCycle.weighWithin 20 (.ofFn fun u => .singleton u)).isSome = true := by
      decide +kernel
    obtain ⟨w, hw⟩ := Option.isSome_iff_exists.1 hsome
    exact ⟨w, weigh_numbered hw⟩

end ModuleSet

end ScriptBundle

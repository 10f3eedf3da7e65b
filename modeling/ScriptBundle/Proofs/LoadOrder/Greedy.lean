import ScriptBundle.LoadOrder
import ScriptBundle.Proofs.BitSet.Number
import ScriptBundle.Proofs.Module.KeyOrder
import ScriptBundle.Proofs.Sorted.Stable

/-!
# The load order is the greedy one

Priority leaves modules undecided that have the same weights, bits and keys; these are taken in
the order of the set.  At each place of the load order stands the first of the modules that could
stand there: of those that wait for nothing, otherwise of those that wait for nothing for their
compilation, otherwise of all that are left.  This determines the order, and no counter is needed to
say so.

## Main definitions

* `ModuleSet.Precedes`: one module comes first by priority, or by its place.
* `ModuleSet.ReadyAfter`, `ModuleSet.CompileReadyAfter`: a module that waits for nothing when some
  modules are loaded.
* `ModuleSet.Chosen`: the module that a greedy choice takes.
* `ModuleSet.GreedyOrder`: every module of an order is a greedy choice.

## Main results

* `pairwise_byPriority`: the modules by priority stand in the order in which they precede each other.
* `Chosen.unique`: there is only one greedy choice.
* `Sound.chosen_of_next?`: the module that is loaded next is the greedy choice.
* `eq_loadOrder_iff`: **the load order is the only greedy order of all modules.**
-/

namespace ScriptBundle

namespace ModuleSet

/-! ### Which module precedes which -/

section Precedence

variable {s : ModuleSet} {w : Weights s.size} {u v x : Fin s.size}

instance (s : ModuleSet) (w : Weights s.size) : Std.TransCmp (s.priority w) :=
  inferInstanceAs <| Std.TransCmp <|
    compareLex (fun u v => compareOn w.compileDependents.get v u) <|
      compareLex (fun u v => compareOn w.dependents.get v u) <|
        compareLex (compareOn w.bits.get) (compareOn fun u => (s.modules.get u).key)

/-- The module `u` comes before `v` by priority, or by its place if priority does not decide. -/
def Precedes (s : ModuleSet) (w : Weights s.size) (u v : Fin s.size) : Prop :=
  s.priority w u v = .lt ∨ s.priority w u v = .eq ∧ u < v

instance (s : ModuleSet) (w : Weights s.size) (u v : Fin s.size) : Decidable (s.Precedes w u v) :=
  inferInstanceAs (Decidable (_ ∨ _ ∧ _))

theorem Precedes.asymm (h : s.Precedes w u v) : ¬ s.Precedes w v u := Sorted.Ahead.asymm h

/-- **The modules by priority stand in the order in which they precede each other.** -/
theorem pairwise_byPriority (s : ModuleSet) (w : Weights s.size) :
    (s.byPriority w).Pairwise (s.Precedes w) :=
  Sorted.pairwise_mergeSort (List.sortedLT_finRange s.size).pairwise

end Precedence

/-! ### Greedy orders -/

/-- The module is not loaded, but all other modules that it needs are. -/
def ReadyAfter (s : ModuleSet) (before : List (Fin s.size)) (u : Fin s.size) : Prop :=
  u ∉ before ∧ ∀ v, s.needs u v = true → v ∈ before

/-- The module is not loaded, but all other modules that it needs for its compilation are. -/
def CompileReadyAfter (s : ModuleSet) (before : List (Fin s.size)) (u : Fin s.size) : Prop :=
  u ∉ before ∧ ∀ v, s.needsToCompile u v = true → v ∈ before

/-- The module is one of a kind and precedes all others of that kind. -/
def First (s : ModuleSet) (w : Weights s.size) (kind : Fin s.size → Prop) (u : Fin s.size) : Prop :=
  kind u ∧ ∀ v, kind v → v ≠ u → s.Precedes w u v

/-- The greedy choice when some modules are loaded. -/
inductive Chosen (s : ModuleSet) (w : Weights s.size) (before : List (Fin s.size))
    (u : Fin s.size) : Prop
  /-- The first of the modules that wait for nothing. -/
  | ready (h : s.First w (s.ReadyAfter before) u)
  /-- There are none: the first of those that wait for nothing for their compilation. -/
  | compileReady (hr : ∀ v, ¬ s.ReadyAfter before v) (h : s.First w (s.CompileReadyAfter before) u)
  /-- There are none of these either: the first of those that are left. -/
  | left (hr : ∀ v, ¬ s.ReadyAfter before v) (hc : ∀ v, ¬ s.CompileReadyAfter before v)
    (h : s.First w (· ∉ before) u)

/-- Every module of an order is the greedy choice when those in front of it are loaded. -/
def GreedyOrder (s : ModuleSet) (w : Weights s.size) (order : List (Fin s.size)) : Prop :=
  ∀ i (hi : i < order.length), s.Chosen w (order.take i) order[i]

section Decidable

variable (s : ModuleSet) (w : Weights s.size) (before : List (Fin s.size)) (u : Fin s.size)

instance : Decidable (s.ReadyAfter before u) := inferInstanceAs (Decidable (_ ∧ ∀ _, _))

instance : Decidable (s.CompileReadyAfter before u) := inferInstanceAs (Decidable (_ ∧ ∀ _, _))

instance (kind : Fin s.size → Prop) [DecidablePred kind] : Decidable (s.First w kind u) :=
  inferInstanceAs (Decidable (_ ∧ ∀ _, _))

theorem chosen_iff : s.Chosen w before u ↔
    s.First w (s.ReadyAfter before) u ∨ (∀ v, ¬ s.ReadyAfter before v) ∧
      (s.First w (s.CompileReadyAfter before) u ∨
        (∀ v, ¬ s.CompileReadyAfter before v) ∧ s.First w (· ∉ before) u) := by
  constructor
  · intro h
    cases h with
    | ready h => exact .inl h
    | compileReady hr h => exact .inr ⟨hr, .inl h⟩
    | left hr hc h => exact .inr ⟨hr, .inr ⟨hc, h⟩⟩
  · rintro (h | ⟨hr, h | ⟨hc, h⟩⟩)
    · exact .ready h
    · exact .compileReady hr h
    · exact .left hr hc h

instance : Decidable (s.Chosen w before u) := decidable_of_iff' _ (s.chosen_iff w before u)

instance (order : List (Fin s.size)) : Decidable (s.GreedyOrder w order) :=
  inferInstanceAs (Decidable (∀ i, ∀ _ : i < order.length, _))

end Decidable

variable {s : ModuleSet} {w : Weights s.size} {u v : Fin s.size}

theorem First.unique {kind : Fin s.size → Prop} (hu : s.First w kind u) (hv : s.First w kind v) :
    u = v := by
  by_contra hne
  exact (hu.2 v hv.1 (Ne.symm hne)).asymm (hv.2 u hu.1 hne)

theorem First.congr {kind kind' : Fin s.size → Prop} (h : ∀ x, kind x ↔ kind' x)
    (hu : s.First w kind u) : s.First w kind' u :=
  ⟨(h u).1 hu.1, fun v hv => hu.2 v ((h v).2 hv)⟩

theorem Chosen.unique {before : List (Fin s.size)} (hu : s.Chosen w before u)
    (hv : s.Chosen w before v) : u = v := by
  cases hu with
  | ready hu =>
    cases hv with
    | ready hv => exact hu.unique hv
    | compileReady hr _ => exact absurd hu.1 (hr u)
    | left hr _ _ => exact absurd hu.1 (hr u)
  | compileReady hr hu =>
    cases hv with
    | ready hv => exact absurd hv.1 (hr v)
    | compileReady _ hv => exact hu.unique hv
    | left _ hc _ => exact absurd hu.1 (hc u)
  | left hr hc hu =>
    cases hv with
    | ready hv => exact absurd hv.1 (hr v)
    | compileReady _ hv => exact absurd hv.1 (hc v)
    | left _ _ hv => exact hu.unique hv

theorem greedyOrder_nil (s : ModuleSet) (w : Weights s.size) : s.GreedyOrder w [] :=
  fun i hi => absurd hi (Nat.not_lt_zero i)

theorem GreedyOrder.concat {order : List (Fin s.size)} (h : s.GreedyOrder w order)
    (hv : s.Chosen w order v) : s.GreedyOrder w (order ++ [v]) := by
  intro i hi
  rcases Nat.lt_or_ge i order.length with hlt | hge
  · rw [List.take_append_of_le_length hlt.le, List.getElem_append_left hlt]
    exact h i hlt
  · obtain rfl : i = order.length := by
      rw [List.length_append, List.length_singleton] at hi
      omega
    simpa using hv

/-- Greedy orders of the same length are equal. -/
theorem GreedyOrder.unique {order order' : List (Fin s.size)} (h : s.GreedyOrder w order)
    (h' : s.GreedyOrder w order') (hlen : order.length = order'.length) : order = order' := by
  -- after the same modules there is only one choice
  have htake (i : ℕ) : order.take i = order'.take i := by
    induction i with
    | zero => rfl
    | succ i ih =>
      rcases Nat.lt_or_ge i order.length with hi | hi
      · have hi' : i < order'.length := hlen ▸ hi
        have hc := h' i hi'
        rw [← ih] at hc
        rw [List.take_succ_eq_append_getElem hi, List.take_succ_eq_append_getElem hi', ih,
          (h i hi).unique hc]
      · have hi' : order'.length ≤ i := hlen ▸ hi
        rw [List.take_of_length_le hi, List.take_of_length_le hi'] at ih
        rw [List.take_of_length_le (by omega), List.take_of_length_le (by omega), ih]
  have := htake order.length
  rwa [List.take_length, List.take_of_length_le hlen.ge] at this

end ModuleSet

namespace LoadOrder

open ModuleSet

variable {s : ModuleSet} {w : Weights s.size}

/-! ### The next module is the greedy choice -/

theorem precedes_of_rank_lt {u v : Fin s.size}
    (h : (plan s w).rank[u] < (plan s w).rank[v]) : s.Precedes w u v := by
  have hidx : (s.byPriority w).idxOf u < (s.byPriority w).idxOf v := by simpa [plan] using h
  have hu := List.idxOf_lt_length_of_mem (mem_byPriority (w := w) u)
  have hv := List.idxOf_lt_length_of_mem (mem_byPriority (w := w) v)
  have := List.pairwise_iff_getElem.1 (s.pairwise_byPriority w) _ _ hu hv hidx
  rwa [List.getElem_idxOf, List.getElem_idxOf] at this

/-- What is found first by priority precedes whatever else could be found. -/
theorem first_of_find? {test : Fin s.size → Bool} {u : Fin s.size}
    (h : (s.byPriority w).find? test = some u) : s.First w (fun v => test v = true) u := by
  obtain ⟨hu, before, after, hplaces, hbefore⟩ := List.find?_eq_some_iff_append.1 h
  refine ⟨hu, fun v hv hne => ?_⟩
  have hsorted := s.pairwise_byPriority w
  rw [hplaces, List.pairwise_append, List.pairwise_cons] at hsorted
  have hmem : v ∈ before ++ u :: after := hplaces ▸ mem_byPriority v
  rcases List.mem_append.1 hmem with hm | hm
  · -- in front of what is found the test fails
    exact absurd hv (by simpa using hbefore v hm)
  · exact hsorted.2.1.1 v ((List.mem_cons.1 hm).resolve_left hne)

theorem missing_eq_zero_iff {n : ℕ} {needs : Fin n → Fin n → Bool} {p : Progress n} {u : Fin n} :
    missing needs p u = 0 ↔ ∀ v, needs u v = true → p.loaded[v] = true := by
  rw [missing, List.countP_eq_zero]
  constructor
  · intro h v hv
    simpa [hv] using h v (List.mem_finRange v)
  · intro h v _
    simpa using h v

variable {p q : Progress s.size} {u v : Fin s.size}

theorem Sound.notMem_order_iff (h : Sound s (plan s w) [] p) :
    u ∉ p.order ↔ p.loaded[u] = false := by
  rw [← h.loaded, Bool.not_eq_true]

theorem Sound.readyAfter_iff (h : Sound s (plan s w) [] p) :
    s.ReadyAfter p.order u ↔ p.loaded[u] = false ∧ p.pending[u] = 0 := by
  have hp : p.pending[u] = missing s.needs p u := by simpa using h.pending u
  rw [ReadyAfter, h.notMem_order_iff, hp, missing_eq_zero_iff]
  simp only [h.loaded]

theorem Sound.compileReadyAfter_iff (h : Sound s (plan s w) [] p) :
    s.CompileReadyAfter p.order u ↔ p.loaded[u] = false ∧ p.pendingCompile[u] = 0 := by
  have hp : p.pendingCompile[u] = missing s.needsToCompile p u := by
    simpa using h.pendingCompile u
  rw [CompileReadyAfter, h.notMem_order_iff, hp, missing_eq_zero_iff]
  simp only [h.loaded]

/-- The set of the ready modules has the first of them in front. -/
theorem Sound.first_of_ready {r : ℕ} {rest : List (ℕ × Fin s.size)}
    (h : Sound s (plan s w) [] p) (hr : p.ready = (r, v) :: rest) :
    s.First w (s.ReadyAfter p.order) v := by
  have hv := (h.ready r v).1 (by rw [hr]; exact List.mem_cons_self)
  refine ⟨h.readyAfter_iff.2 hv.2, fun u hu hne => precedes_of_rank_lt ?_⟩
  have hmem : ((plan s w).rank[u], u) ∈ p.ready :=
    (h.ready _ u).2 ⟨rfl, h.readyAfter_iff.1 hu⟩
  have hasc := h.ascending
  rw [hr] at hmem hasc
  rcases List.mem_cons.1 hmem with he | hmem
  · exact absurd (Prod.mk.inj he).2 hne
  · have := (List.pairwise_cons.1 hasc).1 _ hmem
    rw [← hv.1]
    exact Nat.compare_eq_lt.1 this

/-- **The module that is loaded next is the greedy choice.** -/
theorem Sound.chosen_of_next? (h : Sound s (plan s w) [] p)
    (hnext : next? (plan s w) p = some (v, q)) : s.Chosen w p.order v := by
  unfold next? at hnext
  split at hnext
  · next r u rest hr =>
    obtain ⟨rfl, -⟩ := Prod.mk.inj (Option.some.inj hnext)
    exact .ready (h.first_of_ready hr)
  · next hr =>
    obtain ⟨u, hu, hq⟩ := Option.map_eq_some_iff.1 hnext
    obtain ⟨rfl, rfl⟩ := Prod.mk.inj hq
    -- the set of the modules that could be loaded holds all of them, so there are none
    have hnone (x : Fin s.size) : ¬ s.ReadyAfter p.order x := by
      intro hx
      have := (h.ready _ x).2 ⟨rfl, h.readyAfter_iff.1 hx⟩
      rw [hr] at this
      cases this
    rcases Option.or_eq_some_iff.1 hu with hu | ⟨hc, hu⟩
    · refine .compileReady hnone (First.congr (fun x => ?_) (first_of_find? hu))
      rw [h.compileReadyAfter_iff]
      simp
    · have hnoneCompile (x : Fin s.size) : ¬ s.CompileReadyAfter p.order x := by
        rw [h.compileReadyAfter_iff]
        simpa using List.find?_eq_none.1 hc x (mem_byPriority x)
      refine .left hnone hnoneCompile (First.congr (fun x => ?_) (first_of_find? hu))
      rw [h.notMem_order_iff]
      simp

/-! ### The whole order -/

/-- There is a next module as long as some module is not loaded. -/
theorem loaded_of_next?_eq_none (hnext : next? (plan s w) p = none) : p.loaded[u] = true := by
  unfold next? at hnext
  split at hnext
  · cases hnext
  · have hleft := (Option.or_eq_none_iff.1 (Option.map_eq_none_iff.1 hnext)).2
    simpa using List.find?_eq_none.1 hleft u (mem_byPriority u)

/-- The modules are loaded in a greedy order, and all of them are. -/
theorem exists_run (s : ModuleSet) (w : Weights s.size) :
    ∃ p, run (plan s w) (start s (plan s w)) = some p ∧ s.GreedyOrder w p.order ∧
      p.order.Perm (List.finRange s.size) := by
  obtain ⟨p, hp, hsound, hgreedy, hend⟩ := (sound_start s w).run_induction
    (P := fun p => s.GreedyOrder w p.order)
    (fun p v q r hsound hgreedy hnext hload => by
      rw [order_of_load hload, (next?_keeps hnext).2]
      exact hgreedy.concat (hsound.chosen_of_next? hnext))
    (s.greedyOrder_nil w)
  refine ⟨p, hp, hgreedy, ?_⟩
  have hsub : p.order.Subperm (List.finRange s.size) :=
    List.subperm_of_subset hsound.nodup fun u _ => List.mem_finRange u
  refine hsub.perm_of_length_le ?_
  by_contra hlt
  rw [List.length_finRange, Nat.not_le] at hlt
  -- otherwise the run has ended because no module is left
  have hall (u : Fin s.size) : u ∈ p.order :=
    (hsound.loaded u).1 (loaded_of_next?_eq_none (hend hlt))
  have := (List.subperm_of_subset (nodup_places s.size) fun u _ => hall u).length_le
  rw [List.length_finRange] at this
  omega

end LoadOrder

namespace ModuleSet

theorem loadOrder_eq {s : ModuleSet} {w : Weights s.size} {p : LoadOrder.Progress s.size}
    (h : LoadOrder.run (LoadOrder.plan s w) (LoadOrder.start s (LoadOrder.plan s w)) = some p) :
    s.loadOrder w = p.order := by
  simp only [loadOrder, h, Option.get_some]

theorem greedyOrder_loadOrder (s : ModuleSet) (w : Weights s.size) :
    s.GreedyOrder w (s.loadOrder w) := by
  obtain ⟨p, hp, hgreedy, -⟩ := LoadOrder.exists_run s w
  rwa [loadOrder_eq hp]

theorem perm_loadOrder (s : ModuleSet) (w : Weights s.size) :
    (s.loadOrder w).Perm (List.finRange s.size) := by
  obtain ⟨p, hp, -, hperm⟩ := LoadOrder.exists_run s w
  rwa [loadOrder_eq hp]

theorem loadOrder_eq_of_greedyOrder {s : ModuleSet} {w : Weights s.size}
    {order : List (Fin s.size)} (hperm : order.Perm (List.finRange s.size))
    (h : s.GreedyOrder w order) : s.loadOrder w = order :=
  (s.greedyOrder_loadOrder w).unique h
    ((s.perm_loadOrder w).length_eq.trans hperm.length_eq.symm)

/-- **No counter is counted down below zero, and the load order is the only greedy order of all
modules.** -/
theorem eq_loadOrder_iff (s : ModuleSet) (w : Weights s.size) :
    (∃ p, LoadOrder.run (LoadOrder.plan s w) (LoadOrder.start s (LoadOrder.plan s w)) = some p ∧
      p.order = s.loadOrder w) ∧
    ∀ order : List (Fin s.size), order = s.loadOrder w ↔
      order.Perm (List.finRange s.size) ∧ s.GreedyOrder w order := by
  constructor
  · obtain ⟨p, hp, -⟩ := LoadOrder.exists_run s w
    exact ⟨p, hp, (loadOrder_eq hp).symm⟩
  · intro order
    constructor
    · rintro rfl
      exact ⟨s.perm_loadOrder w, s.greedyOrder_loadOrder w⟩
    · rintro ⟨hperm, hgreedy⟩
      exact (loadOrder_eq_of_greedyOrder hperm hgreedy).symm

end ModuleSet

end ScriptBundle

import ScriptBundle.LoadOrder.Progress

/-!
# Load order

Modules are loaded after the modules that they need.  Among those that could come next, the one
that is needed most comes first.  Where dependencies form a cycle, a module whose compile
dependencies are loaded is preferred.

At all times a counter is the number of the modules that a module waits for, and the modules that
wait for nothing are found in the set that is kept for them.  While a module is being loaded, this
holds up to those of its dependents that have not noticed.  So no counter is ever counted below zero.

## Main definitions

* `LoadOrder.missing`: how many modules a module waits for.
* `LoadOrder.Sound`: counters, ready modules, marks and order belong together.
* `ModuleSet.loadOrder`: the load order of a set.

## Main results

* `Sound.exists_settle`: a dependent that has not noticed can count down, and then has noticed.
* `sound_start`: all is right before anything is loaded.
* `Sound.run_induction`: a run never counts below zero, keeps all right, and keeps what each single
  step keeps.
* `LoadOrder.isSome_run`: a run comes to its end.
-/

namespace ScriptBundle

namespace LoadOrder

variable {n : Nat}

/-- How many modules that a module waits for are not loaded. -/
def missing (needs : Fin n → Fin n → Bool) (p : Progress n) (u : Fin n) : Nat :=
  (List.finRange n).countP fun v => needs u v && !p.loaded[v]

/-- Counters, ready modules, marks and order belong together, up to the dependents `todo` that have
not counted down yet. -/
structure Sound (s : ModuleSet) (plan : Plan s.size) (todo : List (Fin s.size × Bool))
    (p : Progress s.size) : Prop where
  pending : ∀ u : Fin s.size,
    p.pending[u] = missing s.needs p u + if (todo.map Prod.fst).contains u then 1 else 0
  pendingCompile : ∀ u : Fin s.size,
    p.pendingCompile[u] = missing s.needsToCompile p u + if todo.contains (u, true) then 1 else 0
  ready : ∀ r (u : Fin s.size),
    (r, u) ∈ p.ready ↔ r = plan.rank[u] ∧ p.loaded[u] = false ∧ p.pending[u] = 0
  ascending : Sorted.Ascending p.ready
  loaded : ∀ u : Fin s.size, p.loaded[u] = true ↔ u ∈ p.order
  nodup : p.order.Nodup

/-! ### Ranks -/

theorem mem_byPriority {s : ModuleSet} {w : Weights s.size} (u : Fin s.size) :
    u ∈ s.byPriority w := (List.mergeSort_perm _ _).mem_iff.2 (List.mem_finRange u)

theorem rank_injective (s : ModuleSet) (w : Weights s.size) {u v : Fin s.size}
    (h : (plan s w).rank[u] = (plan s w).rank[v]) : u = v := by
  have hidx : (s.byPriority w).idxOf u = (s.byPriority w).idxOf v := by simpa [plan] using h
  have hget (x : Fin s.size) : (s.byPriority w)[(s.byPriority w).idxOf x]? = some x :=
    List.getElem?_eq_some_iff.2 ⟨List.idxOf_lt_length_of_mem (mem_byPriority x), List.getElem_idxOf _⟩
  have hu := hget u
  rw [hidx, hget v] at hu
  exact (Option.some.inj hu).symm

/-! ### Before anything is loaded -/

theorem mem_foldl_insert (rank : Fin n → Nat) (hrank : ∀ u v, rank u = rank v → u = v)
    {us : List (Fin n)} (hus : us.Nodup) (entries : List (Nat × Fin n))
    (hnew : ∀ u ∈ us, ∀ e ∈ entries, e.1 ≠ rank u) (r : Nat) (u : Fin n) :
    (r, u) ∈ us.foldl (fun entries u => Sorted.insert (rank u) u entries) entries ↔
      (r = rank u ∧ u ∈ us) ∨ (r, u) ∈ entries := by
  induction us generalizing entries with
  | nil => simp
  | cons v us ih =>
    obtain ⟨hv, hus⟩ := List.nodup_cons.1 hus
    have hmem (e : Nat × Fin n) :
        e ∈ Sorted.insert (rank v) v entries ↔ e = (rank v, v) ∨ e ∈ entries :=
      Sorted.mem_insert (hnew v List.mem_cons_self) e
    rw [List.foldl_cons, ih hus, hmem, List.mem_cons, Prod.mk.injEq]
    · constructor
      · rintro (⟨hr, hu⟩ | ⟨rfl, rfl⟩ | he)
        · exact .inl ⟨hr, .inr hu⟩
        · exact .inl ⟨rfl, .inl rfl⟩
        · exact .inr he
      · rintro (⟨rfl, rfl | hu⟩ | he)
        · exact .inr (.inl ⟨rfl, rfl⟩)
        · exact .inl ⟨rfl, hu⟩
        · exact .inr (.inr he)
    · intro u hu e he
      rcases (hmem e).1 he with rfl | he
      · exact fun hr => hv (hrank v u hr ▸ hu)
      · exact hnew u (List.mem_cons_of_mem _ hu) e he

theorem ascending_foldl_insert {rank : Fin n → Nat} {us : List (Fin n)}
    {entries : List (Nat × Fin n)} (h : Sorted.Ascending entries) :
    Sorted.Ascending
      (us.foldl (fun entries u => Sorted.insert (rank u) u entries) entries) := by
  induction us generalizing entries with
  | nil => exact h
  | cons u us ih => exact ih (Sorted.ascending_insert h)

theorem sound_start (s : ModuleSet) (w : Weights s.size) :
    Sound s (plan s w) [] (start s (plan s w)) := by
  refine ⟨fun u => ?_, fun u => ?_, fun r u => ?_, ?_, fun u => ?_, List.nodup_nil⟩
  · simp [start, missing]
  · simp [start, missing]
  · have hnodup := (nodup_places s.size).filter fun u =>
      (start s (plan s w)).pending[u] == 0
    have h := mem_foldl_insert (fun u => (plan s w).rank[u]) (fun _ _ => rank_injective s w) hnodup
      [] (by simp) r u
    simpa [start] using h
  · exact ascending_foldl_insert (by simp [Sorted.Ascending])
  · simp [start]

/-! ### A dependent counts down -/

section Steps

variable {s : ModuleSet} {plan : Plan s.size}

theorem settle_eq_some {p : Progress s.size} {d : Fin s.size × Bool} {a b : Nat}
    (ha : countDown true p.pending[d.1] = some a)
    (hb : countDown d.2 p.pendingCompile[d.1] = some b) :
    settle plan p d = some { p with
      pending := p.pending.set d.1 a d.1.isLt
      pendingCompile := p.pendingCompile.set d.1 b d.1.isLt
      ready :=
        if a == 0 && !p.loaded[d.1] then Sorted.insert plan.rank[d.1] d.1 p.ready else p.ready } := by
  rw [settle, ha, hb]
  rfl

/-- A dependent that has not noticed is not among the ready modules, because it still waits. -/
theorem Sound.notMem_ready {u : Fin s.size} {compile : Bool} {todo : List (Fin s.size × Bool)}
    {p : Progress s.size} (h : Sound s plan ((u, compile) :: todo) p) (r : Nat) :
    (r, u) ∉ p.ready := by
  intro hm
  have hpending := h.pending u
  rw [((h.ready r u).1 hm).2.2] at hpending
  simp at hpending

/-- The ready modules when a dependent waits for `a` modules only. -/
theorem Sound.mem_ready_settle (hrank : ∀ u v : Fin s.size, plan.rank[u] = plan.rank[v] → u = v)
    {u : Fin s.size} {compile : Bool} {todo : List (Fin s.size × Bool)} {p : Progress s.size}
    (h : Sound s plan ((u, compile) :: todo) p) (a r : Nat) (v : Fin s.size) :
    (r, v) ∈ (if a == 0 && !p.loaded[u] then Sorted.insert plan.rank[u] u p.ready else p.ready) ↔
      r = plan.rank[v] ∧ p.loaded[v] = false ∧ (p.pending.set u a u.isLt)[v] = 0 := by
  have hold := h.notMem_ready
  rw [getElem_set_place]
  by_cases hz : (a == 0 && !p.loaded[u]) = true
  · have hnew : ∀ e ∈ p.ready, e.1 ≠ plan.rank[u] := by
      rintro ⟨r, x⟩ he hr
      obtain rfl := hrank x u (((h.ready r x).1 he).1.symm.trans hr)
      exact hold r he
    rw [if_pos hz, Sorted.mem_insert hnew, Prod.mk.injEq]
    rw [Bool.and_eq_true, beq_iff_eq, Bool.not_eq_true'] at hz
    by_cases hv : v = u
    · subst hv
      simp [hold, hz.1, hz.2]
    · simp [hv, h.ready r v]
  · rw [if_neg hz]
    by_cases hv : v = u
    · subst hv
      rw [Bool.and_eq_true, beq_iff_eq, Bool.not_eq_true'] at hz
      simpa [hold] using fun _ hl hm => hz ⟨hm, hl⟩
    · simp [hv, h.ready r v]

/-- A dependent that has not noticed can count down, and then has noticed. -/
theorem Sound.exists_settle (hrank : ∀ u v : Fin s.size, plan.rank[u] = plan.rank[v] → u = v)
    {d : Fin s.size × Bool} {todo : List (Fin s.size × Bool)} {p : Progress s.size}
    (hd : d.1 ∉ todo.map Prod.fst) (h : Sound s plan (d :: todo) p) :
    ∃ q, settle plan p d = some q ∧ Sound s plan todo q := by
  obtain ⟨u, compile⟩ := d
  have hnot (b : Bool) : (u, b) ∉ todo := fun hm => hd (List.mem_map.2 ⟨_, hm, rfl⟩)
  have hpending : p.pending[u] = missing s.needs p u + 1 := by simpa using h.pending u
  -- what is left when the dependent has counted down is what is missing
  have ha : countDown true p.pending[u] = some (missing s.needs p u) := by
    rw [hpending]
    rfl
  have hb : countDown compile p.pendingCompile[u] = some (missing s.needsToCompile p u) := by
    rw [h.pendingCompile u]
    cases compile
    · simp [countDown, hnot]
    · simp [countDown]
  refine ⟨_, settle_eq_some ha hb, ?_, ?_, ?_, ?_, h.loaded, h.nodup⟩
  · refine getElem_set_of_forall (by rw [if_neg (hd ∘ List.contains_iff_mem.1)]; rfl) ?_
    intro v hv
    rw [h.pending v]
    simp [missing, hv]
  · refine getElem_set_of_forall (by rw [if_neg (hnot true ∘ List.contains_iff_mem.1)]; rfl) ?_
    intro v hv
    rw [h.pendingCompile v]
    simp [missing, hv]
  · exact h.mem_ready_settle hrank _
  · by_cases hz : (missing s.needs p u == 0 && !p.loaded[u]) = true
    · simp only [hz, if_true]
      exact Sorted.ascending_insert h.ascending
    · simp only [hz]
      exact h.ascending

/-- All dependents count down one after the other. -/
theorem Sound.exists_foldlM (hrank : ∀ u v : Fin s.size, plan.rank[u] = plan.rank[v] → u = v)
    {todo : List (Fin s.size × Bool)} {p : Progress s.size} (hd : (todo.map Prod.fst).Nodup)
    (h : Sound s plan todo p) : ∃ q, todo.foldlM (settle plan) p = some q ∧ Sound s plan [] q := by
  induction todo generalizing p with
  | nil => exact ⟨p, rfl, h⟩
  | cons d todo ih =>
    obtain ⟨hnot, hd⟩ := List.nodup_cons.1 hd
    obtain ⟨q, hq, hsound⟩ := h.exists_settle hrank hnot
    obtain ⟨r, hr, hsound⟩ := ih hd hsound
    exact ⟨r, by rw [List.foldlM_cons, hq]; exact hr, hsound⟩

/-! ### The module that is loaded next -/

theorem Sound.not_loaded_of_next? {p q : Progress s.size} {v : Fin s.size}
    (h : Sound s plan [] p) (hnext : next? plan p = some (v, q)) : p.loaded[v] = false := by
  unfold next? at hnext
  split at hnext
  · next r u ready hr =>
    obtain ⟨rfl, -⟩ := Prod.mk.inj (Option.some.inj hnext)
    exact ((h.ready r u).1 (by simp [hr])).2.1
  · obtain ⟨u, hu, hq⟩ := Option.map_eq_some_iff.1 hnext
    obtain ⟨rfl, rfl⟩ := Prod.mk.inj hq
    exact loaded_of_forced? hu

/-- What is kept for the rest: the ready modules apart from the one that is loaded. -/
theorem Sound.ready_of_next? {p q : Progress s.size} {v : Fin s.size} (h : Sound s plan [] p)
    (hnext : next? plan p = some (v, q)) :
    ∃ ready, q = { p with ready } ∧ Sorted.Ascending ready ∧
      ∀ r u, (r, u) ∈ ready ↔ (r, u) ∈ p.ready ∧ u ≠ v := by
  unfold next? at hnext
  split at hnext
  · next r v' ready hr =>
    obtain ⟨rfl, rfl⟩ := Prod.mk.inj (Option.some.inj hnext)
    have hasc := h.ascending
    rw [hr] at hasc
    obtain ⟨hfirst, hasc⟩ := List.pairwise_cons.1 hasc
    refine ⟨_, rfl, hasc, fun r' u => ⟨fun hu => ⟨by simp [hr, hu], ?_⟩, ?_⟩⟩
    · rintro rfl
      have h₁ := (h.ready r u).1 (by simp [hr])
      have h₂ := (h.ready r' u).1 (by rw [hr]; exact List.mem_cons_of_mem _ hu)
      have := hfirst _ hu
      rw [h₁.1, h₂.1] at this
      simp at this
    · rintro ⟨hu, hne⟩
      rw [hr] at hu
      rcases List.mem_cons.1 hu with he | hu
      · exact absurd (Prod.mk.inj he).2 hne
      · exact hu
  · next hr =>
    obtain ⟨v', -, hq⟩ := Option.map_eq_some_iff.1 hnext
    obtain ⟨rfl, rfl⟩ := Prod.mk.inj hq
    exact ⟨_, rfl, h.ascending, by simp [hr]⟩

end Steps

/-! ### Runs -/

section Runs

variable {s : ModuleSet} {w : Weights s.size}

theorem mem_dependentsOf {u v : Fin s.size} {b : Bool} :
    (u, b) ∈ s.dependentsOf v ↔ s.needs u v = true ∧ b = s.needsToCompile u v := by
  simp only [ModuleSet.dependentsOf, List.mem_map, List.mem_filter, Prod.mk.injEq]
  constructor
  · rintro ⟨u, ⟨-, hu⟩, rfl, rfl⟩
    exact ⟨hu, rfl⟩
  · rintro ⟨hu, rfl⟩
    exact ⟨u, ⟨List.mem_finRange u, hu⟩, rfl, rfl⟩

theorem map_fst_dependentsOf (v : Fin s.size) :
    (s.dependentsOf v).map Prod.fst = (List.finRange s.size).filter fun u => s.needs u v := by
  simp [ModuleSet.dependentsOf, Function.comp_def]

/-- One module more is loaded, and those that wait for it wait for one module less. -/
theorem missing_mark {needs : Fin n → Fin n → Bool} {p : Progress n} {v : Fin n}
    (hv : p.loaded[v] = false) (u : Fin n) :
    missing needs p u = missing needs (mark p v) u + if needs u v then 1 else 0 := by
  have h := countP_eq_add (p := fun x => needs u x && !p.loaded[x])
    (q := fun x => needs u x && !(mark p v).loaded[x]) (nodup_places n) (List.mem_finRange v)
    (fun x hx => by simp only [mark, getElem_set_place, if_neg hx])
    (by simp [mark])
  simpa [missing, hv] using h

theorem Sound.mark {p q : Progress s.size} {v : Fin s.size} (h : Sound s (plan s w) [] p)
    (hnext : next? (plan s w) p = some (v, q)) :
    Sound s (plan s w) (s.dependentsOf v) (mark q v) := by
  have hv := h.not_loaded_of_next? hnext
  have hvo : v ∉ p.order := fun hm => by simp [(h.loaded v).2 hm] at hv
  obtain ⟨ready, rfl, hasc, hready⟩ := h.ready_of_next? hnext
  refine ⟨fun u => ?_, fun u => ?_, fun r u => ?_, hasc, fun u => ?_, ?_⟩
  · have hp : p.pending[u] = missing s.needs p u := by simpa using h.pending u
    have hu : ((s.dependentsOf v).map Prod.fst).contains u = true ↔ s.needs u v = true := by
      simp [map_fst_dependentsOf]
    show p.pending[u] = _
    rw [hp, missing_mark hv]
    simp only [hu]
    rfl
  · have hp : p.pendingCompile[u] = missing s.needsToCompile p u := by
      simpa using h.pendingCompile u
    have hu : (s.dependentsOf v).contains (u, true) = true ↔ s.needsToCompile u v = true := by
      rw [List.contains_iff_mem, mem_dependentsOf]
      exact ⟨fun hm => hm.2.symm, fun hc => ⟨s.needs_of_needsToCompile hc, hc.symm⟩⟩
    show p.pendingCompile[u] = _
    rw [hp, missing_mark hv]
    simp only [hu]
    rfl
  · show (r, u) ∈ ready ↔ r = _ ∧ (p.loaded.set v true)[u] = false ∧ p.pending[u] = 0
    rw [hready, h.ready, getElem_set_place]
    by_cases huv : u = v
    · simp [huv]
    · simp [huv]
  · show (p.loaded.set v true)[u] = true ↔ u ∈ p.order ++ [v]
    rw [getElem_set_place, List.mem_append, List.mem_singleton, ← h.loaded]
    by_cases huv : u = v
    · simp [huv]
    · simp [huv]
  · refine List.nodup_append.2 ⟨h.nodup, by simp, ?_⟩
    rintro u hu x hx rfl
    rw [List.mem_singleton.1 hx] at hu
    exact hvo hu

/-- The next module is loaded, and all is right again. -/
theorem Sound.exists_load {p q : Progress s.size} {v : Fin s.size} (h : Sound s (plan s w) [] p)
    (hnext : next? (plan s w) p = some (v, q)) :
    ∃ r, load (plan s w) q v = some r ∧ Sound s (plan s w) [] r := by
  have hd : ((s.dependentsOf v).map Prod.fst).Nodup := by
    rw [map_fst_dependentsOf]
    exact (nodup_places s.size).filter _
  have hdep : (plan s w).dependents[v] = s.dependentsOf v := by simp [plan]
  rw [load, hdep]
  exact (h.mark hnext).exists_foldlM (fun _ _ => rank_injective s w) hd

/-- A run never counts below zero, keeps all right, and keeps what each single step keeps. -/
theorem Sound.run_induction {P : Progress s.size → Prop}
    (step : ∀ p v q r, Sound s (plan s w) [] p → P p → next? (plan s w) p = some (v, q) →
      load (plan s w) q v = some r → P r)
    {p : Progress s.size} (h : Sound s (plan s w) [] p) (hP : P p) :
    ∃ q, run (plan s w) p = some q ∧ Sound s (plan s w) [] q ∧ P q ∧
      (q.order.length < s.size → next? (plan s w) q = none) := by
  -- a module that is loaded next was not loaded before, so that every step loads one
  fun_induction run (plan s w) p with
  | case1 p hlt hnext => exact ⟨p, rfl, h, hP, fun _ => hnext⟩
  | case2 p hlt v q hnext hv ih =>
    rw [(next?_keeps hnext).1, h.not_loaded_of_next? hnext] at hv
    cases hv
  | case3 p hlt v q hnext hv hload =>
    obtain ⟨r, hr, -⟩ := h.exists_load hnext
    rw [hr] at hload
    cases hload
  | case4 p hlt v q hnext hv r hload ih =>
    obtain ⟨r', hr, hsound⟩ := h.exists_load hnext
    obtain rfl : r' = r := by
      rw [hr] at hload
      exact Option.some.inj hload
    exact ih hsound (step p v q r' h hP hnext hload)
  | case5 p hge => exact ⟨p, rfl, h, hP, fun hlt => absurd hlt hge⟩

end Runs

end LoadOrder

/-! ### The order -/

theorem LoadOrder.isSome_run (s : ModuleSet) (w : Weights s.size) :
    (run (plan s w) (start s (plan s w))).isSome = true := by
  obtain ⟨q, hq, -⟩ := (sound_start s w).run_induction (P := fun _ => True)
    (fun _ _ _ _ _ _ _ _ => trivial) trivial
  rw [hq]
  rfl

/-- The load order of the modules of a set. -/
def ModuleSet.loadOrder (s : ModuleSet) (w : Weights s.size) : List (Fin s.size) :=
  let plan := LoadOrder.plan s w
  ((LoadOrder.run plan (LoadOrder.start s plan)).get (LoadOrder.isSome_run s w)).order

end ScriptBundle

import ScriptBundle.Proofs.Module.Reach
import ScriptBundle.Proofs.Weight.Bits

/-!
# The tour through the dependencies

The walk that finds weights examines one dependency after the other, some of them many times.
Which one comes next depends on the weights alone, not on the compile weights, and not on the kinds
of the dependencies.  The list of the dependencies that have been examined says everything about
the walk.

## Main definitions

* `Passage`: a dependency that is examined.
* `ModuleSet.reached`: the bits that have reached each module when some dependencies have been
  examined.
* `ModuleSet.Tour`: the dependencies that are examined when those of one module are.
* `ModuleSet.IsTour`: the dependencies that are examined when those of all modules are.
* `ModuleSet.Settled`: a dependency has been examined since its source was reached by new bits.

## Main results

* `reached_sound`: a bit that reaches a module comes from another one that leads to it.
* `IsTour.unique`: there is one tour only.
* `IsTour.settled`: in the end no dependency has to be examined again.
* `IsTour.contains_reached_iff`: **the bits of all other modules that lead to a module reach it.**
-/

namespace ScriptBundle

open Relation

/-- The bits that have reached `source` are carried along a dependency to `target`. -/
structure Passage (n : ℕ) where
  source : Fin n
  kind : DependencyKind
  target : Fin n
  deriving DecidableEq

namespace ModuleSet

/-- The bits that have reached the modules when they are carried along one more dependency. -/
def carry (s : ModuleSet) (d : Vector BitSet s.size) (p : Passage s.size) : Vector BitSet s.size :=
  d.set p.target (d[p.target] ∪ Marks.lessOwn (d[p.source] ∪ s.bits[p.source]) s.bits[p.target])
    p.target.isLt

/-- The bits that have reached the modules when some dependencies have been examined. -/
def reached (s : ModuleSet) (ps : List (Passage s.size)) : Vector BitSet s.size :=
  ps.foldl s.carry (.replicate s.size ∅)

/-- The dependencies that have been examined `before` the dependencies `todo` of the module `u` are,
and those that have been examined `after` them.  A module is entered when it is reached by new
bits, or when nothing is carried to it. -/
inductive Tour (s : ModuleSet) : Fin s.size → List (DependencyKind × Fin s.size) →
    List (Passage s.size) → List (Passage s.size) → Prop
  | nil {u before} : Tour s u [] before before
  | skip {u kind v todo before after}
      (hsame : (s.reached (before ++ [⟨u, kind, v⟩]))[v] = (s.reached before)[v])
      (hout : ((s.reached before)[u] ∪ s.bits[u]).isEmpty = false)
      (hrest : Tour s u todo (before ++ [⟨u, kind, v⟩]) after) :
      Tour s u ((kind, v) :: todo) before after
  | enter {u kind v todo before inner after}
      (hnew : (s.reached (before ++ [⟨u, kind, v⟩]))[v] ≠ (s.reached before)[v] ∨
        ((s.reached before)[u] ∪ s.bits[u]).isEmpty = true)
      (hinner : Tour s v (s.edges v) (before ++ [⟨u, kind, v⟩]) inner)
      (hrest : Tour s u todo inner after) :
      Tour s u ((kind, v) :: todo) before after

/-- The same for all dependencies of some modules. -/
inductive TourFrom (s : ModuleSet) : List (Fin s.size) →
    List (Passage s.size) → List (Passage s.size) → Prop
  | nil {before} : TourFrom s [] before before
  | cons {u us before inner after} (htour : Tour s u (s.edges u) before inner)
      (hrest : TourFrom s us inner after) : TourFrom s (u :: us) before after

/-- The dependencies that are examined when those of all modules are. -/
def IsTour (s : ModuleSet) (ps : List (Passage s.size)) : Prop :=
  s.TourFrom (List.finRange s.size) [] ps

/-- The dependency that is examined is a dependency of the set. -/
def HasPassage (s : ModuleSet) (p : Passage s.size) : Prop := (p.kind, p.target) ∈ s.edges p.source

variable {s : ModuleSet} {u v x : Fin s.size} {i : ℕ}

theorem HasPassage.edge {p : Passage s.size} (h : s.HasPassage p) : s.Edge p.source p.target :=
  ⟨p.kind, h⟩

/-! ### The bits that have reached a module -/

theorem reached_concat (ps : List (Passage s.size)) (p : Passage s.size) :
    s.reached (ps ++ [p]) = s.carry (s.reached ps) p := by
  rw [reached, List.foldl_append]
  rfl

theorem contains_reached_concat (ps : List (Passage s.size)) (p : Passage s.size) :
    (s.reached (ps ++ [p]))[v].contains i = true ↔
      (s.reached ps)[v].contains i = true ∨ v = p.target ∧ s.bits[v].contains i = false ∧
        ((s.reached ps)[p.source].contains i = true ∨ s.bits[p.source].contains i = true) := by
  rw [reached_concat, carry, getElem_set_place]
  by_cases hv : v = p.target
  · subst hv
    rw [if_pos rfl, BitSet.contains_union, Bool.or_eq_true, s.ownBits.contains_lessOwn,
      BitSet.contains_union, Bool.or_eq_true, and_iff_right rfl, and_comm]
  · rw [if_neg hv]
    exact ⟨.inl, fun h => h.resolve_right fun h' => hv h'.1⟩

theorem reached_concat_of_ne (ps : List (Passage s.size)) {p : Passage s.size}
    (h : v ≠ p.target) : (s.reached (ps ++ [p]))[v] = (s.reached ps)[v] := by
  rw [reached_concat, carry, getElem_set_place, if_neg h]

/-- What a module carries to others does not change what has reached it. -/
theorem reached_concat_source (ps : List (Passage s.size)) (p : Passage s.size) :
    (s.reached (ps ++ [p]))[p.source] = (s.reached ps)[p.source] := by
  by_cases hp : p.source = p.target
  · refine BitSet.ext fun i => Bool.eq_iff_iff.2 ?_
    rw [contains_reached_concat]
    constructor
    · rintro (h | ⟨-, hown, h | h⟩)
      · exact h
      · exact h
      · rw [hown] at h
        cases h
    · exact .inl
  · exact reached_concat_of_ne ps hp

/-- What has reached a module stays there. -/
theorem contains_reached_append {ps : List (Passage s.size)} (qs : List (Passage s.size))
    (h : (s.reached ps)[v].contains i = true) :
    (s.reached (ps ++ qs))[v].contains i = true := by
  induction qs generalizing ps with
  | nil => rwa [List.append_nil]
  | cons q qs ih =>
    rw [List.append_cons]
    exact ih ((contains_reached_concat ps q).2 (.inl h))

/-- A bit that reaches a module comes from another one that leads to it. -/
theorem reached_sound {ps : List (Passage s.size)} (hps : ∀ p ∈ ps, s.HasPassage p)
    (h : (s.reached ps)[v].contains i = true) :
    s.bits[v].contains i = false ∧ ∃ x, s.bits[x].contains i = true ∧ TransGen s.Edge x v := by
  induction ps using List.reverseRecOn generalizing v with
  | nil => simp [reached] at h
  | append_singleton ps p ih =>
    have hp := (hps p (by simp)).edge
    have ih {v : Fin s.size} := @ih v fun q hq => hps q (List.mem_append_left _ hq)
    rcases (contains_reached_concat ps p).1 h with h | ⟨rfl, hown, h | h⟩
    · exact ih h
    · obtain ⟨x, hx, hxp⟩ := (ih h).2
      exact ⟨hown, x, hx, hxp.tail hp⟩
    · exact ⟨hown, p.source, h, .single hp⟩

/-! ### The passages of a tour -/

theorem Tour.exists_append {todo : List (DependencyKind × Fin s.size)}
    {before after : List (Passage s.size)} (h : s.Tour u todo before after)
    (htodo : ∀ e ∈ todo, e ∈ s.edges u) :
    ∃ ps, after = before ++ ps ∧ ∀ p ∈ ps, s.HasPassage p := by
  induction h with
  | nil => exact ⟨[], by simp⟩
  | @skip u kind v todo before after _ _ _ ih =>
    obtain ⟨ps, rfl, hps⟩ := ih fun e he => htodo e (List.mem_cons_of_mem _ he)
    refine ⟨⟨u, kind, v⟩ :: ps, by simp, ?_⟩
    exact List.forall_mem_cons.2 ⟨htodo _ List.mem_cons_self, hps⟩
  | @enter u kind v todo before inner after _ _ _ ihinner ihrest =>
    obtain ⟨ps, rfl, hps⟩ := ihinner fun e he => he
    obtain ⟨qs, rfl, hqs⟩ := ihrest fun e he => htodo e (List.mem_cons_of_mem _ he)
    refine ⟨⟨u, kind, v⟩ :: ps ++ qs, by simp, fun p hp => ?_⟩
    rcases List.mem_append.1 hp with hp | hp
    · rcases List.mem_cons.1 hp with rfl | hp
      · exact htodo _ List.mem_cons_self
      · exact hps p hp
    · exact hqs p hp

/-! ### All dependencies are settled -/

/-- The dependency has been examined since its source was reached by new bits for the last time. -/
def Settled (s : ModuleSet) (ps : List (Passage s.size)) (u : Fin s.size)
    (e : DependencyKind × Fin s.size) : Prop :=
  ∃ before after, ps = before ++ ⟨u, e.1, e.2⟩ :: after ∧ (s.reached before)[u] = (s.reached ps)[u]

theorem Settled.append {ps : List (Passage s.size)} {e : DependencyKind × Fin s.size}
    (h : s.Settled ps u e) {qs : List (Passage s.size)}
    (hqs : (s.reached (ps ++ qs))[u] = (s.reached ps)[u]) : s.Settled (ps ++ qs) u e := by
  obtain ⟨before, after, rfl, hbefore⟩ := h
  exact ⟨before, after ++ qs, by simp, hbefore.trans hqs.symm⟩

/-- A dependency that has just been examined is settled, like those of the same module that were. -/
theorem settled_concat {ps : List (Passage s.size)} {done : List (DependencyKind × Fin s.size)}
    (h : ∀ e ∈ done, s.Settled ps u e) (kind : DependencyKind) (v : Fin s.size) :
    ∀ e ∈ done ++ [(kind, v)], s.Settled (ps ++ [⟨u, kind, v⟩]) u e := by
  -- also if the module depends on itself, nothing new has reached it
  have hsource := reached_concat_source ps ⟨u, kind, v⟩
  intro e he
  rcases List.mem_append.1 he with he | he
  · exact (h e he).append hsource
  · rw [List.mem_singleton.1 he]
    exact ⟨ps, [], rfl, hsource.symm⟩

/-- A module whose dependencies are settled, or that is reached by new bits, has settled
dependencies later on. -/
def Settles (s : ModuleSet) (ps qs : List (Passage s.size)) : Prop :=
  ∀ u, ((∀ e ∈ s.edges u, s.Settled ps u e) ∨ (s.reached qs)[u] ≠ (s.reached ps)[u]) →
    ∀ e ∈ s.edges u, s.Settled qs u e

theorem Settles.trans {ps qs rs : List (Passage s.size)} (h : s.Settles ps qs)
    (h' : s.Settles qs rs) : s.Settles ps rs := by
  intro u hu
  rcases hu with hu | hu
  · exact h' u (.inl (h u (.inl hu)))
  · by_cases hqs : (s.reached qs)[u] = (s.reached ps)[u]
    · exact h' u (.inr (by rwa [hqs]))
    · exact h' u (.inl (h u (.inr hqs)))

theorem settles_refl (ps : List (Passage s.size)) : s.Settles ps ps := by
  intro u hu
  rcases hu with hu | hu
  · exact hu
  · exact absurd rfl hu

/-- While `v` is entered, what happens to other modules happens behind the dependency on `v`. -/
theorem Settles.of_concat {ps qs : List (Passage s.size)} {kind : DependencyKind}
    (h : s.Settles (ps ++ [⟨u, kind, v⟩]) qs) (hv : (∀ e ∈ s.edges v, s.Settled qs v e) ∨
      (s.reached (ps ++ [⟨u, kind, v⟩]))[v] = (s.reached ps)[v]) : s.Settles ps qs := by
  intro x hx
  by_cases hxv : (s.reached (ps ++ [⟨u, kind, v⟩]))[x] = (s.reached ps)[x]
  · refine h x ?_
    rcases hx with hx | hx
    · exact .inl fun e he => (hx e he).append hxv
    · exact .inr (by rwa [hxv])
  · -- only `v` is reached by new bits along the dependency itself
    obtain rfl : x = v := by
      by_contra hne
      exact hxv (reached_concat_of_ne ps hne)
    exact hv.resolve_right hxv

/-- When the dependencies `todo` of a module have been examined, all its dependencies are settled, if
the other ones were; and so are those of the modules that have been entered. -/
theorem Tour.settles {todo : List (DependencyKind × Fin s.size)} {before after}
    (h : s.Tour u todo before after) :
    s.Settles before after ∧ ∀ done, s.edges u = done ++ todo →
      (∀ e ∈ done, s.Settled before u e) → ∀ e ∈ s.edges u, s.Settled after u e := by
  induction h with
  | @nil u before =>
    refine ⟨settles_refl before, ?_⟩
    intro done hdone hset
    rwa [hdone, List.append_nil]
  | @skip u kind v todo before after hsame _ _ ih =>
    refine ⟨ih.1.of_concat (.inr hsame), ?_⟩
    intro done hdone hset
    rw [List.append_cons] at hdone
    exact ih.2 _ hdone (settled_concat hset kind v)
  | @enter u kind v todo before inner after _ hinner _ ihinner ihrest =>
    have hv : ∀ e ∈ s.edges v, s.Settled inner v e := ihinner.2 [] rfl (by simp)
    refine ⟨(ihinner.1.of_concat (.inl hv)).trans ihrest.1, ?_⟩
    intro done hdone hset
    rw [List.append_cons] at hdone
    refine ihrest.2 _ hdone ?_
    intro e he
    obtain ⟨ps, rfl, -⟩ := hinner.exists_append fun e he => he
    by_cases hu : (s.reached (before ++ [⟨u, kind, v⟩] ++ ps))[u]
        = (s.reached (before ++ [⟨u, kind, v⟩]))[u]
    · exact (settled_concat hset kind v e he).append hu
    · -- `u` itself has been entered again in the meantime
      refine ihinner.1 u (.inr hu) e ?_
      rw [hdone]
      exact List.mem_append_left _ he

/-! ### The tour through all modules -/

theorem TourFrom.exists_append {us : List (Fin s.size)} {before after : List (Passage s.size)}
    (h : s.TourFrom us before after) :
    ∃ ps, after = before ++ ps ∧ ∀ p ∈ ps, s.HasPassage p := by
  induction h with
  | nil => exact ⟨[], by simp⟩
  | cons htour _ ih =>
    obtain ⟨ps, rfl, hps⟩ := htour.exists_append fun e he => he
    obtain ⟨qs, rfl, hqs⟩ := ih
    refine ⟨ps ++ qs, by simp, fun p hp => ?_⟩
    exact (List.mem_append.1 hp).elim (hps p) (hqs p)

theorem TourFrom.settles {us : List (Fin s.size)} {before after : List (Passage s.size)}
    (h : s.TourFrom us before after) :
    s.Settles before after ∧ ∀ u ∈ us, ∀ e ∈ s.edges u, s.Settled after u e := by
  induction h with
  | @nil before => exact ⟨settles_refl before, by simp⟩
  | cons htour _ ih =>
    refine ⟨htour.settles.1.trans ih.1, ?_⟩
    intro x hx
    rcases List.mem_cons.1 hx with rfl | hx
    · exact ih.1 x (.inl (htour.settles.2 [] rfl (by simp)))
    · exact ih.2 x hx

/-- The dependencies that are examined are dependencies of the set. -/
theorem IsTour.hasPassage {ps : List (Passage s.size)} (h : s.IsTour ps) {p : Passage s.size}
    (hp : p ∈ ps) : s.HasPassage p := by
  obtain ⟨qs, rfl, hqs⟩ := TourFrom.exists_append h
  exact hqs p hp

/-- Which dependencies are examined is determined by those that have been examined before. -/
theorem Tour.unique {todo : List (DependencyKind × Fin s.size)} {before after after'}
    (h : s.Tour u todo before after) (h' : s.Tour u todo before after') : after = after' := by
  induction h generalizing after' with
  | nil =>
    cases h'
    rfl
  | skip hsame hout _ ih =>
    cases h' with
    | skip _ _ hrest' => exact ih hrest'
    | enter hnew _ _ =>
      rcases hnew with hnew | hempty
      · exact absurd hsame hnew
      · rw [hout] at hempty
        cases hempty
  | enter hnew _ _ ihinner ihrest =>
    cases h' with
    | skip hsame hout _ =>
      rcases hnew with hnew | hempty
      · exact absurd hsame hnew
      · rw [hout] at hempty
        cases hempty
    | enter _ hinner' hrest' =>
      obtain rfl := ihinner hinner'
      exact ihrest hrest'

theorem TourFrom.unique {us : List (Fin s.size)} {before after after'}
    (h : s.TourFrom us before after) (h' : s.TourFrom us before after') : after = after' := by
  induction h generalizing after' with
  | nil =>
    cases h'
    rfl
  | cons htour _ ih =>
    cases h' with
    | cons htour' hrest' =>
      obtain rfl := htour.unique htour'
      exact ih hrest'

/-- There is one tour only. -/
theorem IsTour.unique {ps qs : List (Passage s.size)} (h : s.IsTour ps) (h' : s.IsTour qs) :
    ps = qs := TourFrom.unique h h'

/-- In the end no dependency has to be examined again. -/
theorem IsTour.settled {ps : List (Passage s.size)} (h : s.IsTour ps)
    {e : DependencyKind × Fin s.size} (he : e ∈ s.edges u) : s.Settled ps u e :=
  (TourFrom.settles h).2 u (List.mem_finRange u) e he

/-- What a module carries on has reached all modules that it needs. -/
theorem IsTour.contains_of_edge {ps : List (Passage s.size)} (h : s.IsTour ps) (huv : s.Edge u v)
    (hi : (s.reached ps)[u].contains i = true ∨ s.bits[u].contains i = true)
    (hown : s.bits[v].contains i = false) : (s.reached ps)[v].contains i = true := by
  obtain ⟨kind, he⟩ := huv
  obtain ⟨before, after, hps, hbefore⟩ := h.settled he
  rw [← hbefore] at hi
  rw [hps, List.append_cons]
  exact contains_reached_append after
    ((contains_reached_concat before _).2 (.inr ⟨rfl, hown, hi⟩))

/-- **The bits of all other modules that lead to a module reach it.** -/
theorem IsTour.contains_reached_iff {ps : List (Passage s.size)} (h : s.IsTour ps) :
    (s.reached ps)[v].contains i = true ↔
      s.bits[v].contains i = false ∧ ∃ x, s.bits[x].contains i = true ∧ TransGen s.Edge x v := by
  refine ⟨fun hi => reached_sound (fun p hp => h.hasPassage hp) hi, ?_⟩
  rintro ⟨hown, x, hx, hxv⟩
  induction hxv with
  | single hxv => exact h.contains_of_edge hxv (.inr hx) hown
  | @tail u v _ huv ih =>
    refine h.contains_of_edge huv ?_ hown
    -- the bit of `u` itself is carried on even though it does not reach `u`
    cases hu : s.bits[u].contains i
    · exact .inl (ih hu)
    · exact .inr rfl

end ModuleSet

end ScriptBundle

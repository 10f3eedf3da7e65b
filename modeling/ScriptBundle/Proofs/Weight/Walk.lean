import ScriptBundle.Proofs.Weight.Leads
import ScriptBundle.Weight.Walk

/-!
# Weights are what reaches a module

A walk that ends with marks has made a tour through the dependencies, and the marks belong to that
tour.  So the weight of a module can be told without the walk.

## Main results

* `tour_of_walk`: a walk that ends with marks has made a tour.
* `exists_tour_of_weigh`: weights belong to a tour through the dependencies of all modules.
* `walk_keeps`: a walk keeps what every visit keeps.
* `contains_dependents_iff`: **the weight of a module consists of the bits of all other modules that
  lead to it.**
-/

namespace ScriptBundle.ModuleSet

open Relation

variable {s : ModuleSet} {w : Weights s.size} {u v : Fin s.size} {i : ℕ}

/-- A walk that ends with marks has made a tour. -/
theorem tour_of_walk {path : List (Fin s.size)} {entered : List (Fin s.size × Marks s.bits)}
    {todo : List (DependencyKind × Fin s.size)} {m : Marks s.bits} {m' : MoreMarks m}
    (h : walk s.edges path entered u todo m = .ok m')
    {before : List (Passage s.size)} (hm : s.Follows m before) :
    ∃ after, s.Tour u todo before after ∧ s.Follows m'.1 after := by
  -- the induction follows the walk; of its cases those are left that end with marks
  fun_induction walk s.edges path entered u todo m generalizing before with
  | case1 path entered u m =>
    cases h
    exact ⟨before, .nil, hm⟩
  | case4 path entered u m kind v todo _ hdet hskip m₁ h₁ hrest ih =>
    cases h
    have hm₁ := hm.visit hdet
    obtain ⟨after, htour, hafter⟩ := ih hrest hm₁
    rw [hm₁.dependents, hm.dependents] at hskip
    refine ⟨after, .skip hskip.1 ?_ htour, hafter⟩
    simpa [Marks.outgoing, hm.dependents] using hskip.2
  | case8 path entered u m kind v todo _ hdet hskip hend m₁ h₁ hinner m₂ h₂ hrest ihinner ihrest =>
    cases h
    have hm₁ := hm.visit hdet
    obtain ⟨inner, htour, hm₁'⟩ := ihinner hinner hm₁
    obtain ⟨after, htour', hafter⟩ := ihrest hrest hm₁'
    rw [hm₁.dependents, hm.dependents] at hskip
    refine ⟨after, .enter ?_ htour htour', hafter⟩
    rw [or_iff_not_imp_left]
    intro hsame
    simpa [Marks.outgoing, hm.dependents, Classical.not_not.1 hsame] using hskip
  | _ => cases h

theorem tour_of_walkFrom {m m' : Marks s.bits} (h : walkFrom s.edges m u = .ok m')
    {before : List (Passage s.size)} (hm : s.Follows m before) :
    ∃ after, s.Tour u (s.edges u) before after ∧ s.Follows m' after := by
  unfold walkFrom at h
  cases hw : walk s.edges [u] [(u, m)] u (s.edges u) m with
  | error failure =>
    rw [hw] at h
    cases h
  | ok m₁ =>
    rw [hw] at h
    cases h
    exact tour_of_walk hw hm

theorem tourFrom_of_foldlM {us : List (Fin s.size)} {m m' : Marks s.bits}
    (h : us.foldlM (walkFrom s.edges) m = .ok m') {before : List (Passage s.size)}
    (hm : s.Follows m before) : ∃ after, s.TourFrom us before after ∧ s.Follows m' after := by
  induction us generalizing m before with
  | nil =>
    cases h
    exact ⟨before, .nil, hm⟩
  | cons u us ih =>
    rw [List.foldlM_cons] at h
    cases hw : walkFrom s.edges m u with
    | error failure =>
      rw [hw] at h
      cases h
    | ok m₁ =>
      rw [hw] at h
      obtain ⟨inner, htour, hm₁⟩ := tour_of_walkFrom hw hm
      obtain ⟨after, hrest, hafter⟩ := ih h hm₁
      exact ⟨after, .cons htour hrest, hafter⟩

/-- Weights are the marks with which the walk through all modules ends. -/
theorem exists_marks_of_weigh (h : s.weigh = .ok w) : ∃ m,
    (List.finRange s.size).foldlM (walkFrom s.edges) (.none s.bits) = .ok m ∧
      w = ⟨s.bits, m.dependents, m.compileDependents⟩ := by
  unfold weigh at h
  cases hw : walkAll s.edges s.bits with
  | error failure =>
    rw [hw] at h
    cases failure <;> cases h
  | ok m =>
    rw [hw] at h
    exact ⟨m, hw, (Except.ok.inj h).symm⟩

/-- Weights belong to a tour through the dependencies of all modules. -/
theorem exists_tour_of_weigh (h : s.weigh = .ok w) :
    ∃ m ps, s.IsTour ps ∧ s.Follows m ps ∧ w = ⟨s.bits, m.dependents, m.compileDependents⟩ := by
  obtain ⟨m, hw, rfl⟩ := exists_marks_of_weigh h
  obtain ⟨ps, htour, hm⟩ := tourFrom_of_foldlM hw s.follows_none
  exact ⟨m, ps, htour, hm, rfl⟩

/-! ### What every visit keeps -/

/-- A walk keeps what every visit that reveals no cycle keeps. -/
theorem walk_keeps {P : Marks s.bits → Prop}
    (hvisit : ∀ m u kind v, P m → ¬ (m.compileOutgoing u kind).intersects s.bits[v] = true →
      P (m.visit u kind v))
    {path : List (Fin s.size)} {entered : List (Fin s.size × Marks s.bits)}
    {todo : List (DependencyKind × Fin s.size)} {m : Marks s.bits} {m' : MoreMarks m}
    (h : walk s.edges path entered u todo m = .ok m') (hm : P m) : P m'.1 := by
  fun_induction walk s.edges path entered u todo m with
  | case1 path entered u m =>
    cases h
    exact hm
  | case4 path entered u m kind v todo _ hdet hskip m₁ h₁ hrest ih =>
    cases h
    exact ih hrest (hvisit m u kind v hm hdet)
  | case8 path entered u m kind v todo _ hdet hskip hend m₁ h₁ hinner m₂ h₂ hrest ihinner ihrest =>
    cases h
    exact ihrest hrest (ihinner hinner (hvisit m u kind v hm hdet))
  | _ => cases h

theorem foldlM_walk_keeps {P : Marks s.bits → Prop}
    (hvisit : ∀ m u kind v, P m → ¬ (m.compileOutgoing u kind).intersects s.bits[v] = true →
      P (m.visit u kind v))
    {us : List (Fin s.size)} {m m' : Marks s.bits}
    (h : us.foldlM (walkFrom s.edges) m = .ok m') (hm : P m) : P m' := by
  induction us generalizing m with
  | nil =>
    cases h
    exact hm
  | cons u us ih =>
    rw [List.foldlM_cons, walkFrom] at h
    cases hw : walk s.edges [u] [(u, m)] u (s.edges u) m with
    | error failure =>
      rw [hw] at h
      cases h
    | ok m₁ =>
      rw [hw] at h
      exact ih h (walk_keeps hvisit hw hm)

/-- A module does not count among those that need it for their compilation. -/
theorem compileDependents_own (h : s.weigh = .ok w) (hi : s.bits[v].contains i = true) :
    w.compileDependents[v].contains i = false := by
  have hkeeps (m : Marks s.bits) (u : Fin s.size) (kind : DependencyKind) (x : Fin s.size)
      (hm : ∀ (v : Fin s.size) (i : ℕ), s.bits[v].contains i = true →
        m.compileDependents[v].contains i = false)
      (v : Fin s.size) (i : ℕ) (hi : s.bits[v].contains i = true) :
      (m.visit u kind x).compileDependents[v].contains i = false := by
    simp only [Marks.visit, getElem_set_place]
    by_cases hv : v = x
    · -- of what comes in, the module leaves out its own bit
      subst hv
      rw [if_pos rfl, BitSet.contains_union, hm v i hi, Bool.false_or, ← Bool.not_eq_true,
        s.ownBits.contains_lessOwn, hi]
      exact fun hown => Bool.noConfusion hown.2
    · rw [if_neg hv]
      exact hm v i hi
  obtain ⟨m, hm, rfl⟩ := exists_marks_of_weigh h
  exact foldlM_walk_keeps (fun m u kind x hm _ => hkeeps m u kind x hm) hm
    (by simp [Marks.none]) v i hi

/-! ### What the weights consist of -/

/-- **The weight of a module consists of the bits of all other modules that lead to it.** -/
theorem contains_dependents_iff (h : s.weigh = .ok w) :
    w.dependents[v].contains i = true ↔
      s.bits[v].contains i = false ∧ ∃ x, s.bits[x].contains i = true ∧ TransGen s.Edge x v := by
  obtain ⟨m, ps, htour, hm, rfl⟩ := exists_tour_of_weigh h
  simp only [hm.dependents]
  exact htour.contains_reached_iff

end ScriptBundle.ModuleSet

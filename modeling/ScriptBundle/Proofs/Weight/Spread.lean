import ScriptBundle.Proofs.Weight.Leads

/-!
# Bits that have spread

While a module is on the path of the walk, its bit is on the way.  When the walk leaves the module, its bit
has come wherever it can come, and each module that has it has passed it on along all its dependencies.
From then on it comes nowhere else.

## Main definitions

* `ModuleSet.PassesOn`: a module passes on the bit of another one, or its own.
* `ModuleSet.Spread`: the bit of a module has been passed on along all dependencies of the modules that
  have it.
* `ModuleSet.Quiet`: the bits of the modules that are not on a path have spread, or have not set out.

## Main results

* `Spread.append`: a bit that has spread remains so.
* `spread_of_tour`: the bit of a module has spread when its dependencies have been examined.
* `Tour.quiet`: **what is off the path of the walk has spread.**
-/

namespace ScriptBundle.ModuleSet

open Relation

variable {s : ModuleSet} {u v x : Fin s.size} {i : ℕ} {ps before after : List (Passage s.size)}
  {path : List (Fin s.size)} {todo : List (DependencyKind × Fin s.size)}

/-! ### Passing a bit on -/

/-- The module `x` passes on the bit of `v`: it is `v` itself, or the bit has come there. -/
def PassesOn (s : ModuleSet) (v : Fin s.size) (ps : List (Passage s.size)) (x : Fin s.size) : Prop :=
  ∃ i, s.bits[v].contains i = true ∧ (x = v ∨ (s.reached ps)[x].contains i = true)

theorem PassesOn.append (h : s.PassesOn v ps x) (qs : List (Passage s.size)) : s.PassesOn v (ps ++ qs) x := by
  obtain ⟨i, hi, hx⟩ := h
  exact ⟨i, hi, hx.imp_right (contains_reached_append qs)⟩

/-- Along a dependency a bit comes to its target, unless the target has it anyway. -/
theorem PassesOn.target {p : Passage s.size} (h : s.PassesOn v ps p.source) :
    s.PassesOn v (ps ++ [p]) p.target := by
  obtain ⟨i, hi, hsource⟩ := h
  refine ⟨i, hi, or_iff_not_imp_left.2 fun hne => ?_⟩
  have hown : s.bits[p.target].contains i = false := by
    rw [← Bool.not_eq_true]
    exact fun htarget => hne (s.ownBits.distinct p.target v i htarget hi)
  refine (contains_reached_concat ps p).2 (.inr ⟨rfl, hown, ?_⟩)
  rcases hsource with hsource | hsource
  · exact .inr (hsource ▸ hi)
  · exact .inl hsource

/-- A bit comes to a module along a dependency of a module that passes it on. -/
theorem passesOn_concat {p : Passage s.size} (h : s.PassesOn v (ps ++ [p]) x) :
    s.PassesOn v ps x ∨ x = p.target ∧ s.PassesOn v ps p.source := by
  obtain ⟨i, hi, rfl | hx⟩ := h
  · exact .inl ⟨i, hi, .inl rfl⟩
  · rcases (contains_reached_concat ps p).1 hx with hx | ⟨rfl, -, hsource | hsource⟩
    · exact .inl ⟨i, hi, .inr hx⟩
    · exact .inr ⟨rfl, i, hi, .inr hsource⟩
    · exact .inr ⟨rfl, i, hi, .inl (s.ownBits.distinct p.source v i hsource hi)⟩

/-- A bit sets out from its module. -/
theorem exists_source_of_contains (hi : s.bits[v].contains i = true)
    (h : (s.reached ps)[x].contains i = true) : ∃ p ∈ ps, p.source = v := by
  induction ps using List.reverseRecOn generalizing x with
  | nil => simp [reached] at h
  | append_singleton ps p ih =>
    rcases (contains_reached_concat ps p).1 h with h | ⟨-, -, h | h⟩
    · obtain ⟨q, hq, hv⟩ := ih h
      exact ⟨q, List.mem_append_left _ hq, hv⟩
    · obtain ⟨q, hq, hv⟩ := ih h
      exact ⟨q, List.mem_append_left _ hq, hv⟩
    · exact ⟨p, by simp, s.ownBits.distinct p.source v i h hi⟩

/-! ### Bits that have spread -/

/-- The bit of `v` has been passed on along all dependencies of the modules that have it. -/
def Spread (s : ModuleSet) (v : Fin s.size) (ps : List (Passage s.size)) : Prop :=
  ∀ x, s.PassesOn v ps x → ∀ e ∈ s.edges x,
    ∃ before after, ps = before ++ ⟨x, e.1, e.2⟩ :: after ∧ s.PassesOn v before x

/-- A bit that has spread comes to no other module. -/
theorem Spread.passesOn_of_concat (h : s.Spread v ps) {p : Passage s.size} (hp : s.HasPassage p)
    (hx : s.PassesOn v (ps ++ [p]) x) : s.PassesOn v ps x := by
  rcases passesOn_concat hx with hx | ⟨rfl, hsource⟩
  · exact hx
  · obtain ⟨before, after, hps, hbefore⟩ := h p.source hsource _ hp
    have htarget := PassesOn.target (p := ⟨p.source, p.kind, p.target⟩) hbefore
    rw [hps, List.append_cons]
    exact htarget.append after

theorem Spread.append (h : s.Spread v ps) {qs : List (Passage s.size)}
    (hqs : ∀ p ∈ qs, s.HasPassage p) : s.Spread v (ps ++ qs) := by
  induction qs using List.reverseRecOn with
  | nil => rwa [List.append_nil]
  | append_singleton qs p ih =>
    have hspread := ih fun q hq => hqs q (List.mem_append_left _ hq)
    have hp : s.HasPassage p := hqs p (by simp)
    intro x hx e he
    rw [← List.append_assoc] at hx ⊢
    obtain ⟨before, after, heq, hbefore⟩ := hspread x (hspread.passesOn_of_concat hp hx) e he
    exact ⟨before, after ++ [p], by rw [heq, List.append_assoc, List.cons_append], hbefore⟩

/-- The bit of a module has spread when its dependencies have been examined for the first time. -/
theorem spread_of_tour (hnone : ∀ p ∈ before, p.source ≠ v) (htour : s.Tour v (s.edges v) before after) :
    s.Spread v after := by
  obtain ⟨hsettles, hv⟩ := htour.settles
  rintro x ⟨i, hi, hx⟩ e he
  have hsettled : s.Settled after x e := by
    rcases hx with rfl | hx
    · exact hv [] rfl (by simp) e he
    · -- the bit has come there in the meantime
      refine hsettles x (.inr fun hsame => ?_) e he
      rw [hsame] at hx
      obtain ⟨p, hp, hsource⟩ := exists_source_of_contains hi hx
      exact hnone p hp hsource
  obtain ⟨earlier, later, heq, hsame⟩ := hsettled
  exact ⟨earlier, later, heq, i, hi, hx.imp_right fun hx => by rwa [hsame]⟩

/-- A bit that has spread has come to all modules to which its module leads. -/
theorem Spread.passesOn (h : s.Spread v ps) (hi : s.bits[v].contains i = true)
    (hx : ReflTransGen s.Edge v x) : s.PassesOn v ps x := by
  induction hx with
  | refl => exact ⟨i, hi, .inl rfl⟩
  | @tail x y _ hxy ih =>
    obtain ⟨kind, he⟩ := hxy
    obtain ⟨before, after, rfl, hbefore⟩ := h x ih _ he
    have htarget := PassesOn.target (p := ⟨x, kind, y⟩) hbefore
    rw [List.append_cons]
    exact htarget.append after

/-! ### What is off the path -/

/-- The bits of the modules that are not on a path have spread, or have not set out. -/
def Quiet (s : ModuleSet) (path : List (Fin s.size)) (ps : List (Passage s.size)) : Prop :=
  ∀ v, v ∉ path → (∀ p ∈ ps, p.source ≠ v) ∨ s.Spread v ps

theorem quiet_nil (path : List (Fin s.size)) : s.Quiet path [] := by
  intro v _
  exact .inl fun p hp => absurd hp List.not_mem_nil

theorem Quiet.mono (h : s.Quiet path ps) {longer : List (Fin s.size)} (hsub : path ⊆ longer) :
    s.Quiet longer ps := fun v hv => h v fun hmem => hv (hsub hmem)

/-- Modules off the path remain quiet when a dependency of a module on the path is examined. -/
theorem Quiet.concat (h : s.Quiet path ps) {p : Passage s.size} (hp : s.HasPassage p)
    (hpath : p.source ∈ path) : s.Quiet path (ps ++ [p]) := by
  intro v hv
  rcases h v hv with hnone | hspread
  · refine .inl fun q hq => ?_
    rcases List.mem_append.1 hq with hq | hq
    · exact hnone q hq
    · rw [List.mem_singleton.1 hq]
      rintro rfl
      exact hv hpath
  · exact .inr (hspread.append (by simpa using hp))

/-- A module that the walk leaves is quiet like the others, if it was so when it was entered. -/
theorem Quiet.leave (h : s.Quiet (v :: path) after) (hbefore : s.Quiet path before)
    (htour : s.Tour v (s.edges v) before after) : s.Quiet path after := by
  intro x hx
  by_cases hxv : x = v
  · subst hxv
    refine .inr ?_
    rcases hbefore x hx with hnone | hspread
    · exact spread_of_tour hnone htour
    · obtain ⟨ps, rfl, hps⟩ := htour.exists_append fun e he => he
      exact hspread.append hps
  · exact h x (by simp [hx, hxv])

/-- **What is off the path of the walk has spread, or has not set out.** -/
theorem Tour.quiet (htour : s.Tour u todo before after) (htodo : ∀ e ∈ todo, e ∈ s.edges u)
    (hpath : u ∈ path) (h : s.Quiet path before) : s.Quiet path after := by
  induction htour generalizing path with
  | nil => exact h
  | @skip u kind v todo before after _ _ _ ih =>
    have hp : s.HasPassage ⟨u, kind, v⟩ := htodo _ List.mem_cons_self
    exact ih (fun e he => htodo e (List.mem_cons_of_mem _ he)) hpath (h.concat hp hpath)
  | @enter u kind v todo before inner after _ hinner _ ihinner ihrest =>
    have hp : s.HasPassage ⟨u, kind, v⟩ := htodo _ List.mem_cons_self
    have hentered := h.concat hp hpath
    have hleft := ihinner (fun e he => he) List.mem_cons_self (hentered.mono (List.subset_cons_self v path))
    exact ihrest (fun e he => htodo e (List.mem_cons_of_mem _ he)) hpath (hleft.leave hentered hinner)

end ScriptBundle.ModuleSet

import Mathlib.Data.Fintype.Card
import Mathlib.Data.Fintype.EquivFin
import Mathlib.Logic.Relation
import Mathlib.Order.WellFounded
import ScriptBundle.LoadOrder.Progress

/-!
# Along the dependencies

What a module needs directly or through others, and what must be found in a finite graph: an end of
a path that meets no cycle, and a part of the graph that no path leaves.

## Main definitions

* `LeadsAway`: a path leads from one place to another one, but none leads back.
* `ModuleSet.Edge`, `ModuleSet.CompileEdge`: one module depends on another one or on itself.

## Main results

* `exists_sink`: without cycles some element of a set has no successor in it.
* `exists_bottom`: from every place a path leads to one to which all paths that go on come back.
-/

namespace ScriptBundle

open Relation

/-! ### Finite graphs -/

section Finite

variable {α : Type*} [Finite α] {r : α → α → Prop}

/-- If no element of a nonempty set lies on a cycle, some element has no successor in the set. -/
theorem exists_sink {P : α → Prop} (h : ∀ a, P a → ¬ TransGen r a a) {a : α} (ha : P a) :
    ∃ b, P b ∧ ∀ c, r b c → ¬ P c := by
  -- paths within the set come to an end
  have : IsTrans {a // P a} (flip (TransGen fun x y => r x.1 y.1)) :=
    ⟨fun _ _ _ hab hbc => hbc.trans hab⟩
  have : Std.Irrefl (flip (TransGen fun x y : {a // P a} => r x.1 y.1)) :=
    ⟨fun x hx => h x.1 x.2 (TransGen.lift Subtype.val (fun _ _ hxy => hxy) _ _ hx)⟩
  have hwf := Finite.wellFounded_of_trans_of_irrefl
    (flip (TransGen fun x y : {a // P a} => r x.1 y.1))
  obtain ⟨b, -, hmin⟩ := hwf.has_min Set.univ ⟨⟨a, ha⟩, trivial⟩
  exact ⟨b.1, b.2, fun c hbc hc => hmin ⟨c, hc⟩ trivial (.single hbc)⟩

/-- A path leads from one place to another one, but none leads back. -/
def LeadsAway (r : α → α → Prop) (a b : α) : Prop := ReflTransGen r a b ∧ ¬ ReflTransGen r b a

instance (r : α → α → Prop) : IsTrans α (LeadsAway r) :=
  ⟨fun _ _ _ hab hbc => ⟨hab.1.trans hbc.1, fun hca => hbc.2 (hca.trans hab.1)⟩⟩

/-- From every place a path leads to one to which all paths that go on come back. -/
theorem exists_bottom (r : α → α → Prop) (a : α) :
    ∃ b, ReflTransGen r a b ∧ ∀ c, ReflTransGen r b c → ReflTransGen r c b := by
  have hacyclic (b : α) (_ : ReflTransGen r a b) : ¬ TransGen (LeadsAway r) b b := by
    rw [transGen_eq_self]
    exact fun hb => hb.2 hb.1
  obtain ⟨b, hb, hend⟩ := exists_sink hacyclic .refl
  refine ⟨b, hb, ?_⟩
  intro c hc
  by_contra hcb
  exact hend c ⟨hc, hcb⟩ (hb.trans hc)

end Finite

/-- A graph in which every step leads to a smaller number has no cycles. -/
theorem not_transGen_of_rank {α : Type*} {r : α → α → Prop} (rank : α → ℕ)
    (h : ∀ a b, r a b → rank b < rank a) (a : α) : ¬ TransGen r a a := by
  have hlt (b : α) (hab : TransGen r a b) : rank b < rank a := by
    induction hab with
    | single hab => exact h _ _ hab
    | tail _ hbc ih => exact (h _ _ hbc).trans ih
  exact fun ha => lt_irrefl _ (hlt a ha)

/-- A path does not leave a set that no step leaves. -/
theorem mem_of_transGen {α : Type*} {r : α → α → Prop} {P : α → Prop}
    (h : ∀ a b, P a → r a b → P b) {a b : α} (hab : TransGen r a b) (ha : P a) : P b := by
  induction hab with
  | single hab => exact h _ _ ha hab
  | tail _ hbc ih => exact h _ _ ih hbc

/-! ### The graph of a set of modules -/

namespace ModuleSet

variable {s : ModuleSet} {u v : Fin s.size}

/-- The module `u` depends on the module `v`. -/
def Edge (s : ModuleSet) (u v : Fin s.size) : Prop := ∃ kind, (kind, v) ∈ s.edges u

/-- The module `u` depends on the module `v` for its compilation. -/
def CompileEdge (s : ModuleSet) (u v : Fin s.size) : Prop :=
  (DependencyKind.compile, v) ∈ s.edges u

theorem mem_edges {kind : DependencyKind} :
    (kind, v) ∈ s.edges u ↔ v ∈ (s.links.get u).get kind :=
  Dependencies.mem_entries

instance (s : ModuleSet) (u v : Fin s.size) : Decidable (s.Edge u v) :=
  decidable_of_iff (∃ e ∈ s.edges u, e.2 = v)
    ⟨fun ⟨e, he, hv⟩ => ⟨e.1, hv ▸ he⟩, fun ⟨kind, he⟩ => ⟨(kind, v), he, rfl⟩⟩

instance (s : ModuleSet) (u v : Fin s.size) : Decidable (s.CompileEdge u v) :=
  inferInstanceAs (Decidable (_ ∈ _))

theorem CompileEdge.edge (h : s.CompileEdge u v) : s.Edge u v := ⟨_, h⟩

theorem needs_iff : s.needs u v = true ↔ u ≠ v ∧ s.Edge u v := by
  rw [needs, Bool.and_eq_true, bne_iff_ne, List.any_eq_true, Edge]
  refine and_congr_right fun _ => ⟨?_, ?_⟩
  · rintro ⟨⟨kind, x⟩, he, hx⟩
    obtain rfl : x = v := eq_of_beq hx
    exact ⟨kind, he⟩
  · rintro ⟨kind, he⟩
    exact ⟨(kind, v), he, beq_self_eq_true v⟩

theorem needsToCompile_iff : s.needsToCompile u v = true ↔ u ≠ v ∧ s.CompileEdge u v := by
  rw [needsToCompile, Bool.and_eq_true, bne_iff_ne, List.contains_iff_mem, CompileEdge, mem_edges]
  rfl

end ModuleSet

end ScriptBundle

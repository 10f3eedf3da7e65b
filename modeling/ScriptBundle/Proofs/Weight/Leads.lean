import ScriptBundle.Proofs.Weight.Tour

/-!
# Compile dependencies that are examined one after the other

A compile weight grows when a compile dependency is examined, but nothing is examined once more
because a compile weight has grown.  So the bit of a module reaches another one only if the compile
dependencies on a way between them are examined one after the other, in the order in which they
stand on the way.

## Main definitions

* `Way`: compile dependencies that lead from one module to another one.
* `Leads`: the dependencies of such a way are examined one after the other.
* `ModuleSet.Follows`: marks that belong to the dependencies that have been examined.
* `ModuleSet.CompileOnly`: all dependencies on the paths between two modules are compile dependencies.

## Main results

* `leads_concat`: the ways that end with the dependency that is examined last.
* `Follows.visit`: a visit that reveals no cycle keeps marks and dependencies together.
* `Follows.intersects_iff`: **a visit reveals a cycle if and only if a way leads back to where it
  started.**
* `IsTour.leads_of_compileEdge`: ways that every tour follows.
-/

namespace ScriptBundle

variable {n : ℕ}

/-- Compile dependencies that lead from one module to another one. -/
inductive Way : List (Passage n) → Fin n → Fin n → Prop
  | single {u v} : Way [⟨u, .compile, v⟩] u v
  | concat {way x u v} (h : Way way x u) : Way (way ++ [⟨u, .compile, v⟩]) x v

/-- Among the dependencies that have been examined are those of a way from `x` to `v`, in the order
in which they stand on the way. -/
def Leads (ps : List (Passage n)) (x v : Fin n) : Prop := ∃ way, Way way x v ∧ way.Sublist ps

variable {ps : List (Passage n)} {x v : Fin n}

theorem not_leads_nil : ¬ Leads [] x v := by
  rintro ⟨way, hway, hsub⟩
  obtain rfl := List.sublist_nil.1 hsub
  generalize hnil : ([] : List (Passage n)) = way at hway
  cases hway with
  | single => cases hnil
  | concat => simp at hnil

theorem Leads.append (h : Leads ps x v) (qs : List (Passage n)) : Leads (ps ++ qs) x v := by
  obtain ⟨way, hway, hsub⟩ := h
  exact ⟨way, hway, hsub.trans (List.sublist_append_left ps qs)⟩

/-- The ways that end with the dependency that is examined last. -/
theorem leads_concat (ps : List (Passage n)) (p : Passage n) (x v : Fin n) :
    Leads (ps ++ [p]) x v ↔
      Leads ps x v ∨ p.kind = .compile ∧ v = p.target ∧ (x = p.source ∨ Leads ps x p.source) := by
  constructor
  · rintro ⟨way, hway, hsub⟩
    -- the last dependency belongs to the way, or it does not
    obtain ⟨front, back, rfl, hfront, hback⟩ := List.sublist_append_iff.1 hsub
    rcases List.sublist_singleton.1 hback with rfl | rfl
    · rw [List.append_nil] at hway
      exact .inl ⟨front, hway, hfront⟩
    · generalize hway' : front ++ [p] = way at hway
      cases hway with
      | single =>
        obtain ⟨-, hp⟩ := List.append_inj' (hway'.trans (List.nil_append _).symm) rfl
        obtain rfl := List.singleton_inj.1 hp
        exact .inr ⟨rfl, rfl, .inl rfl⟩
      | concat h =>
        obtain ⟨rfl, hp⟩ := List.append_inj' hway' rfl
        obtain rfl := List.singleton_inj.1 hp
        exact .inr ⟨rfl, rfl, .inr ⟨_, h, hfront⟩⟩
  · rintro (h | ⟨hkind, rfl, hx⟩)
    · exact h.append [p]
    · obtain ⟨u, kind, v⟩ := p
      obtain rfl : kind = .compile := hkind
      rcases hx with rfl | ⟨way, hway, hsub⟩
      · exact ⟨_, .single, List.sublist_append_right ps _⟩
      · exact ⟨_, hway.concat, hsub.append (List.Sublist.refl _)⟩

/-! ### Marks that belong to the examined dependencies -/

namespace ModuleSet

open Relation

variable {s : ModuleSet}

/-- The marks when some dependencies have been examined. -/
structure Follows (s : ModuleSet) (m : Marks s.bits) (ps : List (Passage s.size)) : Prop where
  dependents : m.dependents = s.reached ps
  compileDependents : ∀ (v : Fin s.size) (i : ℕ),
    m.compileDependents[v].contains i = true ↔
      ∃ x, s.bits[x].contains i = true ∧ Leads ps x v

theorem follows_none (s : ModuleSet) : s.Follows (.none s.bits) [] where
  dependents := rfl
  compileDependents v i := by simp [Marks.none, not_leads_nil]

variable {m : Marks s.bits} {ps : List (Passage s.size)} {u v : Fin s.size}

theorem Follows.contains_compileOutgoing (h : s.Follows m ps) (u : Fin s.size)
    (kind : DependencyKind) (i : ℕ) :
    (m.compileOutgoing u kind).contains i = true ↔ kind = .compile ∧
      ∃ x, s.bits[x].contains i = true ∧ (x = u ∨ Leads ps x u) := by
  cases kind with
  | compile =>
    rw [Marks.compileOutgoing, BitSet.contains_union, Bool.or_eq_true, h.compileDependents]
    constructor
    · rintro (⟨x, hx, hlead⟩ | hu)
      · exact ⟨rfl, x, hx, .inr hlead⟩
      · exact ⟨rfl, u, hu, .inl rfl⟩
    · rintro ⟨-, x, hx, rfl | hlead⟩
      · exact .inr hx
      · exact .inl ⟨x, hx, hlead⟩
  | launch => simp [Marks.compileOutgoing]
  | optional => simp [Marks.compileOutgoing]

/-- **A visit reveals a cycle if and only if a way leads back to where it started.** -/
theorem Follows.intersects_iff (h : s.Follows m ps) (u : Fin s.size) (kind : DependencyKind)
    (v : Fin s.size) :
    (m.compileOutgoing u kind).intersects s.bits[v] = true ↔
      (∃ i, s.bits[v].contains i = true) ∧ kind = .compile ∧ (v = u ∨ Leads ps v u) := by
  rw [BitSet.intersects_iff]
  constructor
  · rintro ⟨i, hi, hv⟩
    obtain ⟨hkind, x, hx, hlead⟩ := (h.contains_compileOutgoing u kind i).1 hi
    -- a bit that comes to the module that has it has set out from there
    obtain rfl : x = v := s.ownBits.distinct x v i hx hv
    exact ⟨⟨i, hv⟩, hkind, hlead⟩
  · rintro ⟨⟨i, hv⟩, hkind, hlead⟩
    exact ⟨i, (h.contains_compileOutgoing u kind i).2 ⟨hkind, v, hv, hlead⟩, hv⟩

/-- A visit that reveals no cycle keeps marks and dependencies together. -/
theorem Follows.visit (h : s.Follows m ps) {kind : DependencyKind}
    (hdet : ¬ (m.compileOutgoing u kind).intersects s.bits[v] = true) :
    s.Follows (m.visit u kind v) (ps ++ [⟨u, kind, v⟩]) where
  dependents := by
    rw [reached_concat, ← h.dependents]
    rfl
  compileDependents x i := by
    simp only [Marks.visit, getElem_set_place, leads_concat]
    by_cases hx : x = v
    · subst hx
      rw [if_pos rfl, Marks.lessOwn, if_neg hdet, BitSet.contains_union, Bool.or_eq_true,
        h.compileDependents, h.contains_compileOutgoing]
      constructor
      · rintro (⟨y, hy, hlead⟩ | ⟨hkind, y, hy, hlead⟩)
        · exact ⟨y, hy, .inl hlead⟩
        · exact ⟨y, hy, .inr ⟨hkind, rfl, hlead⟩⟩
      · rintro ⟨y, hy, hlead | ⟨hkind, -, hlead⟩⟩
        · exact .inl ⟨y, hy, hlead⟩
        · exact .inr ⟨hkind, y, hy, hlead⟩
    · rw [if_neg hx, h.compileDependents]
      simp [hx]

/-! ### Bits that come along compile dependencies only -/

/-- Compile dependencies lead along a way. -/
theorem transGen_of_way {way : List (Passage s.size)} (h : Way way u v)
    (hway : ∀ p ∈ way, s.HasPassage p) : TransGen s.CompileEdge u v := by
  induction h with
  | single => exact .single (hway _ List.mem_cons_self)
  | @concat way x u v _ ih =>
    have hlast : s.CompileEdge u v := hway ⟨u, .compile, v⟩ (by simp)
    exact (ih fun p hp => hway p (List.mem_append_left _ hp)).tail hlast

/-- What leads from one module to another one are compile dependencies. -/
theorem transGen_of_leads (hps : ∀ p ∈ ps, s.HasPassage p) (h : Leads ps u v) :
    TransGen s.CompileEdge u v := by
  obtain ⟨way, hway, hsub⟩ := h
  exact transGen_of_way hway fun p hp => hps p (hsub.subset hp)

/-- All dependencies on the paths from one module to another one are compile dependencies. -/
def CompileOnly (s : ModuleSet) (x v : Fin s.size) : Prop :=
  ∀ u y kind, ReflTransGen s.Edge x u → (kind, y) ∈ s.edges u → ReflTransGen s.Edge y v →
    kind = .compile

/-- If only compile dependencies lead from one module to another one, its bit comes there along
ways of the tour. -/
theorem leads_of_contains (hps : ∀ p ∈ ps, s.HasPassage p) {x : Fin s.size} {i : ℕ}
    (hi : s.bits[x].contains i = true) (hcompile : s.CompileOnly x v)
    (h : (s.reached ps)[v].contains i = true) : Leads ps x v := by
  induction ps using List.reverseRecOn generalizing v with
  | nil => simp [reached] at h
  | append_singleton ps p ih =>
    have hp : s.HasPassage p := hps p (by simp)
    have hps' : ∀ q ∈ ps, s.HasPassage q := fun q hq => hps q (List.mem_append_left _ hq)
    rcases (contains_reached_concat ps p).1 h with h | ⟨rfl, -, h | h⟩
    · exact (ih hps' hcompile h).append [p]
    · obtain ⟨-, y, hy, hyp⟩ := reached_sound hps' h
      obtain rfl := s.ownBits.distinct y x i hy hi
      have hkind := hcompile _ _ _ hyp.to_reflTransGen hp .refl
      have hlead := ih hps' (fun a b kind ha hab hb => hcompile a b kind ha hab (hb.tail hp.edge)) h
      exact (leads_concat ps p _ _).2 (.inr ⟨hkind, rfl, .inr hlead⟩)
    · obtain rfl := s.ownBits.distinct p.source x i h hi
      have hkind := hcompile _ _ _ .refl hp .refl
      exact (leads_concat ps p _ _).2 (.inr ⟨hkind, rfl, .inl rfl⟩)

/-- A compile dependency of `u` ends a way from `u`, and from each module with a bit from which only
compile dependencies lead to `u`. -/
theorem IsTour.leads_of_compileEdge (h : s.IsTour ps) {x : Fin s.size} {i : ℕ}
    (hi : s.bits[x].contains i = true) (huv : s.CompileEdge u v)
    (hxu : x = u ∨ TransGen s.Edge x u ∧ s.CompileOnly x u) : Leads ps x v := by
  obtain ⟨before, after, rfl, hbefore⟩ := h.settled huv
  have hlead : x = u ∨ Leads before x u := by
    by_cases hne : x = u
    · exact .inl hne
    · -- the bit has come to `u` when the dependency is examined for the last time
      obtain ⟨hpath, hcompile⟩ := hxu.resolve_left hne
      have hpassages : ∀ p ∈ before, s.HasPassage p :=
        fun p hp => h.hasPassage (List.mem_append_left _ hp)
      refine .inr (leads_of_contains hpassages hi hcompile ?_)
      rw [hbefore, h.contains_reached_iff]
      refine ⟨?_, x, hi, hpath⟩
      cases hu : s.bits[u].contains i
      · rfl
      · exact absurd (s.ownBits.distinct x u i hi hu) hne
  have hback : Leads (before ++ [⟨u, .compile, v⟩]) x v :=
    (leads_concat before _ x v).2 (.inr ⟨rfl, rfl, hlead⟩)
  rw [List.append_cons]
  exact hback.append after

end ModuleSet

end ScriptBundle

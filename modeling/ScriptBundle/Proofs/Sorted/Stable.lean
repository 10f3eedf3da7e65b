import Mathlib.Data.List.Sort
import ScriptBundle.Places

/-!
# Sorted places

A comparison need not tell all places apart.  When places are sorted by it, those that it does not tell
apart stay in their order, so that the sorted list stands in a strict order after all.

## Main definitions

* `Ahead`: one place comes first by a comparison, or by its number where the comparison does not decide.

## Main results

* `pairwise_mergeSort`: **sorted places stand in this order.**
* `idxOf_lt_idxOf_iff`, `idxOf_eq_countP`: where an element of a list in a strict order stands.
-/

namespace ScriptBundle.Sorted

variable {n : ℕ} {cmp : Fin n → Fin n → Ordering} {u v : Fin n} {places : List (Fin n)}

/-- The place `u` comes before `v` by a comparison, or by its number if the comparison does not decide. -/
def Ahead (cmp : Fin n → Fin n → Ordering) (u v : Fin n) : Prop :=
  cmp u v = .lt ∨ cmp u v = .eq ∧ u < v

theorem Ahead.asymm [Std.OrientedCmp cmp] (h : Ahead cmp u v) : ¬ Ahead cmp v u := by
  have hswap : cmp v u = (cmp u v).swap := Std.OrientedCmp.eq_swap
  rintro (h' | ⟨h', hvu⟩) <;> rcases h with h | ⟨h, huv⟩ <;> rw [h, h'] at hswap
  · cases hswap
  · cases hswap
  · cases hswap
  · exact lt_asymm huv hvu

theorem ahead_total [Std.OrientedCmp cmp] (h : u ≠ v) : Ahead cmp u v ∨ Ahead cmp v u := by
  have hswap : cmp v u = (cmp u v).swap := Std.OrientedCmp.eq_swap
  cases hc : cmp u v with
  | lt => exact .inl (.inl hc)
  | gt => exact .inr (.inl (by rw [hswap, hc]; rfl))
  | eq =>
    rcases lt_or_gt_of_ne h with huv | hvu
    · exact .inl (.inr ⟨hc, huv⟩)
    · exact .inr (.inr ⟨by rw [hswap, hc]; rfl, hvu⟩)

/-! ### Sorting is stable -/

theorem pair_sublist (h : places.Pairwise (· < ·)) (hu : u ∈ places) (hv : v ∈ places) (huv : u < v) :
    [u, v].Sublist places := by
  have hsub : [u, v].Subperm places := List.subperm_of_subset (by simp [huv.ne]) (by simp [hu, hv])
  exact List.sublist_of_subperm_of_pairwise hsub (by simpa using huv.le) (h.imp le_of_lt)

/-- Of two elements a list holds one in front of the other, not both ways. -/
theorem not_pair_sublist {α : Type*} {l : List α} (hl : l.Nodup) {a b : α}
    (h : [a, b].Sublist l) : ¬ [b, a].Sublist l := by
  intro h'
  induction l with
  | nil => simp at h
  | cons c l ih =>
    obtain ⟨hc, hl⟩ := List.nodup_cons.1 hl
    cases h with
    | cons _ h =>
      cases h' with
      | cons _ h' => exact ih hl h h'
      | cons_cons _ h' => exact hc (h.subset (by simp))
    | cons_cons _ h =>
      cases h' with
      | cons _ h' => exact hc (h'.subset (by simp))
      | cons_cons _ h' => exact hc (h.subset (by simp))

/-- **Sorted places stand in the order of the comparison, and by their numbers where it does not
decide.** -/
theorem pairwise_mergeSort [Std.TransCmp cmp] (h : places.Pairwise (· < ·)) :
    (places.mergeSort fun u v => (cmp u v).isLE).Pairwise (Ahead cmp) := by
  have htrans (a b c : Fin n) (hab : (cmp a b).isLE = true) (hbc : (cmp b c).isLE = true) :
      (cmp a c).isLE = true := Std.TransCmp.isLE_trans hab hbc
  have htotal (a b : Fin n) : ((cmp a b).isLE || (cmp b a).isLE) = true := by
    have hswap : cmp b a = (cmp a b).swap := Std.OrientedCmp.eq_swap
    rw [hswap]
    cases cmp a b <;> rfl
  have hperm := List.mergeSort_perm places fun u v => (cmp u v).isLE
  have hnodup := hperm.nodup_iff.2 (h.imp ne_of_lt)
  have hsorted := List.pairwise_mergeSort htrans htotal places
  rw [List.pairwise_iff_forall_sublist]
  intro u v huv
  have hle : (cmp u v).isLE = true := List.pairwise_iff_forall_sublist.1 hsorted huv
  have hne : u ≠ v := by simpa using huv.nodup hnodup
  refine (ahead_total hne).resolve_right ?_
  rintro (hvu | ⟨hvu, hlt⟩)
  · rw [Std.OrientedCmp.gt_of_lt hvu] at hle
    cases hle
  · -- of places that are not told apart, the sort keeps the earlier one in front
    have hu : u ∈ places := hperm.subset (huv.subset (by simp))
    have hv : v ∈ places := hperm.subset (huv.subset (by simp))
    have hvu : (cmp v u).isLE = true := by rw [hvu]; rfl
    exact not_pair_sublist hnodup huv
      (List.pair_sublist_mergeSort htrans htotal hvu (pair_sublist h hv hu hlt))

/-! ### Where an element stands -/

section

variable {α : Type*} [DecidableEq α] {R : α → α → Prop} {l : List α} {a b : α}

/-- In a list in a strict order, what comes first is what stands first. -/
theorem idxOf_lt_idxOf_iff (hR : ∀ a b, R a b → ¬ R b a) (h : l.Pairwise R) (ha : a ∈ l)
    (hb : b ∈ l) : l.idxOf a < l.idxOf b ↔ R a b := by
  have hla := List.idxOf_lt_length_of_mem ha
  have hlb := List.idxOf_lt_length_of_mem hb
  have hget := List.pairwise_iff_getElem.1 h
  rcases lt_trichotomy (l.idxOf a) (l.idxOf b) with hlt | heq | hgt
  · refine iff_of_true hlt ?_
    simpa using hget _ _ hla hlb hlt
  · obtain rfl : a = b := (List.idxOf_inj ha).1 heq
    exact iff_of_false (lt_irrefl _) fun haa => hR a a haa haa
  · refine iff_of_false hgt.asymm (hR b a ?_)
    simpa using hget _ _ hlb hla hgt

/-- An element of a list in a strict order has as many elements in front of it as come before it. -/
theorem idxOf_eq_countP [DecidableRel R] (hR : ∀ a b, R a b → ¬ R b a) (h : l.Pairwise R)
    (ha : a ∈ l) : l.idxOf a = l.countP (R · a) := by
  induction l with
  | nil => cases ha
  | cons b l ih =>
    obtain ⟨hb, hl⟩ := List.pairwise_cons.1 h
    by_cases hab : b = a
    · subst hab
      have hnone : (b :: l).countP (R · b) = 0 := by
        rw [List.countP_eq_zero, List.forall_mem_cons]
        simp only [decide_eq_true_eq]
        exact ⟨fun hbb => hR b b hbb hbb, fun c hc => hR b c (hb c hc)⟩
      rw [hnone, List.idxOf_cons_self]
    · have hal : a ∈ l := (List.mem_cons.1 ha).resolve_left (Ne.symm hab)
      rw [List.idxOf_cons_ne _ hab, List.countP_cons_of_pos (by simpa using hb a hal), ih hl hal]

end

end ScriptBundle.Sorted

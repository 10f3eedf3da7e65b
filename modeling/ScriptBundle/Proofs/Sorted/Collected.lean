import Mathlib.Data.List.Induction
import Mathlib.Data.List.Nodup
import ScriptBundle.Proofs.Sorted.Lookup

/-!
# Entries put in one after the other

When entries are put in a sorted list one after the other, of those with one key the last one counts.

## Main definitions

* `LastOf`: the value that stands last with a key.
* `Collects`: entries in key order that hold for each key the value that stands last with it.

## Main results

* `collects_foldl_insert`: **this is what comes out when they are put in one after the other.**
* `Collects.unique`: and there is only one such list.
-/

namespace ScriptBundle.Sorted

variable {κ : Type u} {α : Type v} {k : κ} {a : α} {e : κ × α} {es : List (κ × α)}

theorem compare_lt_asymm [Ord κ] [Std.OrientedOrd κ] (k k' : κ) (h : compare k k' = .lt) :
    ¬ compare k' k = .lt := by
  rw [Std.OrientedCmp.gt_of_lt h]
  exact Ordering.noConfusion

/-- Lists in a strict order are equal if they have the same members. -/
theorem eq_of_pairwise {β : Type w} {r : β → β → Prop} (hr : ∀ x y, r x y → ¬ r y x) {xs ys : List β}
    (hxs : xs.Pairwise r) (hys : ys.Pairwise r) (hmem : ∀ x, x ∈ xs ↔ x ∈ ys) : xs = ys := by
  have hne : ∀ {x y}, r x y → x ≠ y := by
    rintro x y hxy rfl
    exact hr x x hxy hxy
  have hperm : xs.Perm ys := (List.perm_ext_iff_of_nodup (hxs.imp hne) (hys.imp hne)).2 hmem
  exact hperm.eq_of_pairwise (fun x y _ _ hxy hyx => absurd hyx (hr x y hxy)) hxs hys

/-- Entries in key order are equal if they have the same members. -/
theorem Ascending.ext [Ord κ] [Std.TransOrd κ] {entries entries' : List (κ × α)}
    (h : Ascending entries) (h' : Ascending entries') (hmem : ∀ e, e ∈ entries ↔ e ∈ entries') :
    entries = entries' :=
  eq_of_pairwise (fun e e' => compare_lt_asymm e.1 e'.1) h h' hmem

/-- Entries in key order stand side by side if each of them has a partner with its key. -/
theorem Ascending.forall₂ {β : Type w} [Ord κ] [Std.TransOrd κ] {R : α → β → Prop}
    {entries : List (κ × α)} {entries' : List (κ × β)} (h : Ascending entries) (h' : Ascending entries')
    (hto : ∀ e ∈ entries, ∃ b, (e.1, b) ∈ entries' ∧ R e.2 b)
    (hfrom : ∀ e' ∈ entries', ∃ a, (e'.1, a) ∈ entries) :
    List.Forall₂ (fun e e' => e'.1 = e.1 ∧ R e.2 e'.2) entries entries' := by
  have hkeys : entries.map Prod.fst = entries'.map Prod.fst := by
    apply eq_of_pairwise compare_lt_asymm (List.pairwise_map.2 h) (List.pairwise_map.2 h')
    intro k
    rw [List.mem_map, List.mem_map]
    constructor
    · rintro ⟨e, he, rfl⟩
      obtain ⟨b, hb, -⟩ := hto e he
      exact ⟨_, hb, rfl⟩
    · rintro ⟨e', he', rfl⟩
      obtain ⟨a, ha⟩ := hfrom e' he'
      exact ⟨_, ha, rfl⟩
  have hlength : entries.length = entries'.length := by
    rw [← List.length_map Prod.fst, hkeys, List.length_map]
  rw [List.forall₂_iff_get]
  refine ⟨hlength, fun i hi hi' => ?_⟩
  have hkey : entries'[i].1 = entries[i].1 := by
    have hget : (entries.map Prod.fst)[i]? = (entries'.map Prod.fst)[i]? := by rw [hkeys]
    simpa [hi, hi'] using hget.symm
  obtain ⟨b, hb, hR⟩ := hto entries[i] (List.getElem_mem hi)
  have hself : compare entries[i].1 entries'[i].1 = .eq := by
    rw [hkey]
    exact Std.ReflCmp.compare_self
  have hpartner := h'.eq_of_compare hb (List.getElem_mem hi') hself
  have hvalue : entries'[i].2 = b := congrArg Prod.snd hpartner.symm
  refine ⟨hkey, ?_⟩
  show R entries[i].2 entries'[i].2
  rw [hvalue]
  exact hR

/-- Of the entries with a key the last one has this value. -/
def LastOf (es : List (κ × α)) (k : κ) (a : α) : Prop :=
  ∃ before after, es = before ++ (k, a) :: after ∧ ∀ e ∈ after, e.1 ≠ k

theorem not_lastOf_nil : ¬ LastOf [] k a := by
  rintro ⟨before, after, h, _⟩
  cases before <;> cases h

theorem lastOf_concat : LastOf (es ++ [e]) k a ↔ e = (k, a) ∨ e.1 ≠ k ∧ LastOf es k a := by
  constructor
  · rintro ⟨before, after, h, hafter⟩
    -- either `e` is the last entry with the key, or it is behind that entry
    rcases after.eq_nil_or_concat with rfl | ⟨after, e', rfl⟩
    · have he := List.append_inj_right' h rfl
      exact .inl (List.cons.inj he).1
    · rw [List.concat_eq_append] at h hafter
      rw [← List.cons_append, ← List.append_assoc] at h
      obtain ⟨hes, he⟩ := List.append_inj' h rfl
      obtain rfl := (List.cons.inj he).1
      refine .inr ⟨hafter e (by simp), before, after, hes, ?_⟩
      intro e' he'
      exact hafter e' (List.mem_append_left _ he')
  · rintro (rfl | ⟨hne, before, after, rfl, hafter⟩)
    · exact ⟨es, [], rfl, by simp⟩
    · refine ⟨before, after ++ [e], by simp, ?_⟩
      intro e' he'
      rcases List.mem_append.1 he' with he' | he'
      · exact hafter e' he'
      · rwa [List.mem_singleton.1 he']

/-- Entries in key order that hold for each key the value that stands last with it. -/
structure Collects [Ord κ] (es entries : List (κ × α)) : Prop where
  ascending : Ascending entries
  mem_iff (k : κ) (a : α) : (k, a) ∈ entries ↔ LastOf es k a

variable [Ord κ] [Std.TransOrd κ] {entries entries' : List (κ × α)}

theorem Collects.unique (h : Collects es entries) (h' : Collects es entries') : entries = entries' :=
  h.ascending.ext h'.ascending fun ⟨k, a⟩ => (h.mem_iff k a).trans (h'.mem_iff k a).symm

variable [Std.LawfulEqOrd κ]

theorem Collects.insert (h : Collects es entries) (k : κ) (a : α) :
    Collects (es ++ [(k, a)]) (insert k a entries) := by
  have hascending : Ascending (Sorted.insert k a entries) := ascending_insert h.ascending
  refine ⟨hascending, fun k' a' => ?_⟩
  rw [mem_iff_find? hascending, find?_insert, lastOf_concat, ← h.mem_iff, mem_iff_find? h.ascending]
  by_cases heq : compare k' k = .eq
  · obtain rfl := Std.LawfulEqCmp.eq_of_compare heq
    simp
  · have hne : k ≠ k' := by
      rintro rfl
      exact heq Std.ReflCmp.compare_self
    simp [heq, hne]

/-- **Put in one after the other, of the entries with one key the last one counts.** -/
theorem collects_foldl_insert (es : List (κ × α)) :
    Collects es (es.foldl (fun sorted e => Sorted.insert e.1 e.2 sorted) []) := by
  induction es using List.reverseRecOn with
  | nil => exact ⟨.nil, fun k a => iff_of_false List.not_mem_nil not_lastOf_nil⟩
  | append_singleton es e ih =>
    rw [List.foldl_append]
    exact ih.insert e.1 e.2

end ScriptBundle.Sorted

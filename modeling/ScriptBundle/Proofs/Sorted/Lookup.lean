import ScriptBundle.Sorted

/-!
# Looking entries up

A list of entries in key order is a finite map: what is found of a key says all about it.  Keys that
compare as equal need not be equal, so that the laws are about what keys compare as.

## Main results

* `find?_insert`, `find?_erase`: what is found behind an insertion and when an entry is dropped.
* `find?_of_mem`, `mem_of_find?`: what is found are the entries.
* `mem_insert_of_contains`: the entries behind an insertion, if no entry has the key.
* `mem_distinct_iff`, `pairwise_distinct`: the distinct keys of a list are its keys, in order.
-/

namespace ScriptBundle.Sorted

variable {κ : Type u} {α : Type v} [Ord κ] {key k : κ} {value : α} {entries : List (κ × α)}

theorem find?_cons (key k : κ) (value : α) (entries : List (κ × α)) :
    find? key ((k, value) :: entries)
      = if (compare key k).isEq then some value else find? key entries := rfl

/-- What is found belongs to a key that compares as equal. -/
theorem mem_of_find? (h : find? key entries = some value) :
    ∃ k, compare key k = .eq ∧ (k, value) ∈ entries := by
  induction entries with
  | nil => cases h
  | cons e rest ih =>
    obtain ⟨k, a⟩ := e
    rw [find?_cons] at h
    by_cases hk : (compare key k).isEq = true
    · rw [if_pos hk] at h
      obtain rfl := Option.some.inj h
      exact ⟨k, Ordering.isEq_iff_eq_eq.1 hk, List.mem_cons_self⟩
    · rw [if_neg hk] at h
      obtain ⟨k', hk', hmem⟩ := ih h
      exact ⟨k', hk', List.mem_cons_of_mem _ hmem⟩

theorem find?_eq_none_iff : find? key entries = none ↔ ∀ e ∈ entries, compare key e.1 ≠ .eq := by
  induction entries with
  | nil => simp
  | cons e rest ih =>
    obtain ⟨k, a⟩ := e
    rw [find?_cons, List.forall_mem_cons]
    cases hk : compare key k <;> simp [ih]

/-- A key that comes in front of all others is not found. -/
theorem find?_eq_none_of_lt (h : ∀ e ∈ entries, compare key e.1 = .lt) : find? key entries = none := by
  rw [find?_eq_none_iff]
  intro e he heq
  rw [h e he] at heq
  cases heq

theorem contains_eq_false_iff :
    contains key entries = false ↔ ∀ e ∈ entries, compare key e.1 ≠ .eq := by
  rw [contains, Option.isSome_eq_false_iff, Option.isNone_iff_eq_none, find?_eq_none_iff]

theorem contains_iff : contains key entries = true ↔ ∃ e ∈ entries, compare key e.1 = .eq := by
  rw [← Bool.not_eq_false, contains_eq_false_iff]
  simp

/-- Keys that compare as equal compare alike with a third one. -/
theorem compare_congr [Std.TransOrd κ] {a b : κ} (h : compare a b = .eq) (c : κ) :
    compare a c = compare b c := Std.TransCmp.congr_left h

/-! ### Insertion -/

theorem find?_insert_of_eq [Std.TransOrd κ] (h : compare k key = .eq) :
    find? k (insert key value entries) = some value := by
  induction entries with
  | nil => simp [find?, h]
  | cons e rest ih =>
    obtain ⟨k', a⟩ := e
    unfold insert
    cases hk : compare key k' with
    | lt => simp [find?, h]
    | eq => simp [find?, compare_congr h k', hk]
    | gt => simpa [find?, compare_congr h k', hk] using ih

theorem find?_insert_of_ne [Std.TransOrd κ] (h : compare k key ≠ .eq) :
    find? k (insert key value entries) = find? k entries := by
  have hfalse : ¬ (compare k key).isEq = true := fun heq => h (Ordering.isEq_iff_eq_eq.1 heq)
  induction entries with
  | nil => rw [insert_nil, find?_cons, if_neg hfalse]
  | cons e rest ih =>
    obtain ⟨k', a⟩ := e
    unfold insert
    cases hk : compare key k' with
    | lt =>
      dsimp only
      rw [find?_cons, if_neg hfalse]
    | eq =>
      -- the entry that loses its value is another one
      have hk' : ¬ (compare k k').isEq = true := by
        intro heq
        have hkk' : compare k' k = .eq := Std.OrientedCmp.eq_symm (Ordering.isEq_iff_eq_eq.1 heq)
        exact h (Std.OrientedCmp.eq_symm (Std.TransCmp.eq_trans hk hkk'))
      dsimp only
      rw [find?_cons, find?_cons, if_neg hk', if_neg hk']
    | gt =>
      dsimp only
      rw [find?_cons, find?_cons, ih]

/-- What is found behind an insertion. -/
theorem find?_insert [Std.TransOrd κ] (k key : κ) (value : α) (entries : List (κ × α)) :
    find? k (insert key value entries)
      = if compare k key = .eq then some value else find? k entries := by
  by_cases h : compare k key = .eq
  · rw [if_pos h, find?_insert_of_eq h]
  · rw [if_neg h, find?_insert_of_ne h]

/-- The entries behind an insertion, if no entry has the key. -/
theorem mem_insert_of_contains (h : contains key entries = false) (e : κ × α) :
    e ∈ insert key value entries ↔ e = (key, value) ∨ e ∈ entries :=
  mem_insert_of_compare_ne (contains_eq_false_iff.1 h) e

/-! ### Dropping an entry -/

/-- What is found when an entry is dropped. -/
theorem find?_erase [Std.TransOrd κ] (k key : κ) (entries : List (κ × α)) :
    find? k (erase key entries) = if compare k key = .eq then none else find? k entries := by
  induction entries with
  | nil => simp [erase]
  | cons e rest ih =>
    obtain ⟨k', a⟩ := e
    unfold erase at ih ⊢
    by_cases hk : (compare key k').isEq = true
    · have hdrop : (!(compare key k').isEq) = false := by rw [hk]; rfl
      rw [List.filter_cons_of_neg (by simpa using hdrop), ih, find?_cons]
      by_cases h : compare k key = .eq
      · rw [if_pos h, if_pos h]
      · have hk' : ¬ (compare k k').isEq = true := by
          intro heq
          have hk'k : compare k' k = .eq := Std.OrientedCmp.eq_symm (Ordering.isEq_iff_eq_eq.1 heq)
          exact h (Std.OrientedCmp.eq_symm
            (Std.TransCmp.eq_trans (Ordering.isEq_iff_eq_eq.1 hk) hk'k))
        rw [if_neg h, if_neg h, if_neg hk']
    · have hkeep : (!(compare key k').isEq) = true := by simpa using hk
      rw [List.filter_cons_of_pos (by simpa using hkeep), find?_cons, find?_cons, ih]
      by_cases h : compare k key = .eq
      · have hk' : ¬ (compare k k').isEq = true := by rwa [compare_congr h]
        rw [if_pos h, if_pos h, if_neg hk']
      · rw [if_neg h, if_neg h]

theorem ascending_erase (h : Ascending entries) (key : κ) : Ascending (erase key entries) :=
  List.Pairwise.sublist List.filter_sublist h

/-! ### Entries in key order -/

/-- Of entries in key order those are equal whose keys compare as equal. -/
theorem Ascending.eq_of_compare [Std.TransOrd κ] (h : Ascending entries) {e e' : κ × α}
    (he : e ∈ entries) (he' : e' ∈ entries) (hk : compare e.1 e'.1 = .eq) : e = e' := by
  induction entries with
  | nil => cases he
  | cons first rest ih =>
    obtain ⟨hfirst, hrest⟩ := List.pairwise_cons.1 h
    rcases List.mem_cons.1 he with rfl | hrest_e <;>
      rcases List.mem_cons.1 he' with rfl | hrest_e'
    · rfl
    · rw [hfirst e' hrest_e'] at hk
      cases hk
    · rw [Std.OrientedCmp.gt_of_lt (hfirst e hrest_e)] at hk
      cases hk
    · exact ih hrest hrest_e hrest_e'

theorem find?_of_mem [Std.TransOrd κ] (h : Ascending entries) (hmem : (key, value) ∈ entries) :
    find? key entries = some value := by
  cases hfind : find? key entries with
  | none => exact absurd Std.ReflCmp.compare_self (find?_eq_none_iff.1 hfind _ hmem)
  | some a =>
    obtain ⟨k, hk, hmem'⟩ := mem_of_find? hfind
    have := h.eq_of_compare hmem hmem' hk
    rw [(Prod.mk.inj this).2]

theorem mem_iff_find? [Std.TransOrd κ] [Std.LawfulEqOrd κ] (h : Ascending entries) :
    (key, value) ∈ entries ↔ find? key entries = some value := by
  refine ⟨find?_of_mem h, fun hfind => ?_⟩
  obtain ⟨k, hk, hmem⟩ := mem_of_find? hfind
  obtain rfl := Std.LawfulEqCmp.eq_of_compare hk
  exact hmem

theorem mem_keys_iff [Std.LawfulEqOrd κ] :
    key ∈ keys entries ↔ contains key entries = true := by
  rw [contains_iff, keys, List.mem_map]
  constructor
  · rintro ⟨e, he, rfl⟩
    exact ⟨e, he, Std.ReflCmp.compare_self⟩
  · rintro ⟨e, he, hcompare⟩
    exact ⟨e, he, (Std.LawfulEqCmp.eq_of_compare hcompare).symm⟩

/-- The keys of entries in key order are different. -/
theorem Ascending.nodup_keys [Std.TransOrd κ] (h : Ascending entries) : (keys entries).Nodup := by
  rw [keys, List.Nodup, List.pairwise_map]
  refine h.imp ?_
  intro e e' hlt heq
  have hself : compare e'.1 e'.1 = .eq := Std.ReflCmp.compare_self
  rw [heq, hself] at hlt
  cases hlt

theorem contains_insert [Std.TransOrd κ] [Std.LawfulEqOrd κ] :
    contains k (insert key value entries) = true ↔ k = key ∨ contains k entries = true := by
  have hiff : compare k key = .eq ↔ k = key := Std.LawfulEqCmp.compare_eq_iff_eq
  rw [contains, find?_insert, ← hiff]
  by_cases h : compare k key = .eq
  · simp [h]
  · simp [h, contains]

/-- The distinct keys of a list are its keys. -/
theorem mem_distinct_iff [Std.TransOrd κ] [Std.LawfulEqOrd κ] {ks : List κ} :
    k ∈ distinct ks ↔ k ∈ ks := by
  suffices ∀ entries : List (κ × Unit),
      k ∈ keys (ks.foldl (fun entries k => insert k () entries) entries) ↔ k ∈ keys entries ∨ k ∈ ks by
    rw [distinct, this, or_iff_right]
    exact List.not_mem_nil
  induction ks with
  | nil => simp
  | cons first ks ih =>
    intro entries
    rw [List.foldl_cons, ih, mem_keys_iff, contains_insert, ← mem_keys_iff, List.mem_cons, or_comm (a := k = first),
      or_assoc]

/-- The distinct keys of a list stand in order. -/
theorem pairwise_distinct [Std.TransOrd κ] (ks : List κ) :
    (distinct ks).Pairwise fun a b => compare a b = .lt := by
  rw [distinct, keys, List.pairwise_map]
  exact List.foldlRecOn (motive := Ascending) ks _ List.Pairwise.nil fun _ h _ _ => ascending_insert h

/-- An entry that comes behind all others is put at the end. -/
theorem insert_of_forall_gt (h : ∀ e ∈ entries, compare key e.1 = .gt) :
    insert key value entries = entries ++ [(key, value)] := by
  induction entries with
  | nil => rfl
  | cons e entries ih =>
    rw [insert, h e List.mem_cons_self, List.cons_append,
      ← ih fun e he => h e (List.mem_cons_of_mem _ he)]

/-- Entries that stand in key order are put in one behind the other. -/
theorem foldl_insert_of_ascending [Std.OrientedOrd κ] (before after : List (κ × α))
    (h : Ascending (before ++ after)) :
    after.foldl (fun entries e => insert e.1 e.2 entries) before = before ++ after := by
  induction after generalizing before with
  | nil => rw [List.append_nil]; rfl
  | cons e after ih =>
    have hlast : ∀ e' ∈ before, compare e.1 e'.1 = .gt := by
      intro e' he'
      have hlt := (List.pairwise_append.1 h).2.2 e' he' e List.mem_cons_self
      exact Std.OrientedCmp.gt_of_lt hlt
    rw [List.foldl_cons, insert_of_forall_gt hlast, ih _ (by simpa using h), List.append_assoc,
      List.singleton_append]

end ScriptBundle.Sorted

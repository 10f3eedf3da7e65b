import ScriptBundle.Proofs.Sorted.Lookup
import ScriptBundle.Request

/-!
# Requests for ids

A request for ids selects in each category the numbers that the ids have there, and nothing else.

## Main definitions

* `Request.numbersOf`: the numbers that are selected of a category.

## Main results

* `mem_numbersOf_foldl`: the numbers of a request for ids.
* `exists_includes_iff`: **a request for ids selects these ids.**
* `exists_mem_of_mem_foldl`: each of its selections selects one of them.
-/

namespace ScriptBundle.Request

variable {category : String} {n : Nat} {selections : List (String × Selection)}

/-- The numbers that are selected of a category. -/
def numbersOf (category : String) (selections : List (String × Selection)) : List Nat :=
  match Sorted.find? category selections with
  | some (.numbers ns) => ns
  | _ => []

/-- The selections of a request for ids: categories in order, each with numbers. -/
def ListsNumbers (selections : List (String × Selection)) : Prop :=
  Sorted.Ascending selections ∧ ∀ wanted ∈ selections, ∃ ns, wanted.2 = .numbers ns

theorem numbersOf_addId (id : ModuleId) :
    numbersOf category (addId selections id)
      = if category = id.category then insertNumber id.number (numbersOf category selections)
        else numbersOf category selections := by
  unfold numbersOf addId
  rw [Sorted.find?_insert]
  by_cases h : category = id.category
  · have hcompare : compare category id.category = .eq := Std.LawfulEqCmp.compare_eq_iff_eq.2 h
    rw [if_pos h, if_pos hcompare]
    subst h
    rfl
  · have hcompare : compare category id.category ≠ .eq := h ∘ Std.LawfulEqCmp.compare_eq_iff_eq.1
    rw [if_neg h, if_neg hcompare]

theorem listsNumbers_addId (h : ListsNumbers selections) (id : ModuleId) :
    ListsNumbers (addId selections id) := by
  have hascending : Sorted.Ascending (addId selections id) := Sorted.ascending_insert h.1
  refine ⟨hascending, ?_⟩
  rintro ⟨category, selection⟩ hwanted
  rw [Sorted.mem_iff_find? hascending, addId, Sorted.find?_insert] at hwanted
  by_cases hcategory : compare category id.category = .eq
  · rw [if_pos hcategory] at hwanted
    exact ⟨_, (Option.some.inj hwanted).symm⟩
  · rw [if_neg hcategory, ← Sorted.mem_iff_find? h.1] at hwanted
    exact h.2 _ hwanted

theorem listsNumbers_foldl (ids : List ModuleId) (h : ListsNumbers selections) :
    ListsNumbers (ids.foldl addId selections) := by
  induction ids generalizing selections with
  | nil => exact h
  | cons id ids ih => exact ih (listsNumbers_addId h id)

theorem mem_numbersOf_foldl (ids : List ModuleId) (selections : List (String × Selection)) :
    n ∈ numbersOf category (ids.foldl addId selections)
      ↔ ⟨category, n⟩ ∈ ids ∨ n ∈ numbersOf category selections := by
  induction ids generalizing selections with
  | nil => simp
  | cons id ids ih =>
    rw [List.foldl_cons, ih, numbersOf_addId, List.mem_cons]
    by_cases h : category = id.category
    · have hid : (⟨category, n⟩ : ModuleId) = id ↔ n = id.number := by
        cases id
        simp_all
      rw [if_pos h, mem_insertNumber, hid, ← or_assoc]
      exact or_congr_left or_comm
    · have hid : (⟨category, n⟩ : ModuleId) ≠ id := fun heq => h (congrArg ModuleId.category heq)
      rw [if_neg h, or_iff_right hid]

/-- What is selected are the listed numbers. -/
theorem exists_includes_iff_mem_numbersOf (h : ListsNumbers selections) :
    (∃ wanted ∈ selections, wanted.1 = category ∧ wanted.2.includes n = true)
      ↔ n ∈ numbersOf category selections := by
  unfold numbersOf
  constructor
  · rintro ⟨⟨category, selection⟩, hwanted, rfl, hn⟩
    obtain ⟨ns, hns : selection = .numbers ns⟩ := h.2 _ hwanted
    subst hns
    rw [Sorted.find?_of_mem h.1 hwanted]
    exact List.contains_iff_mem.1 hn
  · intro hn
    cases hfind : Sorted.find? category selections with
    | none =>
      rw [hfind] at hn
      cases hn
    | some selection =>
      have hmem := (Sorted.mem_iff_find? h.1).2 hfind
      obtain ⟨ns, hns : selection = .numbers ns⟩ := h.2 _ hmem
      subst hns
      rw [hfind] at hn
      exact ⟨_, hmem, rfl, List.contains_iff_mem.2 hn⟩

/-- **A request for ids selects these ids.** -/
theorem exists_includes_iff (ids : List ModuleId) (id : ModuleId) :
    (∃ wanted ∈ ids.foldl addId [], wanted.1 = id.category ∧ wanted.2.includes id.number = true)
      ↔ id ∈ ids := by
  have hlists : ListsNumbers (ids.foldl addId []) :=
    listsNumbers_foldl ids ⟨List.Pairwise.nil, fun _ hwanted => nomatch hwanted⟩
  rw [exists_includes_iff_mem_numbersOf hlists, mem_numbersOf_foldl]
  exact or_iff_left List.not_mem_nil

theorem exists_includes_addId {category : String} {selection : Selection}
    (hlists : ListsNumbers selections)
    (h : ∀ wanted ∈ selections, ∃ n, wanted.2.includes n = true) (id : ModuleId)
    (hwanted : (category, selection) ∈ addId selections id) : ∃ n, selection.includes n = true := by
  have hascending : Sorted.Ascending (addId selections id) := Sorted.ascending_insert hlists.1
  rw [Sorted.mem_iff_find? hascending, addId, Sorted.find?_insert] at hwanted
  by_cases hcategory : compare category id.category = .eq
  · rw [if_pos hcategory] at hwanted
    rw [← Option.some.inj hwanted]
    exact ⟨id.number, List.contains_iff_mem.2 ((mem_insertNumber _).2 (.inl rfl))⟩
  · rw [if_neg hcategory, ← Sorted.mem_iff_find? hlists.1] at hwanted
    exact h _ hwanted

/-- Each selection of a request for ids selects one of them. -/
theorem exists_mem_of_mem_foldl {ids : List ModuleId} {wanted : String × Selection}
    (hwanted : wanted ∈ ids.foldl addId []) :
    ∃ id ∈ ids, wanted.1 = id.category ∧ wanted.2.includes id.number = true := by
  have hselects : ∀ selections, ListsNumbers selections →
      (∀ wanted ∈ selections, ∃ n, wanted.2.includes n = true) →
        ∀ wanted ∈ ids.foldl addId selections, ∃ n, wanted.2.includes n = true := by
    clear hwanted
    induction ids with
    | nil => exact fun _ _ h => h
    | cons id ids ih =>
      intro selections hlists h
      apply ih _ (listsNumbers_addId hlists id)
      rintro ⟨category, selection⟩ hwanted
      exact exists_includes_addId hlists h id hwanted
  obtain ⟨n, hn⟩ := hselects [] ⟨List.Pairwise.nil, fun _ h => nomatch h⟩ (fun _ h => nomatch h) wanted hwanted
  exact ⟨⟨wanted.1, n⟩, (exists_includes_iff ids ⟨wanted.1, n⟩).1 ⟨wanted, hwanted, rfl, hn⟩, rfl, hn⟩

end ScriptBundle.Request

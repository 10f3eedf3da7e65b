import Mathlib.Data.List.Forall2
import ScriptBundle.Script.Declaration

/-!
# Where declarations stand

A script is searched for a name from left to right, and each place where the name stands is looked at once.
So declarations come in the order of the script.

## Main definitions

* `Place.source`: the text of which a place is a place.
* `Script.DeclaredAt`: a declaration is begun by the name at some place, comments aside.

## Main results

* `source_of_mem_occurrences`, `pairwise_occurrences`: the places where a name stands are places of the
  script, from left to right.
* `exists_places`: **the declarations are begun at places from left to right.**
-/

namespace ScriptBundle

/-- The text of which a place is a place. -/
def Place.source (p : Place) : List Char := p.past.reverse ++ p.rest

namespace Script

variable {name source past rest : List Char} {skip : Nat} {p : Place}

/-! ### Occurrences -/

theorem source_of_mem_occurrencesFrom (h : p ∈ occurrencesFrom name skip past rest) :
    p.source = past.reverse ++ rest := by
  fun_induction occurrencesFrom name skip past rest with
  | case1 past => rw [List.mem_singleton.1 h, Place.source]
  | case2 => cases h
  | case3 => cases h
  | case4 skip past c cs ih => simpa using ih h
  | case5 past c cs hname ih =>
    rcases List.mem_cons.1 h with rfl | h
    · rfl
    · simpa using ih h
  | case6 past c cs hname ih => simpa using ih h

/-- The places that are found lie behind what has been passed over. -/
theorem le_length_past (h : p ∈ occurrencesFrom name skip past rest) :
    past.length + skip ≤ p.past.length := by
  fun_induction occurrencesFrom name skip past rest with
  | case1 past =>
    rw [List.mem_singleton.1 h]
    exact Nat.le_refl _
  | case2 => cases h
  | case3 => cases h
  | case4 skip past c cs ih =>
    have hle := ih h
    rw [List.length_cons] at hle
    omega
  | case5 past c cs hname ih =>
    rcases List.mem_cons.1 h with rfl | h
    · exact Nat.le_refl _
    · have hle := ih h
      rw [List.length_cons] at hle
      omega
  | case6 past c cs hname ih =>
    have hle := ih h
    rw [List.length_cons] at hle
    omega

theorem pairwise_occurrencesFrom :
    (occurrencesFrom name skip past rest).Pairwise fun p q => p.past.length < q.past.length := by
  fun_induction occurrencesFrom name skip past rest with
  | case1 past => exact List.pairwise_singleton _ _
  | case2 => exact .nil
  | case3 => exact .nil
  | case4 skip past c cs ih => exact ih
  | case5 past c cs hname ih =>
    refine List.pairwise_cons.2 ⟨fun q hq => ?_, ih⟩
    have hle := le_length_past hq
    rw [List.length_cons] at hle
    show past.length < q.past.length
    omega
  | case6 past c cs hname ih => exact ih

theorem source_of_mem_occurrences (h : p ∈ occurrences name source) : p.source = source :=
  source_of_mem_occurrencesFrom h

theorem pairwise_occurrences :
    (occurrences name source).Pairwise fun p q => p.past.length < q.past.length :=
  pairwise_occurrencesFrom

/-! ### Declarations -/

/-- A declaration is begun by the name at some place of a script that is not in a comment. -/
structure DeclaredAt (name source : List Char) (p : Place) (d : Declaration) : Prop where
  source_eq : p.source = source
  uncommented : (commentFlags source)[p.past.length]?.getD false = false
  declarationAt?_eq : declarationAt? name p = some d

/-- What is found in a list is found at elements of it, in the same order. -/
theorem exists_forall₂_filterMap {α β : Type*} (f : α → Option β) (as : List α) :
    ∃ found, found.Sublist as ∧ List.Forall₂ (fun a b => f a = some b) found (as.filterMap f) := by
  induction as with
  | nil => exact ⟨[], .slnil, .nil⟩
  | cons a as ih =>
    obtain ⟨found, hsub, hfound⟩ := ih
    cases ha : f a with
    | none =>
      rw [List.filterMap_cons_none ha]
      exact ⟨found, hsub.cons a, hfound⟩
    | some b =>
      rw [List.filterMap_cons_some ha]
      exact ⟨a :: found, hsub.cons_cons a, .cons ha hfound⟩

/-- **The declarations are begun at places of the script from left to right.** -/
theorem exists_places (name source : List Char) :
    ∃ places : List Place, places.Pairwise (fun p q => p.past.length < q.past.length) ∧
      List.Forall₂ (DeclaredAt name source) places (declarations name source) := by
  obtain ⟨places, hsub, hplaces⟩ := exists_forall₂_filterMap (declarationAt? name)
    ((occurrences name source).filter fun p => !((commentFlags source)[p.past.length]?.getD false))
  refine ⟨places, (pairwise_occurrences.filter _).sublist hsub, ?_⟩
  have hmem : ∀ p ∈ places, p.source = source ∧
      (commentFlags source)[p.past.length]?.getD false = false := by
    intro p hp
    obtain ⟨hoccurs, hflag⟩ := List.mem_filter.1 (hsub.subset hp)
    exact ⟨source_of_mem_occurrences hoccurs, by simpa using hflag⟩
  refine ((List.forall₂_and_left _ _).2 ⟨hmem, hplaces⟩).imp ?_
  rintro p d ⟨⟨hsource, hflag⟩, hd⟩
  exact ⟨hsource, hflag, hd⟩

end Script

end ScriptBundle

import ScriptBundle.BitSet.Basic

/-!
# Lemmas on sets of bits

What each operation does to the elements of a set.

## Main results

* `contains_union`, `contains_inter`, `contains_symmDiff`, `contains_singleton`: the elements of
  the result of an operation.
* `intersects_iff`: sets intersect when they have an element in common.
* `ext`: sets with the same elements are equal.
* `lt_of_contains`: the elements are bounded by the number of words.
-/

namespace ScriptBundle.BitSet

/-! ### Bits of words -/

@[simp] theorem bitOf_nil (i : Nat) : bitOf [] i = false := rfl

theorem bitOf_cons (w : Word) (words : List Word) (i : Nat) :
    bitOf (w :: words) i = if i < 64 then w.getLsbD i else bitOf words (i - 64) := rfl

theorem bitOf_lower (w : Word) (words : List Word) (i : Nat) :
    bitOf (lower w words) i = bitOf (w :: words) i := by
  unfold lower
  by_cases h : w = 0 ∧ words = []
  · obtain ⟨rfl, rfl⟩ := h
    rw [if_pos ⟨rfl, rfl⟩]
    simp [bitOf_cons]
  · rw [if_neg h]

theorem bitOf_unionWords (ws vs : List Word) (i : Nat) :
    bitOf (unionWords ws vs) i = (bitOf ws i || bitOf vs i) := by
  fun_induction unionWords ws vs generalizing i with
  | case1 => simp
  | case2 => simp
  | case3 w ws v vs ih =>
    simp only [bitOf_cons, ih]
    by_cases h : i < 64 <;> simp [h]

theorem bitOf_interWords (ws vs : List Word) (i : Nat) :
    bitOf (interWords ws vs) i = (bitOf ws i && bitOf vs i) := by
  fun_induction interWords ws vs generalizing i with
  | case1 w ws v vs ih =>
    rw [bitOf_lower]
    simp only [bitOf_cons, ih]
    by_cases h : i < 64 <;> simp [h]
  | case2 ws vs h =>
    cases ws with
    | nil => simp
    | cons w ws =>
      cases vs with
      | nil => simp
      | cons v vs => exact absurd rfl (h w ws v vs rfl)

theorem bitOf_symmDiffWords (ws vs : List Word) (i : Nat) :
    bitOf (symmDiffWords ws vs) i = (bitOf ws i ^^ bitOf vs i) := by
  fun_induction symmDiffWords ws vs generalizing i with
  | case1 => simp
  | case2 => simp
  | case3 w ws v vs ih =>
    rw [bitOf_lower]
    simp only [bitOf_cons, ih]
    by_cases h : i < 64 <;> simp [h]

theorem bitOf_singleWords (i j : Nat) : bitOf (singleWords i) j = decide (i = j) := by
  fun_induction singleWords i generalizing j with
  | case1 i h =>
    by_cases hj : j < 64
    · simp [bitOf_cons, hj, Word.single, eq_comm]
    · simp [bitOf_cons, hj]
      omega
  | case2 i h ih =>
    by_cases hj : j < 64
    · simp [bitOf_cons, hj]
      omega
    · simp [bitOf_cons, hj, ih]
      omega

theorem lt_of_bitOf {words : List Word} {i : Nat} (h : bitOf words i = true) :
    i < 64 * words.length := by
  induction words generalizing i with
  | nil => simp at h
  | cons w words ih =>
    rw [bitOf_cons] at h
    by_cases hi : i < 64
    · simp only [List.length_cons]
      omega
    · rw [if_neg hi] at h
      have := ih h
      simp only [List.length_cons]
      omega

/-! ### Elements of sets -/

@[simp] theorem contains_empty (i : Nat) : (∅ : BitSet).contains i = false := rfl

@[simp] theorem contains_union (s t : BitSet) (i : Nat) :
    (s ∪ t).contains i = (s.contains i || t.contains i) := bitOf_unionWords ..

@[simp] theorem contains_inter (s t : BitSet) (i : Nat) :
    (s ∩ t).contains i = (s.contains i && t.contains i) := bitOf_interWords ..

@[simp] theorem contains_symmDiff (s t : BitSet) (i : Nat) :
    (s.symmDiff t).contains i = (s.contains i ^^ t.contains i) := bitOf_symmDiffWords ..

@[simp] theorem contains_singleton (i j : Nat) :
    (singleton i).contains j = decide (i = j) := bitOf_singleWords ..

@[simp] theorem contains_insert (s : BitSet) (i j : Nat) :
    (s.insert i).contains j = (s.contains j || decide (i = j)) := by
  rw [insert, contains_union, contains_singleton]

theorem lt_of_contains {s : BitSet} {i : Nat} (h : s.contains i = true) :
    i < 64 * s.words.length := lt_of_bitOf h

/-! ### Equal sets -/

theorem eq_nil_of_bitOf {words : List Word} (ht : Trimmed words) (h : ∀ i, bitOf words i = false) :
    words = [] := by
  induction words with
  | nil => rfl
  | cons w words ih =>
    have hw : words = [] := ih (trimmed_tail ht) fun i => by
      have := h (i + 64)
      rwa [bitOf_cons, if_neg (by omega), Nat.add_sub_cancel] at this
    subst hw
    refine absurd ?_ ht
    have : w = 0 := BitVec.eq_of_getLsbD_eq fun i hi => by
      have := h i
      rw [bitOf_cons, if_pos hi] at this
      simpa using this
    simp [this]

theorem words_ext {ws vs : List Word} (hw : Trimmed ws) (hv : Trimmed vs)
    (h : ∀ i, bitOf ws i = bitOf vs i) : ws = vs := by
  induction ws generalizing vs with
  | nil => exact (eq_nil_of_bitOf hv fun i => (h i).symm).symm
  | cons w ws ih =>
    cases vs with
    | nil => exact eq_nil_of_bitOf hw h
    | cons v vs =>
      have hhead : w = v := BitVec.eq_of_getLsbD_eq fun i hi => by
        have := h i
        rwa [bitOf_cons, bitOf_cons, if_pos hi, if_pos hi] at this
      have htail : ws = vs := ih (trimmed_tail hw) (trimmed_tail hv) fun i => by
        have := h (i + 64)
        rwa [bitOf_cons, bitOf_cons, if_neg (by omega), if_neg (by omega),
          Nat.add_sub_cancel] at this
      rw [hhead, htail]

theorem ext {s t : BitSet} (h : ∀ i, s.contains i = t.contains i) : s = t := by
  cases s with
  | mk ws hw =>
    cases t with
    | mk vs hv => simp [words_ext hw hv h]

theorem isEmpty_iff (s : BitSet) : s.isEmpty = true ↔ ∀ i, s.contains i = false := by
  constructor
  · intro h i
    simp [contains, List.isEmpty_iff.1 h]
  · intro h
    exact List.isEmpty_iff.2 (eq_nil_of_bitOf s.trimmed h)

theorem intersects_words_iff (ws vs : List Word) :
    (ws.zip vs).any (fun p => p.1 &&& p.2 != 0) = true ↔
      ∃ i, bitOf ws i = true ∧ bitOf vs i = true := by
  induction ws generalizing vs with
  | nil => simp
  | cons w ws ih =>
    cases vs with
    | nil => simp
    | cons v vs =>
      rw [List.zip_cons_cons, List.any_cons, Bool.or_eq_true, ih]
      constructor
      · rintro (h | ⟨i, h⟩)
        · have hne : ¬ ∀ i, i < 64 → (w &&& v).getLsbD i = false := fun hz => by
            have : w &&& v = 0 := BitVec.eq_of_getLsbD_eq fun i hi => by simpa using hz i hi
            simp [this] at h
          simp only [Classical.not_forall] at hne
          obtain ⟨i, hi, hb⟩ := hne
          refine ⟨i, ?_⟩
          rw [bitOf_cons, bitOf_cons, if_pos hi, if_pos hi]
          simpa using hb
        · refine ⟨i + 64, ?_⟩
          rwa [bitOf_cons, bitOf_cons, if_neg (by omega), if_neg (by omega), Nat.add_sub_cancel]
      · rintro ⟨i, h⟩
        rw [bitOf_cons, bitOf_cons] at h
        by_cases hi : i < 64
        · left
          rw [if_pos hi, if_pos hi] at h
          refine bne_iff_ne.2 fun hz => ?_
          have := congrArg (fun x : Word => x.getLsbD i) hz
          simp [h.1, h.2] at this
        · right
          rw [if_neg hi, if_neg hi] at h
          exact ⟨i - 64, h⟩

theorem intersects_iff (s t : BitSet) :
    s.intersects t = true ↔ ∃ i, s.contains i = true ∧ t.contains i = true :=
  intersects_words_iff ..

end ScriptBundle.BitSet

import Mathlib.Data.List.DropRight
import ScriptBundle.Proofs.BitSet.Number

/-!
# Sets of bits as numerals

The words of a set are the digits of a numeral that never starts with a zero digit.  A union and one more
element can only make words longer, so that nothing has to be dropped behind them; an intersection and a
symmetric difference can leave zeros, which are dropped.  So every set is the one numeral of its number, and
the operations on sets are the bitwise operations on numbers.

## Main definitions

* `zipWords`, `dropZeros`: an operation on two lists of words, word by word, and words without the zeros
  at the end.
* `AreNumerals`: two sets are written and handled like numerals.

## Main results

* `unionWords_eq`, `interWords_eq`, `symmDiffWords_eq`, `unionWords_singleWords`: the words of each operation.
* `mem_toList_iff`, `pairwise_toList`, `count_eq`: the elements of a set as a list.
* `areNumerals`: **sets are written and handled like numerals.**
-/

namespace ScriptBundle.BitSet

variable {ws vs : List Word} {w : Word} {i j base : ℕ}

/-! ### The words of each operation -/

/-- An operation on two lists of words, word by word.  Where one list ends, it goes on with zeros. -/
def zipWords (op : Word → Word → Word) : List Word → List Word → List Word
  | [], vs => vs.map (op 0)
  | w :: ws, [] => op w 0 :: ws.map fun w => op w 0
  | w :: ws, v :: vs => op w v :: zipWords op ws vs

/-- A union drops no word. -/
theorem unionWords_eq (ws vs : List Word) : unionWords ws vs = zipWords (· ||| ·) ws vs := by
  fun_induction unionWords ws vs with
  | case1 vs => simp [zipWords]
  | case2 ws h =>
    cases ws with
    | nil => exact absurd rfl h
    | cons w ws => simp [zipWords]
  | case3 w ws v vs ih => simp [zipWords, ih]

/-- The words without the zeros at the end. -/
def dropZeros (words : List Word) : List Word := words.rdropWhile (· == 0)

/-- To drop the zeros at the end is to put the words one by one below those that remain. -/
theorem dropZeros_cons (w : Word) (words : List Word) :
    dropZeros (w :: words) = lower w (dropZeros words) := by
  unfold dropZeros List.rdropWhile lower
  rw [List.reverse_cons, List.dropWhile_append]
  cases h : words.reverse.dropWhile (· == 0) with
  | nil =>
    by_cases hw : w = 0
    · simp [hw]
    · rw [List.isEmpty_nil, if_pos rfl, List.dropWhile_cons_of_neg (by simpa using hw),
        if_neg fun hz => hw hz.1]
      rfl
  | cons v rest => simp

theorem dropZeros_eq_nil (h : ∀ w ∈ ws, w = 0) : dropZeros ws = [] := by
  rw [dropZeros, List.rdropWhile_eq_nil_iff]
  intro w hw
  rw [h w hw, beq_self_eq_true]

theorem dropZeros_of_trimmed (h : Trimmed ws) : dropZeros ws = ws := by
  rw [dropZeros, List.rdropWhile_eq_self_iff]
  intro hne hlast
  apply h
  rw [List.getLast?_eq_some_getLast hne, beq_iff_eq.1 hlast]

theorem interWords_eq (ws vs : List Word) :
    interWords ws vs = dropZeros (zipWords (· &&& ·) ws vs) := by
  fun_induction interWords ws vs with
  | case1 w ws v vs ih => rw [zipWords, dropZeros_cons, ih]
  | case2 ws vs h =>
    -- where one list has ended there are zeros only
    symm
    apply dropZeros_eq_nil
    cases ws with
    | nil => simp [zipWords]
    | cons w ws =>
      cases vs with
      | nil => simp [zipWords]
      | cons v vs => exact absurd rfl (h w ws v vs rfl)

theorem symmDiffWords_eq (hw : Trimmed ws) (hv : Trimmed vs) :
    symmDiffWords ws vs = dropZeros (zipWords (· ^^^ ·) ws vs) := by
  fun_induction symmDiffWords ws vs with
  | case1 vs => simp [zipWords, dropZeros_of_trimmed hv]
  | case2 ws h =>
    cases ws with
    | nil => exact absurd rfl h
    | cons w ws => simp [zipWords, dropZeros_of_trimmed hw]
  | case3 w ws v vs ih => rw [zipWords, dropZeros_cons, ih (trimmed_tail hw) (trimmed_tail hv)]

theorem singleWords_eq (i : ℕ) :
    singleWords i = List.replicate (i / 64) 0 ++ [Word.single (i % 64)] := by
  fun_induction singleWords i with
  | case1 i h => simp [Nat.div_eq_of_lt h, Nat.mod_eq_of_lt h]
  | case2 i h ih =>
    have hdiv : i / 64 = (i - 64) / 64 + 1 := by omega
    have hmod : i % 64 = (i - 64) % 64 := by omega
    rw [hdiv, hmod, List.replicate_succ, List.cons_append, ih]

/-- For one more element the words are made long enough, and then one bit is set. -/
theorem unionWords_singleWords (ws : List Word) (i : ℕ) :
    unionWords ws (singleWords i)
      = (ws.rightpad (i / 64 + 1) 0).modify (i / 64) (· ||| Word.single (i % 64)) := by
  fun_induction singleWords i generalizing ws with
  | case1 i h =>
    rw [Nat.div_eq_of_lt h, Nat.mod_eq_of_lt h]
    cases ws with
    | nil => simp [unionWords, List.rightpad]
    | cons w ws => cases ws <;> simp [unionWords, List.rightpad]
  | case2 i h ih =>
    have hdiv : i / 64 = (i - 64) / 64 + 1 := by omega
    have hmod : i % 64 = (i - 64) % 64 := by omega
    rw [hdiv, hmod]
    cases ws with
    | nil => simpa [unionWords, List.rightpad, List.replicate_succ] using ih []
    | cons w ws => simpa [unionWords, List.rightpad] using ih ws

/-! ### The elements as a list -/

theorem mem_ones : i ∈ w.ones ↔ i < 64 ∧ w.getLsbD i = true := by
  simp [Word.ones]

theorem mem_elementsFrom (words : List Word) :
    j ∈ elementsFrom base words ↔ base ≤ j ∧ bitOf words (j - base) = true := by
  induction words generalizing base with
  | nil => simp [elementsFrom]
  | cons w words ih =>
    rw [elementsFrom, List.mem_append, List.mem_map, ih, bitOf_cons]
    constructor
    · rintro (⟨i, hi, rfl⟩ | ⟨hle, hbit⟩)
      · rw [mem_ones] at hi
        simp [hi]
      · rw [if_neg (by omega), Nat.sub_sub]
        exact ⟨by omega, hbit⟩
    · rintro ⟨hle, hbit⟩
      by_cases h : j - base < 64
      · rw [if_pos h] at hbit
        exact .inl ⟨j - base, mem_ones.2 ⟨h, hbit⟩, by omega⟩
      · rw [if_neg h, Nat.sub_sub] at hbit
        exact .inr ⟨by omega, hbit⟩

theorem pairwise_elementsFrom (words : List Word) :
    (elementsFrom base words).Pairwise (· < ·) := by
  induction words generalizing base with
  | nil => simp [elementsFrom]
  | cons w words ih =>
    rw [elementsFrom, List.pairwise_append]
    refine ⟨?_, ih, ?_⟩
    · rw [List.pairwise_map]
      exact (List.pairwise_lt_range.filter _).imp fun h => by omega
    · -- the elements of the first word are below those of the others
      intro a ha b hb
      rw [mem_elementsFrom] at hb
      obtain ⟨i, hi, rfl⟩ := List.mem_map.1 ha
      rw [mem_ones] at hi
      omega

/-- The list of a set holds its elements. -/
theorem mem_toList_iff (s : BitSet) (i : ℕ) : i ∈ s.toList ↔ s.contains i = true := by
  rw [toList, mem_elementsFrom]
  simp [contains]

/-- The elements stand in ascending order. -/
theorem pairwise_toList (s : BitSet) : s.toList.Pairwise (· < ·) := pairwise_elementsFrom _

theorem foldl_count (base : ℕ) (words : List Word) (n : ℕ) :
    words.foldl (fun n w => n + w.ones.length) n = n + (elementsFrom base words).length := by
  induction words generalizing n base with
  | nil => simp [elementsFrom]
  | cons w words ih =>
    rw [List.foldl_cons, ih (base + 64), elementsFrom, List.length_append, List.length_map]
    omega

/-- A set is counted by its elements. -/
theorem count_eq (s : BitSet) : s.count = s.toList.length := by
  rw [count, foldl_count 0, Nat.zero_add, toList]

/-! ### The numbers of each operation -/

/-- A number with the elements of a set as the places of its binary ones is the number of the set. -/
theorem eq_toNat {s : BitSet} {n : ℕ} (h : ∀ i, n.testBit i = s.contains i) : n = s.toNat := by
  apply Nat.eq_of_testBit_eq
  intro i
  rw [h, testBit_toNat]

theorem toNat_empty : (∅ : BitSet).toNat = 0 := rfl

theorem toNat_singleton (i : ℕ) : (singleton i).toNat = 2 ^ i := by
  symm
  apply eq_toNat
  intro j
  rw [Nat.testBit_two_pow, contains_singleton]

theorem toNat_union (s t : BitSet) : (s ∪ t).toNat = s.toNat ||| t.toNat := by
  symm
  apply eq_toNat
  intro i
  rw [Nat.testBit_or, testBit_toNat, testBit_toNat, contains_union]

theorem toNat_inter (s t : BitSet) : (s ∩ t).toNat = s.toNat &&& t.toNat := by
  symm
  apply eq_toNat
  intro i
  rw [Nat.testBit_and, testBit_toNat, testBit_toNat, contains_inter]

theorem toNat_symmDiff (s t : BitSet) : (s.symmDiff t).toNat = s.toNat ^^^ t.toNat := by
  symm
  apply eq_toNat
  intro i
  rw [Nat.testBit_xor, testBit_toNat, testBit_toNat, contains_symmDiff]

theorem toNat_insert (s : BitSet) (i : ℕ) : (s.insert i).toNat = s.toNat ||| 2 ^ i := by
  rw [insert, toNat_union, toNat_singleton]

theorem intersects_iff_toNat (s t : BitSet) :
    s.intersects t = true ↔ s.toNat &&& t.toNat ≠ 0 := by
  have hzero : s.toNat &&& t.toNat = 0 ↔ ∀ i, ¬ (s.contains i = true ∧ t.contains i = true) := by
    rw [← toNat_inter, ← toNat_empty]
    constructor
    · intro h i hi
      have hi' := contains_inter s t i
      rw [toNat_injective h, hi.1, hi.2] at hi'
      simp at hi'
    · intro h
      congr 1
      apply ext
      intro i
      simpa using h i
  rw [intersects_iff, ne_eq, hzero]
  simp

/-! ### Numerals -/

/-- Two sets are written and handled like numerals. -/
structure AreNumerals (s t : BitSet) : Prop where
  /-- The words do not end with a zero. -/
  trimmed : s.words.getLast? ≠ some 0
  /-- The elements are the places of the binary ones of the number, which is the only number with them. -/
  digits : ∀ n, n = s.toNat ↔ ∀ i, n.testBit i = s.contains i
  /-- A set with one element and one more element: the words are made long enough, and a bit is set. -/
  singleton (i : ℕ) : (singleton i).toNat = 2 ^ i ∧
    (singleton i).words = List.replicate (i / 64) 0 ++ [Word.single (i % 64)]
  insert (i : ℕ) : (s.insert i).toNat = s.toNat ||| 2 ^ i ∧
    (s.insert i).words
      = (s.words.rightpad (i / 64 + 1) 0).modify (i / 64) (· ||| Word.single (i % 64))
  /-- A union drops no words, the other operations drop the zeros at the end. -/
  union : (s ∪ t).toNat = s.toNat ||| t.toNat ∧
    (s ∪ t).words = zipWords (· ||| ·) s.words t.words
  inter : (s ∩ t).toNat = s.toNat &&& t.toNat ∧
    (s ∩ t).words = dropZeros (zipWords (· &&& ·) s.words t.words)
  symmDiff : (s.symmDiff t).toNat = s.toNat ^^^ t.toNat ∧
    (s.symmDiff t).words = dropZeros (zipWords (· ^^^ ·) s.words t.words)
  /-- Sets are compared like their numbers. -/
  eq_iff : s = t ↔ s.toNat = t.toNat
  compare : Ord.compare s t = Ord.compare s.toNat t.toNat
  intersects : s.intersects t = true ↔ s.toNat &&& t.toNat ≠ 0
  /-- The elements are listed in ascending order, and counted. -/
  ascending : s.toList.Pairwise (· < ·)
  toList (i : ℕ) : i ∈ s.toList ↔ s.toNat.testBit i = true
  count : s.count = s.toList.length

/-- **Sets of bits are written and handled like numerals.** -/
theorem areNumerals (s t : BitSet) : AreNumerals s t := by
  constructor
  · exact s.trimmed
  · intro n
    refine ⟨?_, eq_toNat⟩
    rintro rfl
    exact testBit_toNat s
  · exact fun i => ⟨toNat_singleton i, singleWords_eq i⟩
  · exact fun i => ⟨toNat_insert s i, unionWords_singleWords s.words i⟩
  · exact ⟨toNat_union s t, unionWords_eq s.words t.words⟩
  · exact ⟨toNat_inter s t, interWords_eq s.words t.words⟩
  · exact ⟨toNat_symmDiff s t, symmDiffWords_eq s.trimmed t.trimmed⟩
  · exact ⟨congrArg toNat, toNat_injective⟩
  · exact compare_eq_compare_toNat s t
  · exact intersects_iff_toNat s t
  · exact pairwise_toList s
  · intro i
    rw [testBit_toNat, mem_toList_iff]
  · exact count_eq s

end ScriptBundle.BitSet

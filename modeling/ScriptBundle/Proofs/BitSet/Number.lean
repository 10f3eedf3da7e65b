import Mathlib.Data.Nat.Bitwise
import ScriptBundle.BitSet.Basic
import ScriptBundle.BitSet.Lemmas
import ScriptBundle.Literal.Number

/-!
# Sets of bits as numbers

A set stands for the number that has its elements as the places of its binary ones.  The words are
the digits of that number, so that sets are ordered like their numbers; a set with more elements
has a greater number.

A decimal number of any length is turned into words digit by digit.  Each digit multiplies the number of
the words by ten, from the lowest word to the highest, with a carry that never grows beyond nine.

## Main results

* `testBit_toNat`: the binary ones of the number are the elements.
* `compare_eq_compare_toNat`: sets are ordered like their numbers.
* `compare_eq_lt_of_ssubset`: a proper subset is smaller.
* `wordsToNat_timesTenPlus`: one more digit multiplies the number by ten and adds the digit.
* `ofDecimal?_eq_some_iff`: **a run of digits stands for the set whose number it is, and nothing else stands
  for a set.**
-/

namespace ScriptBundle.BitSet

/-! ### The digits of the number -/

theorem wordsToNat_cons (w : Word) (words : List Word) :
    wordsToNat (w :: words) = 2 ^ 64 * wordsToNat words + w.toNat := rfl

theorem wordsToNat_lt (words : List Word) : wordsToNat words < 2 ^ (64 * words.length) := by
  induction words with
  | nil => simp [wordsToNat]
  | cons w words ih =>
    have hw : w.toNat < 2 ^ 64 := w.isLt
    have hle : 2 ^ 64 * (wordsToNat words + 1) ≤ 2 ^ 64 * 2 ^ (64 * words.length) :=
      Nat.mul_le_mul_left _ ih
    rw [wordsToNat_cons, List.length_cons, Nat.mul_succ, Nat.add_comm, Nat.pow_add]
    omega

/-- The last word is not zero, so that the number is not smaller than its digits say. -/
theorem le_wordsToNat {words : List Word} (ht : Trimmed words) (hne : words ≠ []) :
    2 ^ (64 * (words.length - 1)) ≤ wordsToNat words := by
  induction words with
  | nil => exact absurd rfl hne
  | cons w words ih =>
    rw [wordsToNat_cons]
    rcases List.eq_nil_or_concat words with rfl | ⟨front, last, rfl⟩
    · have hw : w ≠ 0 := by simpa [Trimmed] using ht
      have : w.toNat ≠ 0 := fun hz => hw (BitVec.eq_of_toNat_eq (by simpa using hz))
      simp [wordsToNat]
      omega
    · have h := ih (trimmed_tail ht) (by simp)
      simp only [List.concat_eq_append, List.length_cons, List.length_append, List.length_nil,
        Nat.zero_add, Nat.add_sub_cancel] at h ⊢
      rw [Nat.mul_add, Nat.pow_add, Nat.mul_comm]
      omega

theorem testBit_wordsToNat (words : List Word) (i : ℕ) :
    (wordsToNat words).testBit i = bitOf words i := by
  induction words generalizing i with
  | nil => simp [wordsToNat]
  | cons w words ih =>
    rw [wordsToNat_cons, Nat.testBit_two_pow_mul_add _ w.isLt, bitOf_cons, ih]
    rfl

/-- The binary ones of the number are the elements of the set. -/
theorem testBit_toNat (s : BitSet) (i : ℕ) : s.toNat.testBit i = s.contains i :=
  testBit_wordsToNat s.words i

theorem toNat_injective {s t : BitSet} (h : s.toNat = t.toNat) : s = t :=
  ext fun i => by rw [← testBit_toNat, h, testBit_toNat]

/-! ### The order of the numbers -/

/-- The last digits of equally long numbers decide when the others do not. -/
theorem compareWords_append {us vs : List Word} (h : us.length = vs.length) (w v : Word) :
    compareWords (us ++ [w]) (vs ++ [v])
      = (compareWords us vs).then (Ord.compare w.toNat v.toNat) := by
  induction us generalizing vs with
  | nil =>
    obtain rfl : vs = [] := List.length_eq_zero_iff.1 h.symm
    simp [compareWords]
  | cons u us ih =>
    cases vs with
    | nil => simp at h
    | cons v' vs =>
      have h : us.length = vs.length := by simpa using h
      simp only [List.cons_append, compareWords, ih h]
      rw [Ordering.then_assoc]

theorem compare_mul_add {b x y u v : ℕ} (hu : u < b) (hv : v < b) :
    Ord.compare (b * x + u) (b * y + v) = (Ord.compare x y).then (Ord.compare u v) := by
  rcases Nat.lt_trichotomy x y with h | rfl | h
  · have hle : b * (x + 1) ≤ b * y := Nat.mul_le_mul_left b h
    rw [Nat.compare_eq_lt.2 h, Nat.compare_eq_lt.2 (by rw [Nat.mul_succ] at hle; omega)]
    rfl
  · rw [Nat.compare_eq_eq.2 rfl]
    show _ = Ord.compare u v
    rcases Nat.lt_trichotomy u v with h | rfl | h
    · rw [Nat.compare_eq_lt.2 h, Nat.compare_eq_lt.2 (by omega)]
    · rw [Nat.compare_eq_eq.2 rfl, Nat.compare_eq_eq.2 rfl]
    · rw [Nat.compare_eq_gt.2 h, Nat.compare_eq_gt.2 (by omega)]
  · have hle : b * (y + 1) ≤ b * x := Nat.mul_le_mul_left b h
    rw [Nat.compare_eq_gt.2 h, Nat.compare_eq_gt.2 (by rw [Nat.mul_succ] at hle; omega)]
    rfl

theorem compareWords_reverse {us vs : List Word} (h : us.length = vs.length) :
    compareWords us.reverse vs.reverse = Ord.compare (wordsToNat us) (wordsToNat vs) := by
  induction us generalizing vs with
  | nil =>
    obtain rfl : vs = [] := List.length_eq_zero_iff.1 h.symm
    simp [compareWords, wordsToNat]
  | cons w us ih =>
    cases vs with
    | nil => simp at h
    | cons v vs =>
      have h : us.length = vs.length := by simpa using h
      rw [List.reverse_cons, List.reverse_cons, compareWords_append (by simpa using h), ih h,
        wordsToNat_cons, wordsToNat_cons, compare_mul_add w.isLt v.isLt]

/-- A number with more digits is greater. -/
theorem wordsToNat_lt_of_length_lt {us vs : List Word} (hv : Trimmed vs)
    (h : us.length < vs.length) : wordsToNat us < wordsToNat vs := by
  have hne : vs ≠ [] := by
    rintro rfl
    simp at h
  calc wordsToNat us < 2 ^ (64 * us.length) := wordsToNat_lt us
    _ ≤ 2 ^ (64 * (vs.length - 1)) := Nat.pow_le_pow_right (by decide) (by omega)
    _ ≤ wordsToNat vs := le_wordsToNat hv hne

/-- **Sets are ordered like the numbers that they stand for.** -/
theorem compare_eq_compare_toNat (s t : BitSet) :
    Ord.compare s t = Ord.compare s.toNat t.toNat := by
  show (Ord.compare s.words.length t.words.length).then
    (compareWords s.words.reverse t.words.reverse) = _
  rcases Nat.lt_trichotomy s.words.length t.words.length with h | h | h
  · rw [Nat.compare_eq_lt.2 h]
    exact (Nat.compare_eq_lt.2 (wordsToNat_lt_of_length_lt t.trimmed h)).symm
  · rw [Nat.compare_eq_eq.2 h, compareWords_reverse h]
    rfl
  · rw [Nat.compare_eq_gt.2 h]
    exact (Nat.compare_eq_gt.2 (wordsToNat_lt_of_length_lt s.trimmed h)).symm

instance : Std.TransOrd BitSet where
  eq_swap := by
    intro s t
    rw [compare_eq_compare_toNat, compare_eq_compare_toNat]
    exact Std.OrientedOrd.eq_swap
  isLE_trans := by
    intro s t u
    simp only [compare_eq_compare_toNat]
    exact Std.TransOrd.isLE_trans

/-- A proper subset is smaller. -/
theorem compare_eq_lt_of_ssubset {s t : BitSet}
    (hst : ∀ i, s.contains i = true → t.contains i = true)
    (hts : ∃ i, t.contains i = true ∧ s.contains i = false) : Ord.compare s t = .lt := by
  have hor : s.toNat ||| t.toNat = t.toNat := by
    refine Nat.eq_of_testBit_eq fun i => ?_
    rw [Nat.testBit_or, testBit_toNat, testBit_toNat]
    cases hs : s.contains i
    · rfl
    · rw [hst i hs]
      rfl
  have hle : s.toNat ≤ t.toNat := hor ▸ Nat.left_le_or
  have hne : s.toNat ≠ t.toNat := by
    intro he
    obtain ⟨i, hi, hni⟩ := hts
    rw [toNat_injective he, hi] at hni
    cases hni
  rw [compare_eq_compare_toNat, Nat.compare_eq_lt]
  omega

/-! ### Decimal numbers -/

variable {digits : List Char} {s : BitSet} {words : List Word} {carry : ℕ}

theorem wordsToNat_lower (w : Word) (words : List Word) :
    wordsToNat (lower w words) = 2 ^ 64 * wordsToNat words + w.toNat := by
  unfold lower
  by_cases h : w = 0 ∧ words = []
  · obtain ⟨rfl, rfl⟩ := h
    rw [if_pos ⟨rfl, rfl⟩]
    rfl
  · rw [if_neg h, wordsToNat_cons]

/-- What is carried to the next word is less than ten, as long as the carry is. -/
theorem wordsToNat_timesTenPlus (h : carry < 10) :
    wordsToNat (timesTenPlus words carry) = 10 * wordsToNat words + carry := by
  induction words generalizing carry with
  | nil =>
    have hcarry : carry < 2 ^ 64 := by omega
    rw [timesTenPlus, wordsToNat_lower, BitVec.toNat_ofNat, Nat.mod_eq_of_lt hcarry]
    rfl
  | cons w words ih =>
    have hw : w.toNat < 2 ^ 64 := w.isLt
    have hcarry : (w.toNat * 10 + carry) / Word.size < 10 := by
      rw [Nat.div_lt_iff_lt_mul (by decide), Word.size]
      omega
    have hdiv := Nat.div_add_mod (w.toNat * 10 + carry) (2 ^ 64)
    rw [timesTenPlus, wordsToNat_lower, ih hcarry, BitVec.toNat_ofNat, wordsToNat_cons]
    simp only [Word.size] at *
    omega

theorem digit_lt {c : Char} (h : c.isDigit = true) : c.toNat - '0'.toNat < 10 := by
  have hle : c.toNat ≤ '9'.toNat := (Char.isDigit_iff_toNat.1 h).2
  have hnine : '9'.toNat = '0'.toNat + 9 := rfl
  omega

theorem toNat_appendDigit {c : Char} (h : c.isDigit = true) :
    (s.appendDigit c).toNat = 10 * s.toNat + (c.toNat - '0'.toNat) :=
  wordsToNat_timesTenPlus (digit_lt h)

theorem toNat_foldl_appendDigit (h : ∀ c ∈ digits, c.isDigit = true) :
    (digits.foldl appendDigit s).toNat = Nat.ofDigitChars 10 digits s.toNat := by
  induction digits generalizing s with
  | nil => rfl
  | cons c digits ih =>
    have hc : c.isDigit = true := h c List.mem_cons_self
    rw [List.foldl_cons, ih fun d hd => h d (List.mem_cons_of_mem _ hd), toNat_appendDigit hc]
    rfl

/-- **A run of digits stands for the set whose number it is, and nothing else stands for a set.** -/
theorem ofDecimal?_eq_some_iff :
    ofDecimal? digits = some s ↔
      digits ≠ [] ∧ (∀ c ∈ digits, c.isDigit = true) ∧ s.toNat = Numeral.digitsValue digits := by
  unfold ofDecimal?
  by_cases h : (digits.isEmpty || !digits.all Char.isDigit) = true
  · rw [if_pos h]
    constructor
    · intro hnone
      cases hnone
    · rintro ⟨hne, hall, -⟩
      rw [Bool.or_eq_true, List.isEmpty_iff, Bool.not_eq_true', ← Bool.not_eq_true, List.all_eq_true] at h
      exact absurd hall (h.resolve_left hne)
  · rw [if_neg h, Option.some_inj]
    rw [Bool.or_eq_true, List.isEmpty_iff, Bool.not_eq_true', ← Bool.not_eq_true, List.all_eq_true, not_or,
      not_not] at h
    have hvalue : (digits.foldl appendDigit ∅).toNat = Numeral.digitsValue digits :=
      toNat_foldl_appendDigit h.2
    constructor
    · rintro rfl
      exact ⟨h.1, h.2, hvalue⟩
    · rintro ⟨-, -, hs⟩
      exact toNat_injective (hvalue.trans hs.symm)

end ScriptBundle.BitSet

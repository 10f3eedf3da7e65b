/-!
# Sets of bits

A finite set of natural numbers, packed into words of 64 bits, the lowest word first.  The last
word is never zero, so that a set has one representation only.

A request names a set by a decimal number, a graph shows it in hexadecimal, and a message lists its
elements.

## Main definitions

* `BitSet`: a set of natural numbers.
* `BitSet.contains`, `BitSet.toList`, `BitSet.count`: views of a set.
* `BitSet.singleton`, `BitSet.insert`, `BitSet.union`, `BitSet.inter`, `BitSet.symmDiff`.
* `BitSet.compare`: the order of the numbers that have the sets as their binary digits.
* `BitSet.toNat`: that number.
* `BitSet.ofDecimal?`: the set of the binary ones of a decimal number of any length.
* `BitSet.hex`: the number in hexadecimal.
* `BitSet.listing`: the elements in braces.

## Main results

* `trimmed_cons`: putting a word in front keeps the last word different from zero.
-/

namespace ScriptBundle

/-- A word of a set of bits. -/
abbrev Word := BitVec 64

namespace Word

/-- One more than the greatest number in a word. -/
def size : Nat := 0x10000000000000000

/-- The places of a word that hold a one, in ascending order. -/
def ones (w : Word) : List Nat := (List.range 64).filter fun i => w.getLsbD i

/-- The word with a one at the place `i` alone. -/
def single (i : Nat) : Word := BitVec.twoPow 64 i

end Word

/-- The last word is not zero. -/
def Trimmed (words : List Word) : Prop := words.getLast? ≠ some 0

/-- A finite set of natural numbers. -/
structure BitSet where
  words : List Word
  trimmed : Trimmed words

namespace BitSet

/-- Put a word below the others, unless it is zero and there are no others. -/
def lower (w : Word) (words : List Word) : List Word :=
  if w = 0 ∧ words = [] then [] else w :: words

theorem trimmed_nil : Trimmed [] := by simp [Trimmed]

theorem trimmed_cons {w : Word} {words : List Word} (h : Trimmed words)
    (hw : words = [] → w ≠ 0) : Trimmed (w :: words) := by
  cases words with
  | nil => simpa [Trimmed] using hw rfl
  | cons v vs => simpa [Trimmed, List.getLast?_cons_cons] using h

theorem trimmed_tail {w : Word} {words : List Word} (h : Trimmed (w :: words)) :
    Trimmed words := by
  cases words with
  | nil => exact trimmed_nil
  | cons v vs => simpa [Trimmed, List.getLast?_cons_cons] using h

theorem trimmed_lower {w : Word} {words : List Word} (h : Trimmed words) :
    Trimmed (lower w words) := by
  unfold lower
  split
  · exact trimmed_nil
  · next hn => exact trimmed_cons h fun hw hz => hn ⟨hz, hw⟩

instance : DecidableEq BitSet := fun a b =>
  if h : a.words = b.words then .isTrue (by cases a; cases b; simp_all)
  else .isFalse fun he => h (by rw [he])

/-- The empty set. -/
def empty : BitSet := ⟨[], trimmed_nil⟩

instance : EmptyCollection BitSet := ⟨empty⟩
instance : Inhabited BitSet := ⟨empty⟩

/-- The set has no element. -/
def isEmpty (s : BitSet) : Bool := s.words.isEmpty

/-- A bit of a list of words. -/
def bitOf : List Word → Nat → Bool
  | [], _ => false
  | w :: words, i => if i < 64 then w.getLsbD i else bitOf words (i - 64)

/-- The number `i` is an element. -/
def contains (s : BitSet) (i : Nat) : Bool := bitOf s.words i

/-- The words of a set with one element. -/
def singleWords (i : Nat) : List Word :=
  if i < 64 then [Word.single i] else 0 :: singleWords (i - 64)

theorem single_ne_zero {i : Nat} (h : i < 64) : Word.single i ≠ 0 := by
  intro he
  have := congrArg (fun w : Word => w.getLsbD i) he
  simp [Word.single, BitVec.getElem_twoPow, h] at this

theorem singleWords_ne_nil (i : Nat) : singleWords i ≠ [] := by
  unfold singleWords
  split <;> simp

theorem trimmed_singleWords (i : Nat) : Trimmed (singleWords i) := by
  fun_induction singleWords i with
  | case1 i h => exact trimmed_cons trimmed_nil fun _ => single_ne_zero h
  | case2 i h ih => exact trimmed_cons ih fun hn => absurd hn (singleWords_ne_nil _)

/-- The set with the element `i` alone. -/
def singleton (i : Nat) : BitSet := ⟨singleWords i, trimmed_singleWords i⟩

/-- The words of a union. -/
def unionWords : List Word → List Word → List Word
  | [], vs => vs
  | ws, [] => ws
  | w :: ws, v :: vs => (w ||| v) :: unionWords ws vs

theorem unionWords_eq_nil {ws vs : List Word} (h : unionWords ws vs = []) : ws = [] ∧ vs = [] := by
  unfold unionWords at h
  split at h <;> simp_all

theorem trimmed_unionWords {ws vs : List Word} (hw : Trimmed ws) (hv : Trimmed vs) :
    Trimmed (unionWords ws vs) := by
  fun_induction unionWords ws vs with
  | case1 => exact hv
  | case2 => exact hw
  | case3 w ws v vs ih =>
    refine trimmed_cons (ih (trimmed_tail hw) (trimmed_tail hv)) fun hn hz => ?_
    obtain ⟨rfl, rfl⟩ := unionWords_eq_nil hn
    have hne : w ≠ 0 := by simpa [Trimmed] using hw
    have hor := congrArg BitVec.toNat hz
    simp only [BitVec.toNat_or, BitVec.ofNat_eq_ofNat, BitVec.toNat_ofNat, Nat.zero_mod,
      Nat.or_eq_zero_iff] at hor
    exact hne (BitVec.eq_of_toNat_eq (by simpa using hor.1))

/-- The elements of either set. -/
def union (s t : BitSet) : BitSet :=
  ⟨unionWords s.words t.words, trimmed_unionWords s.trimmed t.trimmed⟩

/-- The words of an intersection. -/
def interWords : List Word → List Word → List Word
  | w :: ws, v :: vs => lower (w &&& v) (interWords ws vs)
  | _, _ => []

theorem trimmed_interWords (ws vs : List Word) : Trimmed (interWords ws vs) := by
  fun_induction interWords ws vs with
  | case1 w ws v vs ih => exact trimmed_lower ih
  | case2 => exact trimmed_nil

/-- The elements of both sets. -/
def inter (s t : BitSet) : BitSet := ⟨interWords s.words t.words, trimmed_interWords _ _⟩

/-- The words of a symmetric difference. -/
def symmDiffWords : List Word → List Word → List Word
  | [], vs => vs
  | ws, [] => ws
  | w :: ws, v :: vs => lower (w ^^^ v) (symmDiffWords ws vs)

theorem trimmed_symmDiffWords {ws vs : List Word} (hw : Trimmed ws) (hv : Trimmed vs) :
    Trimmed (symmDiffWords ws vs) := by
  fun_induction symmDiffWords ws vs with
  | case1 => exact hv
  | case2 => exact hw
  | case3 w ws v vs ih => exact trimmed_lower (ih (trimmed_tail hw) (trimmed_tail hv))

/-- The elements of one set but not of the other. -/
def symmDiff (s t : BitSet) : BitSet :=
  ⟨symmDiffWords s.words t.words, trimmed_symmDiffWords s.trimmed t.trimmed⟩

instance : Union BitSet := ⟨union⟩
instance : Inter BitSet := ⟨inter⟩

/-- The set with one more element. -/
def insert (s : BitSet) (i : Nat) : BitSet := s ∪ singleton i

/-- The sets have an element in common. -/
def intersects (s t : BitSet) : Bool :=
  (s.words.zip t.words).any fun p => p.1 &&& p.2 != 0

/-- The elements that words hold, from the number `base` on, in ascending order. -/
def elementsFrom (base : Nat) : List Word → List Nat
  | [] => []
  | w :: words => w.ones.map (base + ·) ++ elementsFrom (base + 64) words

/-- The elements in ascending order. -/
def toList (s : BitSet) : List Nat := elementsFrom 0 s.words

/-- How many elements there are. -/
def count (s : BitSet) : Nat := s.words.foldl (fun n w => n + w.ones.length) 0

/-- The order of two lists of words, the first one counting most. -/
def compareWords : List Word → List Word → Ordering
  | [], [] => .eq
  | [], _ :: _ => .lt
  | _ :: _, [] => .gt
  | w :: ws, v :: vs => (Ord.compare w.toNat v.toNat).then (compareWords ws vs)

/-- Sets are ordered like the numbers that have them as their binary digits: the longer one is
the greater, and of equally long ones the highest word decides. -/
def compare (s t : BitSet) : Ordering :=
  (Ord.compare s.words.length t.words.length).then
    (compareWords s.words.reverse t.words.reverse)

instance : Ord BitSet := ⟨compare⟩

/-- The number with the given words as its digits. -/
def wordsToNat : List Word → Nat
  | [] => 0
  | w :: words => Word.size * wordsToNat words + w.toNat

/-- The number that has the elements as the places of its binary ones. -/
def toNat (s : BitSet) : Nat := wordsToNat s.words

/-! ### Sets as texts -/

/-- Ten times the number of the words, plus `carry`. -/
def timesTenPlus : List Word → (carry : Nat) → List Word
  | [], carry => lower (BitVec.ofNat 64 carry) []
  | w :: words, carry =>
    let value := w.toNat * 10 + carry
    lower (BitVec.ofNat 64 value) (timesTenPlus words (value / Word.size))

theorem trimmed_timesTenPlus (words : List Word) (carry : Nat) :
    Trimmed (timesTenPlus words carry) := by
  fun_induction timesTenPlus words carry with
  | case1 => exact trimmed_lower trimmed_nil
  | case2 _ _ _ _ ih => exact trimmed_lower ih

/-- The set for a number with one more decimal digit. -/
def appendDigit (s : BitSet) (digit : Char) : BitSet :=
  ⟨timesTenPlus s.words (digit.toNat - '0'.toNat), trimmed_timesTenPlus _ _⟩

/-- The set whose number is written in decimal; nothing unless the text is a run of digits. -/
def ofDecimal? (digits : List Char) : Option BitSet :=
  if digits.isEmpty || !digits.all Char.isDigit then none
  else some (digits.foldl appendDigit ∅)

/-- The sixteen hexadecimal digits of a word. -/
def wordHex (w : Word) : List Char :=
  let digits := Nat.toDigits 16 w.toNat
  List.replicate (16 - digits.length) '0' ++ digits

/-- The number of a set in hexadecimal: the highest word without zeros in front, the others with
all their digits. -/
def hex (s : BitSet) : List Char :=
  '0' :: 'x' :: match s.words.reverse with
    | [] => ['0']
    | high :: rest => Nat.toDigits 16 high.toNat ++ rest.flatMap wordHex

/-- Numbers in braces, with commas between them. -/
def braced (ns : List Nat) : List Char :=
  '\x7b' :: (((ns.map (Nat.toDigits 10)).intersperse [',', ' ']).flatten ++ ['\x7d'])

/-- The elements of a set in braces. -/
def listing (s : BitSet) : List Char := braced s.toList

end BitSet

end ScriptBundle

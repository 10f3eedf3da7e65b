import ScriptBundle.Literal.Quotation
import ScriptBundle.Proofs.BitSet.Number
import ScriptBundle.Proofs.BitSet.Numerals

/-!
# Numbers read in decimal and written in hexadecimal

A decimal number is read with products of two words: the lower half stays where it is, the upper half is
carried to the next word, and a carry that is left makes the list of words longer.  Nothing is ever cut off,
and the last word never becomes zero.  In hexadecimal the highest word is written without zeros in front and
every other one with sixteen digits, so that the digits are those of the number.

## Main definitions

* `scaleWords`: the words for one more decimal digit, with carries of two words.
* `decimalWords?`: the words of a decimal number.
* `IsHexNumeral`: the shortest digits of a number, in lower case.

## Main results

* `scaleWords_eq`: a carry of two words is wide enough, and no zero is left at the end.
* `toDigits_append_padded`: a number whose lower part is written with a fixed number of digits.
* `hex_eq`: the hexadecimal digits of a set are those of its number.
* `decimal_hex_spec`: **runs of digits are read as the numbers they stand for, and nothing else is read; sets are
  written as the hexadecimal numerals of their numbers, and different sets differently.**
-/

namespace ScriptBundle.BitSet

variable {s t : BitSet} {digits : List Char} {words : List Word} {carry n : ℕ}

/-! ### Carries of two words -/

/-- Ten times the words, plus a carry.  The lower half of a product stays in the word, the upper half is
carried on, and what is carried behind the last word is put there. -/
def scaleWords : List Word → BitVec 128 → List Word
  | [], carry => if carry = 0 then [] else [carry.setWidth 64]
  | w :: words, carry =>
    let product := w.setWidth 128 * 10 + carry
    product.setWidth 64 :: scaleWords words (product >>> 64)

/-- The words of a decimal number, without zeros at the end; nothing unless the text is a run of digits. -/
def decimalWords? (digits : List Char) : Option (List Word) :=
  if digits.isEmpty || !digits.all Char.isDigit then none
  else
    let scaled := digits.foldl (fun words c => scaleWords words (BitVec.ofNat 128 (c.toNat - '0'.toNat))) []
    some (dropZeros scaled)

/-- Words that are no number have ended. -/
theorem eq_nil_of_wordsToNat (ht : Trimmed words) (h : wordsToNat words = 0) : words = [] := by
  by_contra hne
  have hle := le_wordsToNat ht hne
  have hpos : 0 < 2 ^ (64 * (words.length - 1)) := Nat.two_pow_pos _
  omega

theorem ofNat_eq_zero_iff {k : ℕ} (h : n < 2 ^ k) : BitVec.ofNat k n = 0 ↔ n = 0 := by
  rw [← BitVec.toNat_inj, BitVec.toNat_ofNat, Nat.mod_eq_of_lt h]
  rfl

/-- A product of a word and ten with a digit carried to it fits in two words. -/
theorem toNat_product (w : Word) (h : carry < 10) :
    (w.setWidth 128 * 10 + BitVec.ofNat 128 carry).toNat = w.toNat * 10 + carry := by
  have hw : w.toNat < 2 ^ 64 := w.isLt
  have hcarry : carry < 2 ^ 128 := by omega
  have hten : (10 : BitVec 128).toNat = 10 := rfl
  rw [BitVec.toNat_add, BitVec.toNat_mul, BitVec.toNat_setWidth, BitVec.toNat_ofNat, hten,
    Nat.mod_eq_of_lt hcarry, Nat.mod_eq_of_lt (show w.toNat < 2 ^ 128 by omega),
    Nat.mod_eq_of_lt (show w.toNat * 10 < 2 ^ 128 by omega),
    Nat.mod_eq_of_lt (show w.toNat * 10 + carry < 2 ^ 128 by omega)]

/-- **A carry of two words is wide enough, and no zero is left at the end.** -/
theorem scaleWords_eq (ht : Trimmed words) (h : carry < 10) :
    scaleWords words (BitVec.ofNat 128 carry) = timesTenPlus words carry := by
  induction words generalizing carry with
  | nil =>
    have hlow : (BitVec.ofNat 128 carry).setWidth 64 = BitVec.ofNat 64 carry := by
      rw [← BitVec.toNat_inj, BitVec.toNat_setWidth, BitVec.toNat_ofNat, BitVec.toNat_ofNat,
        Nat.mod_eq_of_lt (show carry < 2 ^ 128 by omega)]
    have hwide : BitVec.ofNat 128 carry = 0 ↔ carry = 0 := ofNat_eq_zero_iff (by omega)
    have hword : BitVec.ofNat 64 carry = 0 ↔ carry = 0 := ofNat_eq_zero_iff (by omega)
    simp only [scaleWords, timesTenPlus, lower, hwide, hword, hlow, and_true]
  | cons w words ih =>
    have hproduct := toNat_product w h
    have hcarry : (w.toNat * 10 + carry) / 2 ^ 64 < 10 := by
      have hw : w.toNat < 2 ^ 64 := w.isLt
      omega
    have hlow : (w.setWidth 128 * 10 + BitVec.ofNat 128 carry).setWidth 64
        = BitVec.ofNat 64 (w.toNat * 10 + carry) := by
      rw [← BitVec.toNat_inj, BitVec.toNat_setWidth, hproduct, BitVec.toNat_ofNat]
    have hhigh : (w.setWidth 128 * 10 + BitVec.ofNat 128 carry) >>> 64
        = BitVec.ofNat 128 ((w.toNat * 10 + carry) / 2 ^ 64) := by
      rw [← BitVec.toNat_inj, BitVec.toNat_ushiftRight, hproduct, BitVec.toNat_ofNat,
        Nat.shiftRight_eq_div_pow, Nat.mod_eq_of_lt (by omega)]
    -- if nothing follows this word, then it was the last one and not zero, and nothing was carried on
    have hlast : ¬ (BitVec.ofNat 64 (w.toNat * 10 + carry) = 0 ∧
        timesTenPlus words ((w.toNat * 10 + carry) / 2 ^ 64) = []) := by
      rintro ⟨hzero, hnil⟩
      have hsum : wordsToNat (timesTenPlus words ((w.toNat * 10 + carry) / 2 ^ 64))
          = 10 * wordsToNat words + (w.toNat * 10 + carry) / 2 ^ 64 := wordsToNat_timesTenPlus hcarry
      rw [hnil] at hsum
      have hsum : 0 = 10 * wordsToNat words + (w.toNat * 10 + carry) / 2 ^ 64 := hsum
      obtain rfl : words = [] := eq_nil_of_wordsToNat (trimmed_tail ht) (by omega)
      have hw : w ≠ 0 := by simpa [Trimmed] using ht
      have hpos : w.toNat ≠ 0 := fun hz => hw (BitVec.eq_of_toNat_eq (by simpa using hz))
      have hmod := congrArg BitVec.toNat hzero
      rw [BitVec.toNat_ofNat] at hmod
      have hmod : (w.toNat * 10 + carry) % 2 ^ 64 = 0 := hmod
      omega
    calc scaleWords (w :: words) (BitVec.ofNat 128 carry)
        = BitVec.ofNat 64 (w.toNat * 10 + carry)
            :: timesTenPlus words ((w.toNat * 10 + carry) / 2 ^ 64) := by
          rw [scaleWords, hlow, hhigh, ih (trimmed_tail ht) hcarry]
      _ = lower (BitVec.ofNat 64 (w.toNat * 10 + carry))
            (timesTenPlus words ((w.toNat * 10 + carry) / 2 ^ 64)) := by
          rw [lower, if_neg hlast]
      _ = timesTenPlus (w :: words) carry := rfl

/-- The words of a number grow alike with every digit. -/
theorem words_foldl_appendDigit (h : ∀ c ∈ digits, c.isDigit = true) (s : BitSet) :
    (digits.foldl appendDigit s).words
      = digits.foldl (fun words c => scaleWords words (BitVec.ofNat 128 (c.toNat - '0'.toNat))) s.words := by
  induction digits generalizing s with
  | nil => rfl
  | cons c digits ih =>
    have hc : c.isDigit = true := h c List.mem_cons_self
    rw [List.foldl_cons, List.foldl_cons, ih (fun d hd => h d (List.mem_cons_of_mem _ hd)),
      scaleWords_eq s.trimmed (digit_lt hc)]
    rfl

/-- A decimal number is read with carries of two words. -/
theorem words_ofDecimal? (digits : List Char) : (ofDecimal? digits).map BitSet.words = decimalWords? digits := by
  unfold ofDecimal? decimalWords?
  by_cases h : (digits.isEmpty || !digits.all Char.isDigit) = true
  · rw [if_pos h, if_pos h, Option.map_none]
  · rw [if_neg h, if_neg h, Option.map_some]
    rw [Bool.or_eq_true, not_or, Bool.not_eq_true', Bool.not_eq_false, List.all_eq_true] at h
    have hwords := words_foldl_appendDigit h.2 ∅
    have htrimmed := (digits.foldl appendDigit ∅).trimmed
    dsimp only
    rw [← show (∅ : BitSet).words = [] from rfl, ← hwords, dropZeros_of_trimmed htrimmed]

/-! ### Digits of numbers -/

/-- The digits of a number, with zeros in front up to a fixed number of digits. -/
def padded (b k n : ℕ) : List Char := List.replicate (k - (Nat.toDigits b n).length) '0' ++ Nat.toDigits b n

/-- With one more digit of the number there is one more in the padded text. -/
theorem padded_succ {b k q d : ℕ} (hb : 1 < b) (hk : 0 < k) (hd : d < b) :
    padded b (k + 1) (b * q + d) = padded b k q ++ Nat.toDigits b d := by
  unfold padded
  rcases Nat.eq_zero_or_pos q with rfl | hq
  · have hlength : (Nat.toDigits b d).length = 1 := by rw [Nat.toDigits_of_lt_base hd]; rfl
    have hzero : Nat.toDigits b 0 = ['0'] := Nat.toDigits_of_lt_base (by omega)
    obtain ⟨k, rfl⟩ := Nat.exists_eq_succ_of_ne_zero (Nat.ne_of_gt hk)
    rw [Nat.mul_zero, Nat.zero_add, hlength, hzero, Nat.add_sub_cancel, List.length_singleton,
      Nat.succ_sub_one, ← List.replicate_succ']
  · rw [← Nat.toDigits_append_toDigits hb hq hd, Nat.toDigits_of_lt_base hd, List.length_append,
      List.length_singleton, Nat.add_sub_add_right, List.append_assoc]

/-- **The digits of a number whose lower part is written with a fixed number of digits.** -/
theorem toDigits_append_padded {b k n m : ℕ} (hb : 1 < b) (hn : 0 < n) (hk : 0 < k) (hm : m < b ^ k) :
    Nat.toDigits b (b ^ k * n + m) = Nat.toDigits b n ++ padded b k m := by
  induction k, hk using Nat.le_induction generalizing m with
  | base =>
    have hm : m < b := by simpa using hm
    have hlength : (Nat.toDigits b m).length = 1 := by rw [Nat.toDigits_of_lt_base hm]; rfl
    rw [pow_one, ← Nat.toDigits_append_toDigits hb hn hm, padded, hlength]
    rfl
  | succ k hk ih =>
    have hd : m % b < b := Nat.mod_lt _ (by omega)
    have hq : m / b < b ^ k := Nat.div_lt_of_lt_mul (by rwa [pow_succ, Nat.mul_comm] at hm)
    have hpos : 0 < b ^ k * n + m / b :=
      Nat.add_pos_left (Nat.mul_pos (Nat.pow_pos (by omega)) hn) _
    calc Nat.toDigits b (b ^ (k + 1) * n + m)
        = Nat.toDigits b (b * (b ^ k * n + m / b) + m % b) := by
          congr 1
          rw [Nat.mul_add, Nat.add_assoc, Nat.div_add_mod, ← Nat.mul_assoc, ← pow_succ']
      _ = Nat.toDigits b n ++ (padded b k (m / b) ++ Nat.toDigits b (m % b)) := by
          rw [← Nat.toDigits_append_toDigits hb hpos hd, ih hq, List.append_assoc]
      _ = Nat.toDigits b n ++ padded b (k + 1) m := by
          rw [← padded_succ hb hk hd, Nat.div_add_mod]

/-- The hexadecimal digits of words. -/
def hexDigits (words : List Word) : List Char :=
  match words.reverse with
  | [] => ['0']
  | high :: rest => Nat.toDigits 16 high.toNat ++ rest.flatMap wordHex

theorem hexDigits_cons (w : Word) (hne : words ≠ []) : hexDigits (w :: words) = hexDigits words ++ wordHex w := by
  obtain ⟨high, rest, hreverse⟩ := List.exists_cons_of_ne_nil (List.reverse_ne_nil_iff.2 hne)
  simp [hexDigits, hreverse]

/-- The hexadecimal digits of words are those of the number. -/
theorem hexDigits_eq (ht : Trimmed words) : hexDigits words = Nat.toDigits 16 (wordsToNat words) := by
  induction words with
  | nil => rfl
  | cons w words ih =>
    by_cases hne : words = []
    · rw [hne]
      simp [hexDigits, wordsToNat]
    · have htail := trimmed_tail ht
      have hpos : 0 < wordsToNat words :=
        Nat.pos_of_ne_zero fun hzero => hne (eq_nil_of_wordsToNat htail hzero)
      have hw : w.toNat < 16 ^ 16 := w.isLt
      have hsplit := toDigits_append_padded (b := 16) (by decide) hpos (by decide) hw
      rw [hexDigits_cons w hne, ih htail, wordsToNat_cons]
      exact hsplit.symm

/-- The hexadecimal digits of a set are those of its number. -/
theorem hex_eq (s : BitSet) : s.hex = '0' :: 'x' :: Nat.toDigits 16 s.toNat := by
  have hdigits : hexDigits s.words = Nat.toDigits 16 s.toNat := hexDigits_eq s.trimmed
  rw [← hdigits]
  rfl

/-! ### Hexadecimal numerals -/

/-- The shortest hexadecimal digits of a number, in lower case. -/
structure IsHexNumeral (digits : List Char) (n : ℕ) : Prop where
  lowerCase : ∀ c ∈ digits, c.isDigit = true ∨ 'a' ≤ c ∧ c ≤ 'f'
  value : hexNumber? digits = some n
  shortest : ∀ other, other ≠ [] → hexNumber? other = some n → digits.length ≤ other.length

/-- What holds of every single digit holds of the digits of a number. -/
theorem forall_mem_toDigits {b : ℕ} (hb : 1 < b) {P : Char → Prop} (h : ∀ d < b, P (Nat.digitChar d)) (n : ℕ) :
    ∀ c ∈ Nat.toDigits b n, P c := by
  induction n using Nat.strong_induction_on with
  | _ n ih =>
    by_cases hn : n < b
    · rw [Nat.toDigits_of_lt_base hn, List.forall_mem_singleton]
      exact h n hn
    · have hmod : n % b < b := Nat.mod_lt n (by omega)
      have hdiv : n / b < n := Nat.div_lt_self (by omega) hb
      have hpos : 0 < n / b := Nat.div_pos (by omega) (by omega)
      rw [← Nat.div_add_mod n b, ← Nat.toDigits_append_toDigits hb hpos hmod, List.forall_mem_append,
        Nat.toDigits_of_lt_base hmod, List.forall_mem_singleton]
      exact ⟨ih (n / b) hdiv, h _ hmod⟩

theorem lowerCase_digitChar : ∀ n < 16, (Nat.digitChar n).isDigit = true ∨
    'a' ≤ Nat.digitChar n ∧ Nat.digitChar n ≤ 'f' := by decide

theorem hexValue?_digitChar : ∀ n < 16, hexValue? (Nat.digitChar n) = some n := by decide

theorem hexValue?_lt {c : Char} (h : hexValue? c = some n) : n < 16 := by
  unfold hexValue? at h
  split_ifs at h with hdigit hlower hupper
  · obtain rfl := Option.some.inj h
    have hle := (Char.isDigit_iff_toNat.1 hdigit).2
    have hnine : '9'.toNat = 57 := rfl
    omega
  · obtain rfl := Option.some.inj h
    have hle : c.toNat ≤ 'f'.toNat := hlower.2
    have hf : 'f'.toNat = 102 := rfl
    omega
  · obtain rfl := Option.some.inj h
    have hle : c.toNat ≤ 'F'.toNat := hupper.2
    have hf : 'F'.toNat = 70 := rfl
    omega

theorem hexNumber?_concat (digits : List Char) (c : Char) :
    hexNumber? (digits ++ [c]) = (hexNumber? digits).bind fun n => (hexValue? c).map (16 * n + ·) := by
  simp [hexNumber?, List.foldlM_append]

/-- So many digits do not make a greater number. -/
theorem hexNumber?_lt (h : hexNumber? digits = some n) : n < 16 ^ digits.length := by
  induction digits using List.reverseRecOn generalizing n with
  | nil =>
    obtain rfl : 0 = n := Option.some.inj h
    decide
  | append_singleton digits c ih =>
    rw [hexNumber?_concat] at h
    obtain ⟨m, hm, h⟩ := Option.bind_eq_some_iff.1 h
    obtain ⟨d, hd, rfl⟩ := Option.map_eq_some_iff.1 h
    have hlt := ih hm
    have hd := hexValue?_lt hd
    rw [List.length_append, List.length_singleton, pow_succ]
    omega

/-- The hexadecimal digits of a number are its shortest ones, in lower case. -/
theorem isHexNumeral_toDigits (n : ℕ) : IsHexNumeral (Nat.toDigits 16 n) n where
  lowerCase := forall_mem_toDigits (by decide) lowerCase_digitChar n
  value := by
    induction n using Nat.strong_induction_on with
    | _ n ih =>
      by_cases hn : n < 16
      · rw [Nat.toDigits_of_lt_base hn]
        simp [hexNumber?, hexValue?_digitChar n hn]
      · have hmod : n % 16 < 16 := Nat.mod_lt n (by decide)
        rw [← Nat.div_add_mod n 16, ← Nat.toDigits_append_toDigits (by decide) (by omega) hmod,
          Nat.toDigits_of_lt_base hmod, hexNumber?_concat, ih (n / 16) (by omega), Option.bind_some,
          hexValue?_digitChar _ hmod, Option.map_some]
  shortest := by
    intro other hne hother
    have hlength : 0 < other.length := List.length_pos_iff.2 hne
    exact (Nat.length_toDigits_le_iff (by decide) hlength).2 (hexNumber?_lt hother)

theorem hex_inj : s.hex = t.hex ↔ s = t := by
  constructor
  · intro h
    rw [hex_eq, hex_eq] at h
    obtain ⟨-, h⟩ := List.cons.inj h
    obtain ⟨-, h⟩ := List.cons.inj h
    have hvalue := (isHexNumeral_toDigits s.toNat).value
    rw [h, (isHexNumeral_toDigits t.toNat).value] at hvalue
    exact toNat_injective (Option.some.inj hvalue).symm
  · exact congrArg hex

/-- **Runs of digits are read as the numbers that they stand for, with products of two words, and nothing else
is read.  Sets are written as the hexadecimal numerals of their numbers, and different sets differently.** -/
theorem decimal_hex_spec (digits : List Char) (s t : BitSet) :
    ((∃ read, ofDecimal? digits = some read) ↔ digits ≠ [] ∧ ∀ c ∈ digits, c.isDigit = true) ∧
    (ofDecimal? digits = some s ↔
      digits ≠ [] ∧ (∀ c ∈ digits, c.isDigit = true) ∧ s.toNat = Numeral.digitsValue digits) ∧
    (ofDecimal? digits).map BitSet.words = decimalWords? digits ∧
    s.hex = '0' :: 'x' :: Nat.toDigits 16 s.toNat ∧
    IsHexNumeral (Nat.toDigits 16 s.toNat) s.toNat ∧
    (s.hex = t.hex ↔ s = t) := by
  refine ⟨?_, ofDecimal?_eq_some_iff, words_ofDecimal? digits, hex_eq s, isHexNumeral_toDigits _, hex_inj⟩
  constructor
  · rintro ⟨read, hread⟩
    obtain ⟨hne, hdigits, -⟩ := ofDecimal?_eq_some_iff.1 hread
    exact ⟨hne, hdigits⟩
  · rintro ⟨hne, hdigits⟩
    -- the number that has been read digit by digit is the one that the digits stand for
    exact ⟨digits.foldl appendDigit ∅,
      ofDecimal?_eq_some_iff.2 ⟨hne, hdigits, toNat_foldl_appendDigit hdigits⟩⟩

/-- A number of two words, with a zero in front. -/
example : ofDecimal? "018446744073709551617".toList = some (singleton 64 ∪ singleton 0) ∧
    (singleton 64 ∪ singleton 0).hex = "0x10000000000000001".toList := by
  decide +kernel

end ScriptBundle.BitSet

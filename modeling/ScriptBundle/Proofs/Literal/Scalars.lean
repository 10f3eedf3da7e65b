import ScriptBundle.Literal.Lexeme
import ScriptBundle.Literal.Value

/-!
# Scanning what JSON writes

The scanner takes more than JSON, but a JSON text, a whole number and a word are scanned as what they
stand for.

## Main definitions

* `EndsToken`: a text before which numbers and words end.

## Main results

* `stringBody_json`: **the content of a JSON text is the text.**
* `scanToken_json`, `scanToken_integer`, `scanToken_word`, `scanToken_mark`: the tokens of JSON.
-/

namespace ScriptBundle

/-! ### Texts -/

theorem hexQuad?_append {digits : List Char} (h : digits.length = 4) (rest : List Char) :
    hexQuad? (digits ++ rest) = (hexNumber? digits).map fun n => (n, rest) := by
  match digits, h with
  | [_, _, _, _], _ => rfl

/-- The code of a control character has four digits, and they have its value. -/
theorem hexNumber?_controlEscape : ∀ n < 0x20,
    (List.replicate (4 - (Nat.toDigits 16 n).length) '0' ++ Nat.toDigits 16 n).length = 4 ∧
      hexNumber? (List.replicate (4 - (Nat.toDigits 16 n).length) '0' ++ Nat.toDigits 16 n) = some n := by
  decide +kernel

theorem charOf?_toNat (c : Char) : charOf? c.toNat = some c := by
  have hvalid : c.toNat.isValidChar := c.valid
  rw [charOf?, dif_pos hvalid]
  rfl

/-- The code of a control character stands for it. -/
theorem unicodeEscape_controlEscape {c : Char} (h : c.toNat < 0x20) (rest : List Char) :
    ∃ digits, Text.controlEscape c = '\\' :: 'u' :: digits ∧
      unicodeEscape (digits ++ rest) = .ok (c, rest) := by
  obtain ⟨hlength, hnumber⟩ := hexNumber?_controlEscape c.toNat h
  have hhigh : isHighSurrogate c.toNat = false := by
    simp [isHighSurrogate]
    omega
  refine ⟨_, rfl, ?_⟩
  rw [unicodeEscape, hexQuad?_append hlength, hnumber, Option.map_some]
  dsimp only
  rw [hhigh, charOf?_toNat]
  rfl

theorem stringBody_unicode {quote : Char} {cs rest : List Char} {c : Char}
    (h : unicodeEscape cs = .ok (c, rest)) :
    stringBody quote ('\\' :: 'u' :: cs) = (stringBody quote rest).map fun r => (c :: r.1, r.2) := by
  rw [stringBody]
  split
  · next hfault => cases h.symm.trans hfault
  · next found =>
    obtain ⟨rfl, rfl⟩ := Prod.mk.inj (Except.ok.inj (h.symm.trans found))
    rfl

theorem stringBody_plain {c : Char} (hquote : c ≠ '"') (hbackslash : c ≠ '\\') (hn : c ≠ '\n')
    (hr : c ≠ '\r') (cs : List Char) :
    stringBody '"' (c :: cs) = (stringBody '"' cs).map fun r => (c :: r.1, r.2) := by
  rw [stringBody, if_neg (by simp [hn, hr, hbackslash]), if_neg hquote]
  · exact fun _ hc => absurd hc hbackslash
  · exact fun _ _ hc => absurd hc hbackslash

/-- What a JSON text writes for a character stands for this character. -/
theorem stringBody_jsonChar (c : Char) (cs : List Char) :
    stringBody '"' (Text.jsonChar c ++ cs) = (stringBody '"' cs).map fun r => (c :: r.1, r.2) := by
  unfold Text.jsonChar
  split
  case h_8 hquote hbackslash _ _ hn hr _ =>
    split
    · next hcontrol =>
      obtain ⟨digits, htext, hescape⟩ := unicodeEscape_controlEscape hcontrol cs
      rw [htext]
      exact stringBody_unicode hescape
    · exact stringBody_plain hquote hbackslash hn hr cs
  -- all the others are escaped by one character
  all_goals simp [stringBody, simpleEscape]

/-- **The content of a JSON text is the text.** -/
theorem stringBody_json (cs rest : List Char) :
    stringBody '"' (cs.flatMap Text.jsonChar ++ '"' :: rest) = .ok (cs, rest) := by
  induction cs with
  | nil => simp [stringBody]
  | cons c cs ih =>
    rw [List.flatMap_cons, List.append_assoc, stringBody_jsonChar, ih]
    rfl

/-! ### The ends of numbers and words -/

/-- A number or a word ends before this text: it is empty, or a comma or a closing mark comes first. -/
def EndsToken (rest : List Char) : Prop :=
  ∀ c, rest.head? = some c → c = ',' ∨ c = ']' ∨ c = '\x7d'

variable {rest : List Char}

theorem EndsToken.takeWhile (h : EndsToken rest) {p : Char → Bool} (hcomma : p ',' = false)
    (hbracket : p ']' = false) (hbrace : p '\x7d' = false) :
    rest.takeWhile p = [] ∧ rest.dropWhile p = rest := by
  cases rest with
  | nil => exact ⟨rfl, rfl⟩
  | cons c rest =>
    have hc : p c = false := by
      rcases h c rfl with rfl | rfl | rfl <;> assumption
    exact ⟨List.takeWhile_cons_of_neg (by simp [hc]), List.dropWhile_cons_of_neg (by simp [hc])⟩

/-- What goes on to the end of a token is taken as a whole. -/
theorem EndsToken.takeWhile_append (h : EndsToken rest) {p : Char → Bool} (hcomma : p ',' = false)
    (hbracket : p ']' = false) (hbrace : p '\x7d' = false) {cs : List Char}
    (hcs : ∀ c ∈ cs, p c = true) :
    (cs ++ rest).takeWhile p = cs ∧ (cs ++ rest).dropWhile p = rest := by
  obtain ⟨htake, hdrop⟩ := h.takeWhile hcomma hbracket hbrace
  rw [List.takeWhile_append_of_pos hcs, List.dropWhile_append_of_pos hcs, htake, hdrop, List.append_nil]
  exact ⟨rfl, rfl⟩

/-! ### Tokens -/

theorem scanToken_mark (m : Mark) (rest : List Char) :
    scanToken (m.char :: rest) = .ok (.mark m, rest) := by
  cases m <;> rfl

/-- A JSON text is scanned as what it stands for. -/
theorem scanToken_json (cs rest : List Char) :
    scanToken (Text.json cs ++ rest) = .ok (.text (String.ofList cs), rest) := by
  have hquote : Text.json cs ++ rest = '"' :: (cs.flatMap Text.jsonChar ++ '"' :: rest) := by
    simp [Text.json]
  rw [hquote, scanToken]
  · simp [Mark.ofChar?, scanQuoted, stringBody_json]
  · exact fun _ h => absurd h (by decide)

/-- A character that starts no mark, no quoted text and no comment. -/
theorem scanToken_other {c : Char} (hmark : Mark.ofChar? c = none) (hslash : c ≠ '/') (hdouble : c ≠ '"')
    (hsingle : c ≠ '\'') (cs : List Char) :
    scanToken (c :: cs) =
      if isNumeralStart c then scanNumeral (c :: cs)
      else if isWordStart c then
        .ok (.word (String.ofList (c :: cs.takeWhile isWordRest)), cs.dropWhile isWordRest)
      else .error ⟨.unexpectedChar c, c :: cs⟩ := by
  rw [scanToken, hmark]
  · dsimp only
    rw [if_neg (by simp [hdouble, hsingle])]
  · exact fun _ h => absurd h hslash

theorem ne_of_test {p : Char → Bool} {c d : Char} (hc : p c = true) (hd : p d = false) : c ≠ d := by
  rintro rfl
  rw [hc] at hd
  cases hd

theorem ofChar?_eq_none {p : Char → Bool} {c : Char} (hc : p c = true)
    (hp : ∀ m : Mark, p m.char = false) : Mark.ofChar? c = none := by
  cases h : Mark.ofChar? c with
  | none => rfl
  | some m => exact absurd (Mark.ofChar?_eq_some_iff.1 h) (ne_of_test hc (hp m))

theorem isDigit_eq_false {c : Char} (h : c.isAlpha = true) : c.isDigit = false := by
  have hbounds : 'A'.val.toNat = 65 ∧ 'Z'.val.toNat = 90 ∧ 'a'.val.toNat = 97 ∧ 'z'.val.toNat = 122 ∧
      '0'.val.toNat = 48 ∧ '9'.val.toNat = 57 := by decide
  delta Char.isAlpha Char.isUpper Char.isLower at h
  simp only [Char.isDigit, Bool.or_eq_true, Bool.and_eq_true, decide_eq_true_eq, Bool.and_eq_false_iff,
    decide_eq_false_iff_not, ge_iff_le, UInt32.le_iff_toNat_le] at h ⊢
  omega

/-- No word starts like a number. -/
theorem isNumeralStart_eq_false {c : Char} (h : isWordStart c = true) : isNumeralStart c = false := by
  have hdigit : c.isDigit = false := by
    simp only [isWordStart, Bool.or_eq_true, beq_iff_eq] at h
    rcases h with (h | rfl) | rfl
    · exact isDigit_eq_false h
    · rfl
    · rfl
  have hminus : c ≠ '-' := ne_of_test h rfl
  have hplus : c ≠ '+' := ne_of_test h rfl
  have hpoint : c ≠ '.' := ne_of_test h rfl
  simp [isNumeralStart, hdigit, hminus, hplus, hpoint]

/-- A word is scanned up to its end. -/
theorem scanToken_word {c : Char} {cs : List Char} (hstart : isWordStart c = true)
    (hcs : ∀ d ∈ cs, isWordRest d = true) (hrest : EndsToken rest) :
    scanToken (c :: cs ++ rest) = .ok (.word (String.ofList (c :: cs)), rest) := by
  obtain ⟨htake, hdrop⟩ := hrest.takeWhile_append rfl rfl rfl hcs
  have hmark := ofChar?_eq_none hstart (by rintro (_ | _) <;> rfl)
  rw [List.cons_append, scanToken_other hmark (ne_of_test hstart rfl) (ne_of_test hstart rfl)
    (ne_of_test hstart rfl), isNumeralStart_eq_false hstart, hstart, htake, hdrop]
  rfl

/-- A number is scanned by its spelling. -/
theorem scanToken_numeral {c : Char} (hstart : isNumeralStart c = true) (cs : List Char) :
    scanToken (c :: cs) = scanNumeral (c :: cs) := by
  have hmark := ofChar?_eq_none hstart (by rintro (_ | _) <;> rfl)
  rw [scanToken_other hmark (ne_of_test hstart rfl) (ne_of_test hstart rfl) (ne_of_test hstart rfl),
    if_pos hstart]

/-- A sign and digits are cut as a numeral without further parts. -/
theorem scan_digits (negative : Bool) {ds : List Char} (hds : ∀ d ∈ ds, d.isDigit = true) (hne : ds ≠ [])
    (hrest : EndsToken rest) :
    Numeral.scan (Number.signText negative ++ (ds ++ rest))
      = (⟨Number.signText negative, ds, none, none, []⟩, rest) := by
  obtain ⟨htake, hdrop⟩ := hrest.takeWhile_append rfl rfl rfl hds
  obtain ⟨htail, hbehind⟩ := hrest.takeWhile (p := isWordRest) rfl rfl rfl
  have hsign : Numeral.scanSign (Number.signText negative ++ (ds ++ rest))
      = (Number.signText negative, ds ++ rest) := by
    cases negative with
    | true => rfl
    | false =>
      -- without a sign the first digit must not be taken for one
      cases ds with
      | nil => exact absurd rfl hne
      | cons d ds =>
        have hd := hds d List.mem_cons_self
        have hminus : d ≠ '-' := ne_of_test hd rfl
        have hplus : d ≠ '+' := ne_of_test hd rfl
        simp [Number.signText, Numeral.scanSign, hminus, hplus]
  have hfraction : Numeral.scanFraction rest = (none, rest) := by
    unfold Numeral.scanFraction
    split
    · next cs => rcases hrest '.' rfl with h | h | h <;> cases h
    · rfl
  have hexponent : Numeral.scanExponent rest = (none, rest) := by
    unfold Numeral.scanExponent
    split
    · next c cs =>
      have hc : ¬ (c = 'e' ∨ c = 'E') := by
        rcases hrest c rfl with rfl | rfl | rfl <;> decide
      rw [if_neg hc]
    · rfl
  simp only [Numeral.scan, Numeral.scanDigits, hsign, htake, hdrop, hfraction, hexponent, htail, hbehind]

/-- A whole number that fits in 64 bits is what its digits stand for. -/
theorem value?_digits {i : Int} (hi : -0x8000000000000000 ≤ i ∧ i ≤ 0xFFFFFFFFFFFFFFFF) :
    (Numeral.mk (Number.signText (decide (i < 0))) (Nat.toDigits 10 i.natAbs) none none []).value?
      = some (.integer i) := by
  have hdigits : Numeral.digitsValue (Nat.toDigits 10 i.natAbs) = i.natAbs :=
    Nat.ofDigitChars_toDigits (by omega) (by omega)
  have hvalue : (if Number.signText (decide (i < 0)) = ['-'] then -(i.natAbs : Int) else i.natAbs) = i := by
    by_cases hneg : i < 0
    · rw [decide_eq_true hneg, if_pos (by decide)]
      omega
    · rw [decide_eq_false hneg, if_neg (by decide)]
      omega
  have hinteger : (Numeral.mk (Number.signText (decide (i < 0))) (Nat.toDigits 10 i.natAbs)
      none none []).integer? = some (.integer i) := by
    unfold Numeral.integer?
    dsimp only
    rw [hdigits, hvalue, if_neg (by simp [Nat.toDigits_ne_nil]), if_pos hi]
  rw [Numeral.value?, hinteger]
  rfl

theorem isDigit_of_mem_toDigits {d : Char} {n : Nat} (h : d ∈ Nat.toDigits 10 n) : d.isDigit = true :=
  Nat.isDigit_of_mem_toDigits (by omega) (by omega) h

/-- A whole number is written with a sign or a digit in front. -/
theorem exists_write_integer (i : Int) :
    ∃ c cs, (Number.integer i).write = c :: cs ∧ isNumeralStart c = true := by
  rw [Number.write]
  cases decide (i < 0) with
  | true => exact ⟨_, _, rfl, rfl⟩
  | false =>
    obtain ⟨d, ds, hd⟩ := List.exists_cons_of_ne_nil (Nat.toDigits_ne_nil (n := i.natAbs) (b := 10))
    have hdigit : d.isDigit = true := isDigit_of_mem_toDigits (hd ▸ List.mem_cons_self)
    exact ⟨d, ds, by rw [hd]; rfl, by simp [isNumeralStart, hdigit]⟩

/-- **A whole number is scanned as itself.** -/
theorem scanToken_integer {i : Int} (hi : -0x8000000000000000 ≤ i ∧ i ≤ 0xFFFFFFFFFFFFFFFF)
    (hrest : EndsToken rest) :
    scanToken ((Number.integer i).write ++ rest) = .ok (.number (.integer i), rest) := by
  have hdigits : ∀ d ∈ Nat.toDigits 10 i.natAbs, d.isDigit = true := fun _ => isDigit_of_mem_toDigits
  have hscan := scan_digits (decide (i < 0)) hdigits Nat.toDigits_ne_nil hrest
  have hnumeral : scanNumeral ((Number.integer i).write ++ rest) = .ok (.number (.integer i), rest) := by
    rw [Number.write, List.append_assoc, scanNumeral, hscan, value?_digits hi]
  obtain ⟨c, cs, htext, hc⟩ := exists_write_integer i
  rw [htext] at hnumeral ⊢
  rw [List.cons_append, scanToken_numeral hc, ← List.cons_append, hnumeral]

end ScriptBundle

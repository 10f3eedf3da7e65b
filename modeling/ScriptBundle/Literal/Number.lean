import ScriptBundle.Double

/-!
# Numbers in literals

A number in a literal is a whole number, if it is written as one and fits in 64 bits with or
without a sign, and a double otherwise.

## Main definitions

* `Number`: a whole number or a double.
* `Number.write`: the text of a number.
* `Numeral`: a number as it is spelled, cut into its parts.
* `Numeral.scan`: the numeral at the front of a text, and the rest of the text.
* `Numeral.value?`: the number that a numeral stands for.

## Main results

* `Numeral.scan_append`: a numeral and the rest together are the text.
-/

namespace ScriptBundle

/-- A number of a literal. -/
inductive Number where
  /-- A whole number between `-2^63` and `2^64 - 1`. -/
  | integer (value : Int)
  /-- Any other number. -/
  | real (value : Double)
  deriving DecidableEq, Repr, Inhabited

/-- The characters that start a word. -/
def isWordStart (c : Char) : Bool := c.isAlpha || c == '_' || c == '$'

/-- The characters that continue a word. -/
def isWordRest (c : Char) : Bool := c.isAlphanum || c == '_' || c == '$'

namespace Number

/-- Numbers are written without an exponent from `0.00001` up to sixteen places before the
point, and a double always has a point or an exponent. -/
def layout : DecimalLayout := ⟨-5, 16⟩

/-- A minus sign, if the number is negative. -/
def signText (negative : Bool) : List Char := if negative then ['-'] else []

/-- The text of a number. -/
def write : Number → List Char
  | .integer i => signText (decide (i < 0)) ++ Nat.toDigits 10 i.natAbs
  | .real x => signText x.negative ++ layout.write x.shortest

/-- The value of a whole number that is not negative. -/
def natural? : Number → Option Nat
  | .integer i => if 0 ≤ i then some i.toNat else none
  | .real _ => none

end Number

/-- The exponent of a numeral: its mark, its sign and its digits. -/
structure Numeral.Exponent where
  mark : Char
  sign : List Char
  digits : List Char

/-- A number as it is spelled: a sign, digits, a point with more digits, an exponent, and the word
characters that follow without a gap.  Every part may be missing. -/
structure Numeral where
  sign : List Char
  whole : List Char
  fraction : Option (List Char)
  exponent : Option Numeral.Exponent
  tail : List Char

namespace Numeral

/-- The text of an exponent. -/
def Exponent.text (e : Exponent) : List Char := e.mark :: (e.sign ++ e.digits)

/-- The text of a numeral. -/
def text (n : Numeral) : List Char :=
  n.sign ++ n.whole ++ (n.fraction.elim [] ('.' :: ·)) ++ (n.exponent.elim [] Exponent.text)
    ++ n.tail

/-- At most one sign, and the rest of the text. -/
def scanSign : List Char → List Char × List Char
  | '-' :: cs => (['-'], cs)
  | '+' :: cs => (['+'], cs)
  | cs => ([], cs)

/-- The digits at the front of a text, and the rest. -/
def scanDigits (cs : List Char) : List Char × List Char :=
  (cs.takeWhile Char.isDigit, cs.dropWhile Char.isDigit)

/-- A point with the digits after it, and the rest of the text. -/
def scanFraction : List Char → Option (List Char) × List Char
  | '.' :: cs => (some (scanDigits cs).1, (scanDigits cs).2)
  | cs => (none, cs)

/-- An exponent, and the rest of the text. -/
def scanExponent : List Char → Option Exponent × List Char
  | c :: cs =>
    if c = 'e' ∨ c = 'E' then
      let (sign, afterSign) := scanSign cs
      let (digits, rest) := scanDigits afterSign
      (some ⟨c, sign, digits⟩, rest)
    else (none, c :: cs)
  | [] => (none, [])

/-- The numeral at the front of a text, and the rest of the text. -/
def scan (cs : List Char) : Numeral × List Char :=
  let (sign, afterSign) := scanSign cs
  let (whole, afterWhole) := scanDigits afterSign
  let (fraction, afterFraction) := scanFraction afterWhole
  let (exponent, afterExponent) := scanExponent afterFraction
  (⟨sign, whole, fraction, exponent, afterExponent.takeWhile isWordRest⟩,
    afterExponent.dropWhile isWordRest)

/-- The value of a run of decimal digits. -/
def digitsValue (digits : List Char) : Nat := Nat.ofDigitChars 10 digits 0

/-- The decimal power of an exponent; an exponent needs a digit. -/
def Exponent.value? (e : Exponent) : Option Int :=
  if e.digits.isEmpty then none
  else if e.sign = ['-'] then some (-(digitsValue e.digits)) else some (digitsValue e.digits)

/-- The double that a numeral stands for.  It needs a digit before or after the point, and it must
not be too large. -/
def real? (n : Numeral) : Option Number := do
  let fraction := n.fraction.getD []
  if n.whole.isEmpty && fraction.isEmpty then none
  let scale ← n.exponent.elim (some 0) Exponent.value?
  let digits := digitsValue (n.whole ++ fraction)
  let x ← Double.nearest? (decide (n.sign = ['-'])) digits (scale - fraction.length)
  pure (.real x)

/-- The whole number that a numeral without point and exponent stands for, if it fits in 64
bits. -/
def integer? (n : Numeral) : Option Number :=
  let size : Int := digitsValue n.whole
  let value := if n.sign = ['-'] then -size else size
  if n.whole.isEmpty || n.fraction.isSome || n.exponent.isSome then none
  else if -0x8000000000000000 ≤ value ∧ value ≤ 0xFFFFFFFFFFFFFFFF then some (.integer value)
  else none

/-- The number that a numeral stands for.  Word characters directly after the number spoil it. -/
def value? (n : Numeral) : Option Number :=
  if n.tail.isEmpty then n.integer?.or n.real? else none

/-! ### A numeral and what follows it -/

theorem scanSign_append (cs : List Char) : (scanSign cs).1 ++ (scanSign cs).2 = cs := by
  unfold scanSign
  split <;> rfl

theorem scanDigits_append (cs : List Char) : (scanDigits cs).1 ++ (scanDigits cs).2 = cs :=
  List.takeWhile_append_dropWhile

theorem scanFraction_append (cs : List Char) :
    (scanFraction cs).1.elim [] ('.' :: ·) ++ (scanFraction cs).2 = cs := by
  unfold scanFraction
  split
  · simp [scanDigits_append]
  · rfl

theorem scanExponent_append (cs : List Char) :
    (scanExponent cs).1.elim [] Exponent.text ++ (scanExponent cs).2 = cs := by
  unfold scanExponent
  split
  · split
    · simp [Exponent.text, scanDigits_append, scanSign_append]
    · rfl
  · rfl

/-- A numeral and the rest together are the text. -/
theorem scan_append (cs : List Char) : (scan cs).1.text ++ (scan cs).2 = cs := by
  simp only [scan, text, List.append_assoc, List.takeWhile_append_dropWhile,
    scanExponent_append, scanFraction_append, scanDigits_append, scanSign_append]

end Numeral

end ScriptBundle

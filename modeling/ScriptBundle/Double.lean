/-!
# Double precision numbers

A finite number of double precision is a sign, a whole significand below `2^53` and a power of
two.  Decimal numbers are rounded to it in exact arithmetic on natural numbers, so that nothing
depends on the machine's own floating point.

Of the decimal numbers that round to a given double, the ones with the fewest digits are wanted,
and of these the nearest.  The decimal numbers of `n` digits form a grid; a point of that grid
rounds to the double just if one of the two grid points around the double does.  So the grids are
tried from the coarsest on.  Where the point of a decimal number goes is a matter of the format: a
`DecimalLayout` holds the choices of one format.

## Main definitions

* `Double`: the number `± significand * 2 ^ exponent`.
* `roundDiv num den`: a quotient rounded to a whole number, a half going to the even neighbour.
* `Double.nearest?`: the double nearest to a decimal number, or nothing if it is too large.
* `Decimal`: the number `digits * 10 ^ scale`.
* `Double.roundsTo x d`: the decimal `d` lies in the interval of the numbers that round to `x`.
* `Double.shortest x`: the shortest and, of those, nearest decimal that rounds to `x`.
* `DecimalLayout.write`: the text of a decimal number.
-/

namespace ScriptBundle

/-- The finite number `± significand * 2 ^ exponent` of double precision.  The significand has
53 bits, or fewer if the exponent is the least one, `-1074`. -/
structure Double where
  negative : Bool
  significand : Nat
  exponent : Int
  deriving DecidableEq, Repr, Inhabited

/-- The quotient `num / den` rounded to a whole number; a half goes to the even neighbour. -/
def roundDiv (num den : Nat) : Nat :=
  if 2 * (num % den) < den ∨ (2 * (num % den) = den ∧ num / den % 2 = 0) then num / den
  else num / den + 1

/-- The number of decimal digits of a natural number, at least one. -/
def decimalLength (n : Nat) : Nat := (Nat.toDigits 10 n).length

namespace Double

/-- The least exponent of a double. -/
def minExponent : Int := -1074

/-- The greatest exponent of a double. -/
def maxExponent : Int := 971

/-- The double zero of either sign. -/
def zero (negative : Bool) : Double := ⟨negative, 0, minExponent⟩

/-- The whole part of the binary logarithm of the positive quotient `num / den`. -/
def floorLog2 (num den : Nat) : Int :=
  let k : Int := (Nat.log2 num : Int) - Nat.log2 den
  if den * Nat.pow 2 k.toNat ≤ num * Nat.pow 2 (-k).toNat then k else k - 1

/-- The positive quotient `num / den` in double precision, or nothing if it rounds to a number
beyond the greatest double. -/
def ofQuotient? (negative : Bool) (num den : Nat) : Option Double :=
  let exponent := max (floorLog2 num den - 52) minExponent
  let significand := roundDiv (num * Nat.pow 2 (-exponent).toNat) (den * Nat.pow 2 exponent.toNat)
  let (significand, exponent) :=
    if significand = Nat.pow 2 53 then (Nat.pow 2 52, exponent + 1) else (significand, exponent)
  if maxExponent < exponent then none else some ⟨negative, significand, exponent⟩

/-- The double nearest to `± digits * 10 ^ scale`, ties going to the even significand; nothing if
it lies beyond the greatest double.  A number of 310 or more places before the point is beyond
it, and one that starts later than the 326th place after the point rounds to zero, so the power
of ten that is computed stays small. -/
def nearest? (negative : Bool) (digits : Nat) (scale : Int) : Option Double :=
  let places : Int := decimalLength digits + scale
  if digits = 0 ∨ places < -326 then some (zero negative)
  else if 310 < places then none
  else ofQuotient? negative (digits * Nat.pow 10 scale.toNat) (Nat.pow 10 (-scale).toNat)

end Double

/-! ### The shortest decimal of a double -/

/-- The non-negative decimal number `digits * 10 ^ scale`. -/
structure Decimal where
  digits : Nat
  scale : Int
  deriving DecidableEq, Repr, Inhabited

/-- A non-negative quotient of two natural numbers, kept as a pair. -/
structure Ratio where
  num : Nat
  den : Nat

/-- The order of quotients with positive denominators, by cross multiplication. -/
def Ratio.compare (a b : Ratio) : Ordering := Ord.compare (a.num * b.den) (b.num * a.den)

/-- The quotient `n * base ^ exponent`. -/
def Ratio.scaled (n base : Nat) (exponent : Int) : Ratio :=
  ⟨n * Nat.pow base exponent.toNat, Nat.pow base (-exponent).toNat⟩

/-- The decimal as a quotient. -/
def Decimal.ratio (d : Decimal) : Ratio := Ratio.scaled d.digits 10 d.scale

/-- The same number with no zero at the end of its digits. -/
def Decimal.trimmed (d : Decimal) : Decimal :=
  let zeros := ((Nat.toDigits 10 d.digits).reverse.takeWhile (· == '0')).length
  if d.digits = 0 then ⟨0, 0⟩ else ⟨d.digits / Nat.pow 10 zeros, d.scale + zeros⟩

namespace Double

/-- The size of a double as a quotient. -/
def ratio (x : Double) : Ratio := Ratio.scaled x.significand 2 x.exponent

/-- The lower end of the interval of numbers that round to `x`: half way to the next smaller
double, which is nearer if `x` is a power of two. -/
def lowerEnd (x : Double) : Ratio :=
  let gap := if x.significand = Nat.pow 2 52 ∧ minExponent < x.exponent then 1 else 2
  Ratio.scaled (4 * x.significand - gap) 2 (x.exponent - 2)

/-- The upper end of the interval of numbers that round to `x`. -/
def upperEnd (x : Double) : Ratio := Ratio.scaled (4 * x.significand + 2) 2 (x.exponent - 2)

/-- The decimal `d` rounds to the size of `x`.  The ends of the interval round to `x` if its
significand is even. -/
def roundsTo (x : Double) (d : Decimal) : Bool :=
  let below := x.lowerEnd.compare d.ratio
  let above := d.ratio.compare x.upperEnd
  if x.significand % 2 = 0 then below.isLE && above.isLE else below.isLT && above.isLT

/-- The whole part of the decimal logarithm of a positive double. -/
def floorLog10 (x : Double) : Int :=
  let r := x.ratio
  let k : Int := (decimalLength r.num : Int) - decimalLength r.den
  if ((Ratio.scaled 1 10 k).compare r).isLE then k else k - 1

/-- The best decimal of the grid with step `10 ^ scale` that rounds to `x`: of the two grid points
around `x` the nearer one that does, at equal distance the even one. -/
def onGrid? (x : Double) (scale : Int) : Option Decimal :=
  let r := x.ratio
  let floor := (r.num * Nat.pow 10 (-scale).toNat) / (r.den * Nat.pow 10 scale.toNat)
  let middle : Ratio :=
    ⟨(2 * floor + 1) * Nat.pow 10 scale.toNat, 2 * Nat.pow 10 (-scale).toNat⟩
  let lower : Decimal := ⟨floor, scale⟩
  let upper : Decimal := ⟨floor + 1, scale⟩
  let lowerFirst := match r.compare middle with
    | .lt => true
    | .gt => false
    | .eq => floor % 2 = 0
  (if lowerFirst then [lower, upper] else [upper, lower]).find? x.roundsTo

/-- The decimal with the fewest digits that rounds to the size of `x`, and of those the nearest.
Seventeen digits are always enough. -/
def shortest (x : Double) : Decimal :=
  if x.significand = 0 then ⟨0, 0⟩
  else
    let top := x.floorLog10
    let found := (List.range 17).findSome? fun (more : Nat) => x.onGrid? (top - more)
    (found.getD ⟨0, 0⟩).trimmed

end Double

/-! ### Writing a decimal -/

/-- The choices of a number format.  A number whose first digit has the place value `10 ^ k` is
written without an exponent if `positionalFrom ≤ k < positionalBelow`. -/
structure DecimalLayout where
  positionalFrom : Int
  positionalBelow : Int

namespace DecimalLayout

/-- Digits with a point, for a first digit of place value `10 ^ top`.  There is always a digit on
either side of the point. -/
def positional (digits : List Char) (top : Int) : List Char :=
  if top < 0 then
    '0' :: '.' :: (List.replicate (-top - 1).toNat '0' ++ digits)
  else
    let whole := top.toNat + 1
    let padded := digits ++ List.replicate (whole - digits.length) '0'
    let fraction := padded.drop whole
    padded.take whole ++ '.' :: (if fraction.isEmpty then ['0'] else fraction)

/-- Digits with a point after the first one, if more follow, and a signed exponent. -/
def scientific (digits : List Char) (top : Int) : List Char :=
  let fraction := digits.drop 1
  digits.take 1 ++ (if fraction.isEmpty then [] else '.' :: fraction)
    ++ 'e' :: (if top < 0 then '-' else '+') :: Nat.toDigits 10 top.natAbs

/-- The text of a non-negative decimal number without zeros at the end of its digits. -/
def write (layout : DecimalLayout) (d : Decimal) : List Char :=
  let digits := Nat.toDigits 10 d.digits
  let top : Int := if d.digits = 0 then 0 else d.scale + digits.length - 1
  if layout.positionalFrom ≤ top ∧ top < layout.positionalBelow then positional digits top
  else scientific digits top

end DecimalLayout

end ScriptBundle

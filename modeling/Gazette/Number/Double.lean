/-!
# Double-precision numbers

A `Double` is a floating-point number of 64 bits, kept as its bits, so that equality is decidable
and all arithmetic below is exact arithmetic on natural numbers followed by one rounding.
`ofRatio` rounds a quotient to the nearest double, a tie to the even significand, and what is too
large to infinity; sums, products and quotients are defined by it.
-/

namespace Gazette

/-- A double-precision floating-point number, given by its bits. -/
structure Double where
  bits : UInt64
  deriving DecidableEq, Repr, Inhabited

namespace Double

/-- How many bits of a double hold its fraction. -/
def fractionBits : Nat := 52

/-- The exponent of the smallest positive number, `2 ^ (-1074)`. -/
def minExponent : Int := -1074

/-- Whether the sign bit is set. -/
def isNegative (x : Double) : Bool := Nat.pow 2 63 ≤ x.bits.toNat

/-- The bits below the sign. -/
def magnitudeBits (x : Double) : Nat := x.bits.toNat % Nat.pow 2 63

/-- The exponent as the bits hold it. -/
def biasedExponent (x : Double) : Nat := x.magnitudeBits / Nat.pow 2 fractionBits

/-- Whether the number is neither infinite nor undefined. -/
def isFinite (x : Double) : Bool := x.biasedExponent ≠ 2047

/-- Whether the number is zero, of either sign. -/
def isZero (x : Double) : Bool := x.magnitudeBits == 0

/-- The integer `m` of a finite number `m · 2 ^ q`. -/
def significand (x : Double) : Nat :=
  let fraction := x.magnitudeBits % Nat.pow 2 fractionBits
  if x.biasedExponent = 0 then fraction else fraction + Nat.pow 2 fractionBits

/-- The exponent `q` of a finite number `m · 2 ^ q`. -/
def exponent (x : Double) : Int :=
  if x.biasedExponent = 0 then minExponent else minExponent + (x.biasedExponent - 1 : Nat)

/-- The number with a given sign and given bits below it. -/
def ofMagnitude (negative : Bool) (magnitude : Nat) : Double :=
  ⟨UInt64.ofNat (magnitude + if negative then Nat.pow 2 63 else 0)⟩

/-- Zero, with either sign. -/
def zero (negative : Bool) : Double := ofMagnitude negative 0

/-- An infinity, with either sign. -/
def infinity (negative : Bool) : Double := ofMagnitude negative (2047 * Nat.pow 2 fractionBits)

/-- The value that is no number. -/
def undefined : Double := ofMagnitude false (2047 * Nat.pow 2 fractionBits + Nat.pow 2 51)

/-- Numerator and denominator of the absolute value of a finite number. -/
def ratio (x : Double) : Nat × Nat :=
  if 0 ≤ x.exponent then (x.significand * Nat.pow 2 x.exponent.toNat, 1)
  else (x.significand, Nat.pow 2 (-x.exponent).toNat)

/-- The quotient rounded to the nearest natural number, a half to the even one. -/
def roundDiv (num den : Nat) : Nat :=
  let quotient := num / den
  let rest := 2 * (num % den)
  if rest < den then quotient
  else if den < rest then quotient + 1
  else quotient + quotient % 2

/-- `num / den` in units of `2 ^ q`, rounded to the nearest natural number. -/
def inUnits (num den : Nat) (q : Int) : Nat :=
  if 0 ≤ q then roundDiv num (den * Nat.pow 2 q.toNat)
  else roundDiv (num * Nat.pow 2 (-q).toNat) den

/-- Whether `num / den` is at least `2 ^ e`. -/
def atLeastPower (num den : Nat) (e : Int) : Bool :=
  if 0 ≤ e then den * Nat.pow 2 e.toNat ≤ num else den ≤ num * Nat.pow 2 (-e).toNat

/-- The exponent of the unit in which `num / den` is rounded: its leading bit gets place 52, and
no unit is smaller than that of the smallest number. -/
def unitExponent (num den : Nat) : Int :=
  let estimate : Int := (num.log2 : Int) - den.log2
  let leading := if atLeastPower num den estimate then estimate else estimate - 1
  max (leading - fractionBits) minExponent

/-- The double nearest to `num / den`, with a given sign.  The significand rounded in the unit
`2 ^ q` counts from `(q - minExponent) · 2 ^ 52`, so that a carry moves to the next exponent. -/
def ofRatio (negative : Bool) (num den : Nat) : Double :=
  if num = 0 then zero negative
  else
    let q := unitExponent num den
    let magnitude := (q - minExponent).toNat * Nat.pow 2 fractionBits + inUnits num den q
    if 2047 * Nat.pow 2 fractionBits ≤ magnitude then infinity negative
    else ofMagnitude negative magnitude

/-- The double nearest to an integer. -/
def ofInt (n : Int) : Double := ofRatio (n < 0) n.natAbs 1

/-- The double nearest to a power of ten. -/
def powerOfTen (k : Nat) : Double := ofRatio false (Nat.pow 10 k) 1

/-- The double with the other sign. -/
def neg (x : Double) : Double := ofMagnitude (!x.isNegative) x.magnitudeBits

/-- The rounded product of two finite numbers. -/
def mul (x y : Double) : Double :=
  let (n₁, d₁) := x.ratio
  let (n₂, d₂) := y.ratio
  ofRatio (x.isNegative != y.isNegative) (n₁ * n₂) (d₁ * d₂)

/-- The rounded quotient of two finite numbers, the second not zero. -/
def div (x y : Double) : Double :=
  let (n₁, d₁) := x.ratio
  let (n₂, d₂) := y.ratio
  ofRatio (x.isNegative != y.isNegative) (n₁ * d₂) (d₁ * n₂)

/-- The rounded sum of two finite numbers; an exact zero is positive. -/
def add (x y : Double) : Double :=
  let (n₁, d₁) := x.ratio
  let (n₂, d₂) := y.ratio
  let signed (negative : Bool) (n : Nat) : Int := if negative then -(n : Int) else n
  let sum := signed x.isNegative (n₁ * d₂) + signed y.isNegative (n₂ * d₁)
  ofRatio (sum < 0) sum.natAbs (d₁ * d₂)

/-- Numerical equality: the two zeros are equal. -/
def sameNumber (x y : Double) : Bool := x = y || (x.isZero && y.isZero)

end Double

end Gazette

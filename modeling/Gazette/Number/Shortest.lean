import Gazette.Number.Double

/-!
# Shortest decimals

The decimal that stands for a double in text is the shortest one that reads back as the same
double, and of those the nearest.  Decimals with `k` digits form a grid; `shortest?` looks for the
first grid with a point among the reals that round to the double, and only the two points of the
grid next to the double have to be tried.
-/

namespace Gazette

/-- The decimal number `coefficient · 10 ^ exponent`. -/
structure Decimal where
  coefficient : Nat
  exponent : Int
  deriving DecidableEq, Repr, Inhabited

namespace Decimal

/-- The number of decimal digits; zero has none. -/
def digitCount (n : Nat) : Nat := if n = 0 then 0 else (Nat.toDigits 10 n).length

/-- The decimal without the zeros at the end of its coefficient, which it drops at most `fuel`
times. -/
def trim : Nat → Decimal → Decimal
  | 0, d => d
  | fuel + 1, d =>
    if d.coefficient ≠ 0 ∧ d.coefficient % 10 = 0 then
      trim fuel ⟨d.coefficient / 10, d.exponent + 1⟩
    else d

/-- The real numbers that round to one double: those between `low / den` and `high / den`, with
the ends if `closed`.  The double itself is `center / den`. -/
structure Interval where
  low : Nat
  center : Nat
  high : Nat
  den : Nat
  closed : Bool
  deriving Repr

namespace Interval

/-- The interval of a positive finite double.  Half the distance to the next double is `2 / 4` of
a unit; below a power of two it is `1 / 4`, unless the double is the smallest of its kind. -/
def ofDouble (x : Double) : Interval :=
  let m := x.significand
  let q := x.exponent
  let below := if m = Nat.pow 2 Double.fractionBits ∧ Double.minExponent < q then 1 else 2
  let scale := Nat.pow 2 q.toNat
  ⟨(4 * m - below) * scale, 4 * m * scale, (4 * m + 2) * scale, 4 * Nat.pow 2 (-q).toNat,
    m % 2 == 0⟩

/-- Whether the point `c · 10 ^ p` lies in the interval. -/
def contains (i : Interval) (c : Nat) (p : Int) : Bool :=
  let point := c * Nat.pow 10 p.toNat * i.den
  let scale := Nat.pow 10 (-p).toNat
  if i.closed then i.low * scale ≤ point && point ≤ i.high * scale
  else i.low * scale < point && point < i.high * scale

/-- The exponent of the power of ten just above the center. -/
def magnitude (i : Interval) : Int :=
  if i.den ≤ i.center then digitCount (i.center / i.den)
  else 1 - (digitCount ((i.den - 1) / i.center) : Int)

/-- The point next to the center on the grid of multiples of `10 ^ p` that lies in the interval;
the nearer of two, and the even one of two equally near. -/
def nearest? (i : Interval) (p : Int) : Option Nat :=
  let num := i.center * Nat.pow 10 (-p).toNat
  let den := i.den * Nat.pow 10 p.toNat
  let below := num / den
  let above := below + 1
  match i.contains below p, i.contains above p with
  | false, false => none
  | true, false => some below
  | false, true => some above
  | true, true =>
    let rest := 2 * (num % den)
    if rest < den then some below
    else if den < rest then some above
    else some (below + below % 2)

/-- The first grid among those of `digits`, `digits + 1`, … digits that has a point in the
interval, of at most `fuel` grids. -/
def firstGrid (i : Interval) : Nat → Nat → Option Decimal
  | 0, _ => none
  | fuel + 1, digits =>
    let p := i.magnitude - digits
    match i.nearest? p with
    | some c => some ⟨c, p⟩
    | none => firstGrid i fuel (digits + 1)

end Interval

/-- The number of digits that always suffice to tell two doubles apart. -/
def maxDigits : Nat := 17

/-- The shortest decimal of a positive finite double. -/
def shortest? (x : Double) : Option Decimal :=
  ((Interval.ofDouble x).firstGrid maxDigits 1).map (trim (maxDigits + 1))

end Decimal

end Gazette

import Gazette.Number.Shortest

/-!
# Numbers

A number of a document or a response is an integer or a double, and the two stay apart: `1` and
`1.0` have different texts.  This file holds the numbers, their text (`Number.chars`) and the
reading of a number's parts (`Lexeme.toNumber?`).
-/

namespace Gazette

/-- A number: an integer of any size, or a double. -/
inductive Number where
  | int (value : Int)
  | float (value : Double)
  deriving DecidableEq, Repr, Inhabited

namespace Number

/-- The least signed integer of 64 bits. -/
def minInt64 : Int := -Int.pow 2 63

/-- The greatest signed integer of 64 bits. -/
def maxInt64 : Int := Int.pow 2 63 - 1

/-- The integer that a number is, if it is one and fits 64 signed bits. -/
def toInt64? : Number → Option Int
  | int n => if minInt64 ≤ n ∧ n ≤ maxInt64 then some n else none
  | float _ => none

/-- The double nearest to a number. -/
def toDouble : Number → Double
  | int n => Double.ofInt n
  | float x => x

/-- Whether two numbers are the same one: kinds differ, and the two zeros of doubles do not. -/
def same : Number → Number → Bool
  | int a, int b => a = b
  | float x, float y => x.sameNumber y
  | _, _ => false

/-! ## Text -/

/-- Which decimals are written positionally: the least and the greatest exponent of the first
digit.  Others are written as a power of ten with the sign of its exponent. -/
structure PositionalRange where
  least : Int
  greatest : Int

/-- Doubles from `0.00001` up to `10 ^ 16` are written positionally. -/
def positionalRange : PositionalRange := ⟨-5, 15⟩

/-- The decimal digits of a number. -/
def digits (n : Nat) : List Char := Nat.toDigits 10 n

/-- The characters of an integer. -/
def intChars (n : Int) : List Char :=
  if n < 0 then '-' :: digits n.natAbs else digits n.natAbs

/-- The digits `ds` of a decimal written positionally, with at least one digit after the point,
where `lead` is the exponent of the first digit. -/
def positional (ds : List Char) (lead : Int) : List Char :=
  if lead < 0 then
    '0' :: '.' :: (List.replicate ((-lead).toNat - 1) '0' ++ ds)
  else
    let whole := lead.toNat + 1
    if ds.length ≤ whole then ds ++ List.replicate (whole - ds.length) '0' ++ ['.', '0']
    else ds.take whole ++ '.' :: ds.drop whole

/-- The digits `ds` of a decimal written as a power of ten, as in `1.5e-7` and `1e+16`. -/
def scientific (ds : List Char) (lead : Int) : List Char :=
  let fraction := match ds.drop 1 with
    | [] => []
    | rest => '.' :: rest
  ds.take 1 ++ fraction ++ 'e' :: (if lead < 0 then '-' else '+') :: digits lead.natAbs

/-- The characters of a decimal, with an exponent if its leading digit is too far from the point. -/
def decimalChars (d : Decimal) : List Char :=
  let ds := digits d.coefficient
  let lead := d.exponent + ds.length - 1
  if positionalRange.least ≤ lead ∧ lead ≤ positionalRange.greatest then positional ds lead
  else scientific ds lead

/-- The text of a double: its shortest decimal after its sign; a value that is no number of finite
size has the text of null. -/
def doubleChars (x : Double) : List Char :=
  if !x.isFinite then "null".toList
  else
    let sign := if x.isNegative then ['-'] else []
    if x.isZero then sign ++ "0.0".toList
    else sign ++ (Decimal.shortest? x).elim [] decimalChars

/-- The characters of a number. -/
def chars : Number → List Char
  | int n => intChars n
  | float x => doubleChars x

/-- The text of a number. -/
def text (n : Number) : String := String.ofList n.chars

/-! ## Reading -/

/-- The parts of a number in a text: its sign, the digits before and after the point, and the
exponent with its sign. -/
structure Lexeme where
  negative : Bool
  whole : List Nat
  fraction : Option (List Nat)
  exponent : Option (Bool × List Nat)
  deriving Repr

namespace Lexeme

/-- Appends digits to `significand` while it fits 64 bits; the digits left over come second. -/
def absorb (significand : Nat) : List Nat → Nat × List Nat
  | [] => (significand, [])
  | d :: rest =>
    if 10 * significand + d < Nat.pow 2 64 then absorb (10 * significand + d) rest
    else (significand, d :: rest)

/-- The number that decimal digits stand for. -/
def natOf (ds : List Nat) : Nat := ds.foldl (fun n d => 10 * n + d) 0

/-- The greatest power of ten that a double holds. -/
def maxPower : Nat := 308

/-- `x / 10 ^ k`, with one rounded division for each `308` places and one for the rest. -/
def scaleDown (x : Double) (k : Nat) : Double :=
  if k ≤ maxPower then x.div (Double.powerOfTen k)
  else if x.isZero then x
  else scaleDown (x.div (Double.powerOfTen maxPower)) (k - maxPower)
termination_by k
decreasing_by simp [maxPower] at *; omega

/-- `significand · 10 ^ exponent` by rounded operations on doubles, if it is finite. -/
def scale? (significand : Nat) (exponent : Int) : Option Double :=
  let x := Double.ofRatio false significand 1
  if exponent < 0 then some (scaleDown x exponent.natAbs)
  else if x.isZero then some x
  else if maxPower < exponent.toNat then none
  else
    let y := x.mul (Double.powerOfTen exponent.toNat)
    if y.isFinite then some y else none

/-- The double that a number's parts stand for.  The digits that fit 64 bits make the significand,
further digits before the point count as places and further digits after it are dropped. -/
def toDouble? (l : Lexeme) : Option Double :=
  let (s₁, left₁) := absorb 0 l.whole
  let fraction := l.fraction.getD []
  let (s₂, left₂) := absorb s₁ fraction
  let places : Int := (left₁.length : Int) - (fraction.length - left₂.length : Nat)
  let power : Int := match l.exponent with
    | none => 0
    | some (true, ds) => -(natOf ds : Int)
    | some (false, ds) => natOf ds
  (scale? s₂ (places + power)).map fun x => if l.negative then x.neg else x

/-- The number that a number's parts stand for: an integer if there is neither point nor exponent
and it fits 64 bits, negative ones as signed and others as unsigned; else a double, unless that is
too large.  A negative zero is a double. -/
def toNumber? (l : Lexeme) : Option Number :=
  let n := natOf l.whole
  if l.fraction.isSome || l.exponent.isSome then l.toDouble?.map float
  else if !l.negative && n < Nat.pow 2 64 then some (int n)
  else if l.negative && 0 < n && n ≤ Nat.pow 2 63 then some (int (-(n : Int)))
  else l.toDouble?.map float

end Lexeme

/-- The number that a decimal digit stands for. -/
def digitOf? (c : Char) : Option Nat :=
  if '0' ≤ c ∧ c ≤ '9' then some (c.toNat - '0'.toNat) else none

/-- The decimal digits at the start of a text, and the text after them. -/
def takeDigits : List Char → List Nat × List Char
  | [] => ([], [])
  | c :: rest =>
    match digitOf? c with
    | some d =>
      let (ds, after) := takeDigits rest
      (d :: ds, after)
    | none => ([], c :: rest)

/-- The natural number of a text of decimal digits, of which there is at least one. -/
def ofDigits? (cs : List Char) : Option Nat :=
  match takeDigits cs with
  | (d :: ds, []) => some (Lexeme.natOf (d :: ds))
  | _ => none

/-- The digits of a whole number at the start of a text: a single zero, or digits that do not
start with zero. -/
def takeWhole (cs : List Char) : Option (List Nat × List Char) :=
  match cs with
  | '0' :: rest => some ([0], rest)
  | _ =>
    match takeDigits cs with
    | ([], _) => none
    | found => some found

/-- The fraction at the start of a text, if there is one: a point and at least one digit. -/
def takeFraction (cs : List Char) : Option (List Nat) × List Char :=
  match cs with
  | '.' :: rest =>
    match takeDigits rest with
    | ([], _) => (none, cs)
    | (ds, rest') => (some ds, rest')
  | _ => (none, cs)

/-- The exponent at the start of a text, if there is one: `e`, a sign, and at least one digit. -/
def takeExponent (cs : List Char) : Option (Bool × List Nat) × List Char :=
  match cs with
  | e :: rest =>
    if e = 'e' ∨ e = 'E' then
      let (negative, rest) := match rest with
        | '-' :: r => (true, r)
        | '+' :: r => (false, r)
        | r => (false, r)
      match takeDigits rest with
      | ([], _) => (none, cs)
      | (ds, rest') => (some (negative, ds), rest')
    else (none, cs)
  | [] => (none, [])

/-- The parts of the number at the start of a text, and the text after it.  A point or an exponent
without digits is not part of the number. -/
def takeLexeme (cs : List Char) : Option (Lexeme × List Char) :=
  let (negative, cs) := match cs with
    | '-' :: r => (true, r)
    | r => (false, r)
  (takeWhole cs).map fun (whole, rest) =>
    let (fraction, rest) := takeFraction rest
    let (exponent, rest) := takeExponent rest
    (⟨negative, whole, fraction, exponent⟩, rest)

end Number

end Gazette

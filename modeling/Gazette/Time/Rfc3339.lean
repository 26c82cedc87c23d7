import Gazette.Number
import Gazette.Text.Blank
import Gazette.Text.Pieces
import Gazette.Text.Quoted
import Gazette.Time.Calendar
import Gazette.Time.Instant

/-!
# Dates as text

Instants are written as in RFC 3339, in universal time (`Rfc3339.text`), and read from a wider form
(`Rfc3339.ofText?`): any offset, one digit where two are usual, white space between the parts, `UTC`
for the offset, and years of any length behind a sign.  The second 60 is a leap second.
-/

namespace Gazette.Rfc3339

/-- The number of seconds in a day without a leap second. -/
def secondsPerDay : Nat := 86400

/-- The first year that an instant may fall in. -/
def minYear : Int := -262143

/-- The last year that an instant may fall in. -/
def maxYear : Int := 262142

/-! ## Writing -/

/-- A number in at least `width` digits. -/
def padded (width n : Nat) : List Char := Text.padLeft width (Number.digits n)

/-- A year: four digits, and a sign before a year that is negative or has more digits. -/
def yearChars (year : Int) : List Char :=
  if 0 ≤ year ∧ year ≤ 9999 then padded 4 year.toNat
  else (if year < 0 then '-' else '+') :: padded 4 year.natAbs

/-- The fraction of a second: none, or the fewest of three, six and nine digits that lose
nothing. -/
def fractionChars (nanos : Nat) : List Char :=
  if nanos = 0 then []
  else if nanos % 1000000 = 0 then '.' :: padded 3 (nanos / 1000000)
  else if nanos % 1000 = 0 then '.' :: padded 6 (nanos / 1000)
  else '.' :: padded 9 nanos

/-- The characters of an instant in UTC. -/
def chars (t : Instant) : List Char :=
  let date := Date.ofDays (t.seconds.fdiv secondsPerDay)
  let second := (t.seconds.fmod secondsPerDay).toNat
  let leap := if t.isLeap then 1 else 0
  yearChars date.year ++ '-' :: padded 2 date.month ++ '-' :: padded 2 date.day ++
    'T' :: padded 2 (second / 3600) ++ ':' :: padded 2 (second / 60 % 60) ++
    ':' :: padded 2 (second % 60 + leap) ++
    fractionChars (t.nanos - leap * Instant.nanosPerSecond) ++ ['Z']

/-- An instant as text. -/
def text (t : Instant) : String := String.ofList (chars t)

/-! ## Reading -/

/-- At most `width` digits at the start of a text, and the text after them. -/
def takeUpTo : (width : Nat) → List Char → List Nat × List Char
  | 0, cs => ([], cs)
  | width + 1, cs =>
    match cs with
    | c :: rest =>
      match Number.digitOf? c with
      | some d =>
        let (ds, after) := takeUpTo width rest
        (d :: ds, after)
      | none => ([], cs)
    | [] => ([], [])

/-- A number of one to `width` digits, after white space. -/
def takeNumber (width : Nat) (cs : List Char) : Option (Nat × List Char) :=
  match takeUpTo width (Text.trimStart cs) with
  | ([], _) => none
  | (ds, rest) => some (Number.Lexeme.natOf ds, rest)

/-- A year, after white space: up to four digits, or a sign and any number of digits. -/
def takeYear (cs : List Char) : Option (Int × List Char) :=
  match Text.trimStart cs with
  | '-' :: rest =>
    match Number.takeDigits rest with
    | ([], _) => none
    | (ds, after) => some (-(Number.Lexeme.natOf ds : Int), after)
  | '+' :: rest =>
    match Number.takeDigits rest with
    | ([], _) => none
    | (ds, after) => some (Number.Lexeme.natOf ds, after)
  | rest => (takeNumber 4 rest).map fun (n, after) => (n, after)

/-- The text after the mark `c`, which white space may precede. -/
def skipMark? (c : Char) (cs : List Char) : Option (List Char) :=
  Text.skipMark? c (Text.trimStart cs)

/-- The nanoseconds that the digits of a fraction stand for; digits after the ninth are dropped. -/
def nanosOf (ds : List Nat) : Nat :=
  Number.Lexeme.natOf (ds.take 9 ++ List.replicate (9 - ds.length) 0)

/-- The fraction of a second, if there is one: a point and at least one digit. -/
def takeNanos (cs : List Char) : Option (Nat × List Char) :=
  match cs with
  | '.' :: rest =>
    match Number.takeDigits rest with
    | ([], _) => none
    | (ds, after) => some (nanosOf ds, after)
  | _ => some (0, cs)

/-- Two digits and what follows them. -/
def takePair : List Char → Option (Nat × Nat × List Char)
  | a :: b :: rest => do return (← Number.digitOf? a, ← Number.digitOf? b, rest)
  | _ => none

/-- An offset from universal time in seconds: `Z`, `UTC`, or a sign, two digits of hours and two of
minutes.  Colons and white space may stand between the two pairs. -/
def takeOffset (cs : List Char) : Option (Int × List Char) :=
  match cs with
  | u :: t :: c :: rest =>
    if (u = 'U' ∨ u = 'u') ∧ (t = 'T' ∨ t = 't') ∧ (c = 'C' ∨ c = 'c') then some (0, rest)
    else signed cs
  | _ => signed cs
where
  /-- An offset given by a letter for zero or by a sign. -/
  signed : List Char → Option (Int × List Char)
    | [] => none
    | c :: rest =>
      if c = 'Z' ∨ c = 'z' then some (0, rest)
      else if c = '+' then hours rest
      else if c = '-' ∨ c = '\u2212' then (hours rest).map fun (s, after) => (-s, after)
      else none
  /-- The hours and minutes of an offset, in seconds. -/
  hours (cs : List Char) : Option (Int × List Char) := do
    let (h₁, h₂, rest) ← takePair cs
    let (m₁, m₂, after) ← takePair (rest.dropWhile fun c => c = ':' || Text.isWhiteSpace c)
    if m₁ < 6 then
      return ((((10 * h₁ + h₂) * 60 + (10 * m₁ + m₂)) * 60 : Nat), after)
    else none

/-- The parts of an instant as they are written: date, time of day and offset from UTC in seconds.
-/
structure Parts where
  date : Date
  hour : Nat
  minute : Nat
  second : Nat
  nanos : Nat
  offset : Int
  deriving Repr

/-- Whether parts are within their bounds. -/
def Parts.isValid (p : Parts) : Bool :=
  p.date.isValid && minYear ≤ p.date.year && p.date.year ≤ maxYear &&
    p.hour ≤ 23 && p.minute ≤ 59 && p.second ≤ 60 && p.offset.natAbs < secondsPerDay

/-- The instant that the parts stand for.  The second 60 is the leap second after 59. -/
def Parts.instant (p : Parts) : Instant :=
  let leap := p.second = 60
  let second := if leap then 59 else p.second
  ⟨p.date.toDays * secondsPerDay + ((p.hour * 60 + p.minute) * 60 + second : Nat) - p.offset,
    if leap then Instant.nanosPerSecond + p.nanos else p.nanos⟩

/-- The parts at the start of a text, and the text after them. -/
def takeParts (cs : List Char) : Option (Parts × List Char) := do
  let (year, cs) ← takeYear cs
  let (month, cs) ← takeNumber 2 (← skipMark? '-' cs)
  let (day, cs) ← takeNumber 2 (← skipMark? '-' cs)
  let cs ← match cs with
    | c :: rest => if c = 'T' ∨ c = 't' ∨ c = ' ' then some rest else none
    | [] => none
  let (hour, cs) ← takeNumber 2 cs
  let (minute, cs) ← takeNumber 2 (← skipMark? ':' cs)
  let (second, cs) ← takeNumber 2 (← skipMark? ':' cs)
  let (nanos, cs) ← takeNanos cs
  let (offset, cs) ← takeOffset (Text.trimStart cs)
  return (⟨⟨year, month, day⟩, hour, minute, second, nanos, offset⟩, cs)

/-- Whether the year of an instant, in universal time, is in the range of years. -/
def isInRange (t : Instant) : Bool :=
  let year := (Date.ofDays (t.seconds.fdiv secondsPerDay)).year
  minYear ≤ year && year ≤ maxYear

/-- Reads a text that is one date and time, with white space around it. -/
def ofChars? (cs : List Char) : Option Instant := do
  let (parts, rest) ← takeParts cs
  guard ((Text.trimStart rest).isEmpty && parts.isValid && isInRange parts.instant)
  return parts.instant

/-- The instant that a text spells out. -/
def ofText? (source : String) : Option Instant := ofChars? source.toList

end Gazette.Rfc3339

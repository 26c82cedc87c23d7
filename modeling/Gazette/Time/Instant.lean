import Gazette.Number.Double

/-!
# Instants

A point in time is a count of seconds since the beginning of 1970 and a count of nanoseconds.  A
leap second repeats the second before it with `10 ^ 9` nanoseconds or more.  The file holds
instants, their order (`before`), the passing of time (`Instant.advance`) and the instant as one
double (`Instant.timestamp`).
-/

namespace Gazette

/-- A point in time: seconds since the beginning of 1970, and nanoseconds.  Nanoseconds from `10 ^
9` on lie in a leap second. -/
structure Instant where
  seconds : Int
  nanos : Nat
  deriving DecidableEq, Repr, Inhabited

namespace Instant

/-- The number of nanoseconds in a second. -/
def nanosPerSecond : Nat := 1000000000

/-- The beginning of 1970. -/
def epoch : Instant := ⟨0, 0⟩

/-- Whether `a` is earlier than `b`. -/
def before (a b : Instant) : Bool :=
  a.seconds < b.seconds || (a.seconds = b.seconds && a.nanos < b.nanos)

/-- Whether an instant lies in a leap second. -/
def isLeap (t : Instant) : Bool := nanosPerSecond ≤ t.nanos

/-- A span of time, as whole seconds and the nanoseconds beyond them, both of one sign. -/
structure Span where
  seconds : Int
  nanos : Int
  deriving DecidableEq, Repr

/-- The span of `seconds` and `nanos`, where either may be negative. -/
def Span.ofParts (seconds nanos : Int) : Span :=
  let total := seconds * nanosPerSecond + nanos
  ⟨total.tdiv nanosPerSecond, total.tmod nanosPerSecond⟩

/-- Brings nanoseconds between `-10 ^ 9` and `2 · 10 ^ 9` into one second. -/
def settle (seconds nanos : Int) : Instant :=
  if nanos < 0 then ⟨seconds - 1, (nanos + nanosPerSecond).toNat⟩
  else if nanosPerSecond ≤ nanos then ⟨seconds + 1, (nanos - nanosPerSecond).toNat⟩
  else ⟨seconds, nanos.toNat⟩

/-- The instant a span after `t`.  A span that stays in the leap second of `t` moves the nanoseconds
only; one that leaves it forwards counts from the second before the leap second, and one that leaves
it backwards from the second after. -/
def advance (t : Instant) (span : Span) : Instant :=
  let nanos : Int := t.nanos
  if t.isLeap then
    if 0 < span.seconds ∨ (0 < span.nanos ∧ 2 * nanosPerSecond ≤ nanos + span.nanos) then
      settle (t.seconds + span.seconds) (nanos - nanosPerSecond + span.nanos)
    else if span.seconds < 0 then
      settle (t.seconds + 1 + span.seconds) (nanos - nanosPerSecond + span.nanos)
    else ⟨t.seconds, (nanos + span.nanos).toNat⟩
  else settle (t.seconds + span.seconds) (nanos + span.nanos)

/-- Seconds since the beginning of 1970 as a double: the seconds plus the fraction, each rounded. -/
def timestamp (t : Instant) : Double :=
  (Double.ofInt t.seconds).add
    ((Double.ofInt t.nanos).div (Double.ofInt nanosPerSecond))

@[simp]
theorem before_self (t : Instant) : t.before t = false := by simp [before]

theorem before_trans {a b c : Instant} (hab : a.before b) (hbc : b.before c) : a.before c := by
  simp only [before, Bool.or_eq_true, Bool.and_eq_true, decide_eq_true_eq] at *
  omega

end Instant

end Gazette

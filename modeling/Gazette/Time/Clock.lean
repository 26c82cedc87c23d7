import Gazette.Time.Instant

/-!
# Clocks

A clock shows a time whenever it is read (`Clock.now`), and goes on then (`Clock.tick`).  As nothing
is known of the times in between, a clock is the list of what it will show.
-/

namespace Gazette

/-- A clock, told by what it shows from one reading to the next.  When the times in `ahead` are used
up, it stands still. -/
structure Clock where
  /-- The time that the next reading shows. -/
  now : Instant
  /-- The times that the readings after that show. -/
  ahead : List Instant := []
  deriving DecidableEq, Repr

namespace Clock

/-- A clock that stands still. -/
def still (t : Instant) : Clock := ⟨t, []⟩

instance : Coe Instant Clock := ⟨still⟩

/-- A clock that stands still at the beginning of 1970. -/
def epoch : Clock := still .epoch

/-- The clock after a reading. -/
def tick : Clock → Clock
  | ⟨_, t :: rest⟩ => ⟨t, rest⟩
  | ⟨t, []⟩ => still t

/-- Moves all that a clock will show by a span of time. -/
def advance (span : Instant.Span) (c : Clock) : Clock :=
  ⟨c.now.advance span, c.ahead.map fun t => t.advance span⟩

@[simp]
theorem tick_still (t : Instant) : (still t).tick = still t := rfl

end Clock

end Gazette

/-!
# The clock

What a program is told when it asks for the time. A `Clock` holds what each reading shows, in the order
of the readings, so that time may pass in between as it likes, stand still, or be set anew.

* What a reading shows may go by how long the program has slept.
* A reading fails where the time shown lies in front of the epoch.
-/

namespace Lox

/-- Nanoseconds since the start of the epoch. -/
abbrev Instant := Nat

/-- What a clock shows. -/
structure Clock where
  /-- How often it has been read. -/
  readings : Nat
  /-- What a reading shows, by the number of those before it and the instant that the program has slept
      up to; nothing in front of the epoch. -/
  shows : Nat → Instant → Option Instant

namespace Clock

/-- A clock on which no time passes but what the program sleeps through. -/
def steady : Clock := ⟨0, fun _ now => some now⟩

/-- What is said of a time in front of the epoch. -/
def tooEarly : String := "second time provided was later than self"

/-- Reads the clock, when the program has slept up to an instant. -/
def read (c : Clock) (now : Instant) : Option Instant × Clock :=
  (c.shows c.readings now, { c with readings := c.readings + 1 })

end Clock

end Lox

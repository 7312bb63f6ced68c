import SourceStamp.Text.Numeral
import SourceStamp.Value

/-!
# Timers and counters

- `Meters`: the running timers and the counters of a family of loggers, by label.
- `Measurement`: a finished timer.
- `Ticks.exact`, `Ticks.rounded`: a time in milliseconds, exactly and with two decimals. A clock
  tick is the 1024th part of a second, so seven decimals are exact.
-/

namespace SourceStamp

/-- A time, or a span of it, in ticks of the clock. -/
structure Ticks where
  /-- The number of ticks. -/
  count : Int
  deriving DecidableEq, Repr

namespace Ticks

/-- A number of units, of which `places` decimals are written. -/
def decimal (places : Nat) (negative : Bool) (units : Nat) : Text :=
  let digits := Text.ofNat units
  let padded := List.replicate (places + 1 - digits.length) '0' ++ digits
  (if negative then ['-'] else []) ++ padded.take (padded.length - places) ++
    '.' :: padded.drop (padded.length - places)

/-- The ten-millionths of a millisecond that a tick lasts. -/
def unitsPerTick : Nat := 9765625

/-- A time in milliseconds, with seven decimals. -/
def exact (t : Ticks) : Text := decimal 7 (t.count < 0) (t.count.natAbs * unitsPerTick)

/-- A quotient rounded to the nearest integer; one half goes to the even neighbour. -/
def roundedQuotient (n d : Nat) : Nat :=
  let q := n / d
  let r := n % d
  if 2 * r < d then q
  else if d < 2 * r then q + 1
  else if q % 2 = 0 then q else q + 1

/-- A time in milliseconds, rounded to two decimals. -/
def rounded (t : Ticks) : Text :=
  decimal 2 (t.count < 0) (roundedQuotient (t.count.natAbs * unitsPerTick) 100000)

/-- The span from one time to another. -/
def since (t start : Ticks) : Ticks := ⟨t.count - start.count⟩

end Ticks

/-- A running timer. -/
structure Timer where
  /-- When it was started. -/
  started : Ticks
  /-- What was attached to it. -/
  metadata : Value
  deriving Repr

/-- A finished timer (`PerformanceMeasurement`). -/
structure Measurement where
  /-- Its label. -/
  name : Text
  /-- When it was started. -/
  start : Ticks
  /-- When it was stopped. -/
  stop : Ticks
  /-- What was attached to it. -/
  metadata : Value
  deriving Repr

/-- How long the timer ran. -/
def Measurement.duration (m : Measurement) : Ticks := m.stop.since m.start

/-- Running timers and counters by label (`_Meters`). Of two entries of one label the first one
counts. -/
structure Meters where
  /-- The running timers. -/
  timers : List (Text × Timer)
  /-- The counters. -/
  counters : List (Text × Nat)
  deriving Repr

namespace Meters

/-- No timer runs and nothing was counted. -/
def empty : Meters := ⟨[], []⟩

/-- The running timer of a label. -/
def timer? (m : Meters) (label : Text) : Option Timer := m.timers.lookup label

/-- The count of a label. -/
def count (m : Meters) (label : Text) : Nat := (m.counters.lookup label).getD 0

/-- Starts a timer; one that runs under the label is replaced (`_Meters.start`). -/
def start (m : Meters) (label : Text) (now : Ticks) (metadata : Value) : Meters :=
  { m with timers := (label, ⟨now, metadata⟩) :: m.timers.filter (·.1 != label) }

/-- Stops the timer of a label, if one runs. -/
def stop (m : Meters) (label : Text) : Meters :=
  { m with timers := m.timers.filter (·.1 != label) }

/-- What the timer of a label has measured by now (`_Meters.stop`). -/
def measurement? (m : Meters) (label : Text) (now : Ticks) : Option Measurement :=
  (m.timer? label).map fun t => ⟨label, t.started, now, t.metadata⟩

/-- Adds one to the count of a label (`_Meters.increment`). -/
def increment (m : Meters) (label : Text) : Meters :=
  { m with counters := (label, m.count label + 1) :: m.counters.filter (·.1 != label) }

/-- Sets the count of a label back (`_Meters.reset`). -/
def resetCount (m : Meters) (label : Text) : Meters :=
  { m with counters := m.counters.filter (·.1 != label) }

end Meters
end SourceStamp

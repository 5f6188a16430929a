/-!
# Elapsed time

A span of time, counted in nanoseconds, and its split into days down to milliseconds.
-/

namespace CatalogSync

/-- A span of time. -/
structure Elapsed where
  /-- The whole span in nanoseconds. -/
  nanos : Nat
deriving DecidableEq, Repr

/-- A span split for display. -/
structure Elapsed.Split where
  /-- Whole days. -/
  days : Nat
  /-- Hours within the day. -/
  hours : Nat
  /-- Minutes within the hour. -/
  minutes : Nat
  /-- Seconds within the minute. -/
  seconds : Nat
  /-- Milliseconds within the second. -/
  millis : Nat
deriving DecidableEq, Repr

namespace Elapsed

/-- The span of whole seconds and further nanoseconds. -/
def ofSeconds (seconds nanos : Nat) : Elapsed := ⟨seconds * 1000000000 + nanos⟩

/-- The whole milliseconds of a span. -/
def millis (elapsed : Elapsed) : Nat := elapsed.nanos / 1000000

/-- The whole seconds of a span. -/
def seconds (elapsed : Elapsed) : Nat := elapsed.nanos / 1000000000

/-- A span in days, hours, minutes, seconds and milliseconds. -/
def split (elapsed : Elapsed) : Split where
  days := elapsed.seconds / 86400
  hours := elapsed.seconds % 86400 / 3600
  minutes := elapsed.seconds % 3600 / 60
  seconds := elapsed.seconds % 60
  millis := elapsed.millis % 1000

/-- A number with at least three digits. -/
def threeDigits (number : Nat) : String :=
  if number < 10 then s!"00{number}" else if number < 100 then s!"0{number}" else s!"{number}"

/-- The text of a split, such as `0d, 1h, 15m, 20s, 000ms`. -/
def Split.text (split : Split) : String :=
  s!"{split.days}d, {split.hours}h, {split.minutes}m, {split.seconds}s, " ++
  s!"{threeDigits split.millis}ms"

end Elapsed

end CatalogSync

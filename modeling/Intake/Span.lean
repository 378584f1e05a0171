import Intake.Text.Digits

/-!
# Spans of time

A span counts nanoseconds. Timers run on a clock of whole milliseconds and round up (`ticks`).
`Span.text` writes a span in the largest unit in which it is at least one, with as many decimals as
it takes to be exact.
-/

namespace Intake

/-- A length of time in nanoseconds. -/
structure Span where
  nanos : Nat
deriving DecidableEq, Repr, Inhabited

namespace Span

/-- Nanoseconds in a second. -/
def perSecond : Nat := 1000000000

/-- Nanoseconds in a millisecond. -/
def perMilli : Nat := 1000000

/-- The span of some milliseconds. -/
def ofMillis (ms : Nat) : Span := ⟨ms * perMilli⟩

/-- The span of some seconds. -/
def ofSecs (s : Nat) : Span := ⟨s * perSecond⟩

/-- The whole seconds of a span. -/
def secs (d : Span) : Nat := d.nanos / perSecond

/-- What a span holds beyond its whole seconds, in nanoseconds. -/
def subsecNanos (d : Span) : Nat := d.nanos % perSecond

/-- The whole milliseconds of a span. -/
def millis (d : Span) : Nat := d.nanos / perMilli

/-- The ticks of the millisecond clock after which a span has passed. -/
def ticks (d : Span) : Nat := (d.nanos + (perMilli - 1)) / perMilli

/-- The decimals of `part` out of `10 ^ width`, without zeros at the end. -/
def decimals (width part : Nat) : List Char :=
  ((Text.padded width part).reverse.dropWhile (· = '0')).reverse

/-- A number of units and a decimal part of `width` places, with the unit's sign. -/
def inUnit (whole part width : Nat) (unit : String) : String :=
  let ds := decimals width part
  toString whole ++ (if part = 0 then "" else "." ++ String.ofList ds) ++ unit

/-- The text of a span: seconds, else milliseconds, else microseconds, else nanoseconds. -/
def text (d : Span) : String :=
  if perSecond ≤ d.nanos then inUnit (d.nanos / perSecond) (d.nanos % perSecond) 9 "s"
  else if perMilli ≤ d.nanos then inUnit (d.nanos / perMilli) (d.nanos % perMilli) 6 "ms"
  else if 1000 ≤ d.nanos then inUnit (d.nanos / 1000) (d.nanos % 1000) 3 "µs"
  else inUnit d.nanos 0 0 "ns"

@[simp] theorem millis_ofMillis (ms : Nat) : (ofMillis ms).millis = ms := by
  simp [millis, ofMillis, perMilli]

@[simp] theorem ticks_ofMillis (ms : Nat) : (ofMillis ms).ticks = ms := by
  simp only [ticks, ofMillis, perMilli]; omega

end Span

end Intake

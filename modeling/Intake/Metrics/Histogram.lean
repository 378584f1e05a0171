/-!
# Histograms

A histogram counts, for each of its bounds, the values that are not above it. Times in milliseconds
have bounds of their own, and a name says by its ending that it is one of those.
-/

namespace Intake.Metrics

/-- A bound and its text. -/
structure Bound where
  text : String
  value : Float

def secondBounds : List Bound :=
  [⟨"0.001", 0.001⟩, ⟨"0.005", 0.005⟩, ⟨"0.01", 0.01⟩, ⟨"0.025", 0.025⟩, ⟨"0.05", 0.05⟩,
   ⟨"0.1", 0.1⟩, ⟨"0.25", 0.25⟩, ⟨"0.5", 0.5⟩, ⟨"1", 1⟩, ⟨"2.5", 2.5⟩, ⟨"5", 5⟩]

def milliBounds : List Bound :=
  [⟨"1", 1⟩, ⟨"5", 5⟩, ⟨"10", 10⟩, ⟨"25", 25⟩, ⟨"50", 50⟩, ⟨"100", 100⟩, ⟨"250", 250⟩,
   ⟨"500", 500⟩, ⟨"1000", 1000⟩, ⟨"2500", 2500⟩, ⟨"5000", 5000⟩]

/-- The bounds of a histogram. -/
def bounds (name : String) : List Bound :=
  if "sm_".toList.isPrefixOf name.toList.reverse then milliBounds else secondBounds

structure Histogram where
  name : String
  values : List Float

namespace Histogram

/-- The bounds with the number of values up to each; the last is above all values. -/
def buckets (h : Histogram) : List (String × Nat) :=
  (bounds h.name).map (fun b => (b.text, h.values.countP (· ≤ b.value))) ++
    [("+Inf", h.values.length)]

/-- The lines by which a page of metrics shows a histogram, and the count in each. -/
def lines (h : Histogram) : List (String × Nat) :=
  if h.values.isEmpty then []
  else
    h.buckets.map (fun (bound, n) => (h.name ++ "_bucket\x7ble=\"" ++ bound ++ "\"\x7d", n)) ++
      [(h.name ++ "_count", h.values.length)]

end Histogram

end Intake.Metrics

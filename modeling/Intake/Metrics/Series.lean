/-!
# Metrics

A sample belongs to a series: a name and labels in the order in which they were given. Counters grow
by one with each sample, and timers take one sample when they end.
-/

namespace Intake.Metrics

structure Series where
  name : String
  labels : List (String × String) := []
deriving DecidableEq, Repr

namespace Series

def label (s : Series) (key value : String) : Series :=
  { s with labels := s.labels ++ [(key, value)] }

/-- The name of a series with its labels in braces, if it has any. -/
def text (s : Series) : String :=
  match s.labels with
  | [] => s.name
  | ls => s.name ++ "\x7b" ++ ",".intercalate (ls.map fun (k, v) => k ++ "=" ++ v) ++ "\x7d"

/-- A value of a label in quotes. -/
def quoted (value : String) : String :=
  String.ofList ('"' :: value.toList.flatMap (fun c =>
    if c = '\\' then ['\\', '\\']
    else if c = '"' then ['\\', '"']
    else if c = '\n' then ['\\', 'n']
    else [c]) ++ ['"'])

/-- The line by which a page of metrics shows a series. -/
def line (s : Series) : String := text { s with labels := s.labels.map fun (k, v) => (k, quoted v) }

end Series

/-- The series of some samples and how many each has, in the order of their first samples. -/
def tally (samples : List Series) : List (Series × Nat) :=
  samples.eraseDups.map fun s => (s, samples.count s)

end Intake.Metrics

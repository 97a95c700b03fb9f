/-
# The summary of a run

What a finished run has to show for itself, and the table in which it is printed.
-/
import SplitFeed.Decimal
import SplitFeed.Report.Table
import SplitFeed.Word

namespace SplitFeed.Report

/-- A span of time: whole seconds and the nanoseconds beyond them. -/
structure Span where
  seconds : Nat := 0
  nanos : Nat := 0
deriving DecidableEq, Inhabited

/-- A span of nanoseconds. -/
def Span.ofNanos (nanos : Nat) : Span :=
  ⟨nanos / 1000000000, nanos % 1000000000⟩

/-- A span of seconds and nanoseconds, of which there may be more than a second's, if its whole
seconds fit. -/
def Span.ofParts (seconds nanos : Nat) : Except Word.Overflow Span :=
  let beyond := ofNanos nanos
  if seconds + beyond.seconds < Word.size then .ok ⟨seconds + beyond.seconds, beyond.nanos⟩
  else .error .span

/-- A span in seconds, as a floating point number. -/
def Span.toFloat (span : Span) : Float :=
  span.seconds.toUInt64.toFloat + span.nanos.toUInt64.toFloat / 1000000000.0

/-- Records and bytes sent, the splits whose every record was consumed in ascending order, and
the time it took. -/
structure Summary where
  records : Nat
  bytes : Nat
  finishedSplits : List String
  elapsed : Span := {}
deriving DecidableEq, Inhabited

namespace Summary

/-- Records per second; zero when no time passed. -/
def rate (summary : Summary) : Float :=
  let seconds := summary.elapsed.toFloat
  if seconds > 0.0 then summary.records.toUInt64.toFloat / seconds else 0.0

/-- The figures of the summary that do not depend on the clock. -/
def figures (summary : Summary) : List (String × String) :=
  [("records", toString summary.records),
   ("bytes", toString summary.bytes),
   ("finished splits", toString summary.finishedSplits.length)]

/-- All figures: times with two places, rates as whole numbers. -/
def allFigures (summary : Summary) : List (String × String) :=
  summary.figures ++
    [("elapsed", Decimal.fixedFloat 2 summary.elapsed.toFloat ++ "s"),
     ("records/s", Decimal.fixedFloat 0 summary.rate)]

/-- The table printed after a run. -/
def table (summary : Summary) : Table where
  heading := [⟨"📊 metric", .left⟩, ⟨"value", .left⟩]
  rows := summary.allFigures.map fun (metric, value) => [⟨metric, .left⟩, ⟨value, .right⟩]

end Summary

end SplitFeed.Report

/-
# Running totals

What the consumer has counted so far: records, bytes and splits that ended, next to the name of
the source and the number of records expected from it.
-/
import SplitFeed.Text.Quoted
import SplitFeed.Word

namespace SplitFeed.Report

/-- The totals of a run.  An expectation of zero means that nobody knows. -/
structure Totals where
  source : String
  expected : Nat
  records : Nat := 0
  bytes : Nat := 0
  finished : Nat := 0
deriving DecidableEq, Inhabited

namespace Totals

/-- Adds what one batch brought. -/
def update (records bytes finished : Nat) (totals : Totals) : Except Word.Overflow Totals := do
  let records ← Word.add totals.records records
  let bytes ← Word.add totals.bytes bytes
  let finished ← Word.add totals.finished finished
  return { totals with records, bytes, finished }

/-- The totals with all of their fields, for diagnostics. -/
def describe (totals : Totals) : String :=
  Text.labelled "ProgressMetrics" [
    ("source_name", Text.quoted totals.source),
    ("expected_records", toString totals.expected),
    ("total_records", toString totals.records),
    ("total_bytes", toString totals.bytes),
    ("finished_splits", toString totals.finished)]

end Totals

end SplitFeed.Report

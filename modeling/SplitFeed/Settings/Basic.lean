/-
# Settings

What a run is told to do: where records come from, where they go, and how the machinery in
between is tuned.  The initial assignment of splits follows from the source alone.
-/
import SplitFeed.Split
import SplitFeed.Word

namespace SplitFeed

/-- Ceilings on what one fetch may bring back. -/
structure FetchLimits where
  maxRecords : Nat := 1000
  maxBytes : Nat := 1048576
deriving DecidableEq, Inhabited

/-- Generated numbers, cut into equal ranges. -/
structure RangeSource where
  splits : Nat := 4
  recordsPerSplit : Nat := 10000
  fetchDelayMs : Nat := 0
  limits : FetchLimits := {}
deriving DecidableEq, Inhabited

/-- Files of lines. -/
structure FileSource where
  files : List String
  limits : FetchLimits := {}
deriving DecidableEq, Inhabited

/-- Where records come from. -/
inductive SourceSettings where
  | ranges (source : RangeSource)
  | files (source : FileSource)
deriving DecidableEq, Inhabited

/-- Where records go. -/
inductive SinkSettings where
  | memory
  | file (name : String)
deriving DecidableEq, Inhabited

/-- Tuning of the machinery in between. -/
structure RuntimeSettings where
  queueCapacity : Nat := 2
  fetcherThreads : Nat := 1
  recordLimit : Option Nat := none
  closeTimeoutMs : Nat := 30000
  showProgress : Bool := true
deriving DecidableEq, Inhabited

/-- Everything a run is told. -/
structure Settings where
  source : SourceSettings
  sink : SinkSettings
  runtime : RuntimeSettings := {}
deriving DecidableEq, Inhabited

namespace RangeSource

/-- The range with a given index: `range-0` starts at zero, and each one begins where the one
before it ends. -/
def rangeAt (source : RangeSource) (index : Nat) : Except Word.Overflow RangeSplit := do
  let start ← Word.mul index source.recordsPerSplit
  let stop ← Word.mul (index + 1) source.recordsPerSplit
  return ⟨"range-" ++ toString index, start, stop⟩

/-- The ranges of the source, in ascending order, unless a bound does not fit into 64 bits. -/
def ranges (source : RangeSource) : Except Word.Overflow (List RangeSplit) :=
  (List.range source.splits).mapM source.rangeAt

/-- Number of records in all ranges together. -/
def expected (source : RangeSource) : Except Word.Overflow Nat :=
  Word.mul source.splits source.recordsPerSplit

end RangeSource

namespace SourceSettings

/-- The initial assignment: one split per range or file. -/
def splits : SourceSettings → Except Word.Overflow (List Split)
  | ranges source => do
    let ranges ← source.ranges
    return ranges.map .range
  | files source => .ok (source.files.map fun path => .file (FileSplit.ofPath path))

/-- The name of the source and the number of records expected from it.  Nobody knows how many
lines a file has before reading it, which counts as zero. -/
def describe : SourceSettings → Except Word.Overflow (String × Nat)
  | ranges source => do
    let expected ← source.expected
    return ("in-memory (" ++ toString source.splits ++ " splits)", expected)
  | files source => .ok (", ".intercalate source.files, 0)

end SourceSettings

end SplitFeed

/-
# The built-in readers as one

A backend is a reader of ranges or a reader of files.  A split change that holds a split of the
wrong sort is refused as a whole, naming the first such split.
-/
import SplitFeed.FileReader
import SplitFeed.RangeReader

namespace SplitFeed

/-- One of the built-in readers. -/
inductive Backend where
  | ranges (reader : RangeReader)
  | files (reader : FileReader)

namespace Backend

/-- The reader that the settings ask for. -/
def ofSettings : SourceSettings → Backend
  | .ranges source => ranges (.ofSource source)
  | .files source => files (.ofSource source)

/-- The range in a split; a file is refused. -/
def wantRange (split : Split) : Except Failure RangeSplit :=
  match split with
  | .range range => .ok range
  | .file _ => .error (.wrongSort .ranges split)

/-- The file in a split; a range is refused. -/
def wantFile (split : Split) : Except Failure FileSplit :=
  match split with
  | .file file => .ok file
  | .range _ => .error (.wrongSort .files split)

/-- One fetch. -/
def fetch (store : FileStore) (disturbed : List Bool) :
    Backend → Called (SplitBatch Record) × Backend
  | ranges reader =>
    let (result, reader) := reader.fetch disturbed
    (result, ranges reader)
  | files reader =>
    let (result, reader) := reader.fetch store disturbed
    (result, files reader)

/-- Hands a change to the reader once all of its splits are known to be of the right sort. -/
def change (change : SplitsChange Split) : Backend → Called Unit × List Nat × Backend
  | ranges reader =>
    match change.tryMap wantRange with
    | .error failure => (.failed failure, [], ranges reader)
    | .ok change =>
      let (recycled, reader) := reader.change change
      (.returned (), recycled, ranges reader)
  | files reader =>
    match change.tryMap wantFile with
    | .error failure => (.failed failure, [], files reader)
    | .ok change =>
      let (recycled, reader) := reader.change change
      (.returned (), recycled, files reader)

/-- Interrupts the fetch under way, or the next one. -/
def wake : Backend → Backend
  | ranges reader => ranges { reader with docket := reader.docket.wake }
  | files reader => files { reader with docket := reader.docket.wake }

/-- Takes a batch back to be handed out again. -/
def rewind (stale : SplitBatch Record) : Backend → Backend
  | ranges reader => ranges { reader with docket := reader.docket.takeBack stale }
  | files reader => files { reader with docket := reader.docket.takeBack stale }

/-- Ends all reading. -/
def close : Backend → Backend
  | ranges reader => ranges { reader with docket := reader.docket.close }
  | files reader => files { reader with docket := reader.docket.close }

/-- The reader of files with its fields, for diagnostics; a reader of ranges has nothing to
show. -/
def describe? : Backend → Option String
  | ranges _ => none
  | files reader => some (Text.wrapped "File" reader.describe)

instance : SplitReader Backend where
  fetch := fetch
  change := change
  wake := wake
  rewind stale backend := (.returned (), [], backend.rewind stale)
  close backend := (.returned (), backend.close)

end Backend

end SplitFeed

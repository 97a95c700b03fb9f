/-
# Reading ranges

A reader that makes up records from ranges of numbers: the record of a number is the split's id
and the number.  The first split on the docket is read to its end before the next one.
-/
import SplitFeed.Reader
import SplitFeed.Settings.Basic

namespace SplitFeed

/-- A range under way: the numbers before `next` were read. -/
structure RangeCursor where
  split : RangeSplit
  next : Nat
deriving DecidableEq, Inhabited

instance : HasSplitId RangeCursor := ⟨fun cursor => cursor.split.id⟩

/-- A reader of ranges.  One fetch reads at most `maxRecords` numbers and pretends to block for
`delayMs` milliseconds. -/
structure RangeReader where
  docket : Docket RangeCursor := {}
  maxRecords : Nat
  delayMs : Nat

namespace RangeReader

/-- A reader with nothing to do.  A limit of zero counts as one. -/
def withLimits (maxRecords delayMs : Nat) : RangeReader :=
  { maxRecords := max maxRecords 1, delayMs }

/-- The reader for a source. -/
def ofSource (source : RangeSource) : RangeReader :=
  withLimits source.limits.maxRecords source.fetchDelayMs

/-- The record of a number. -/
def recordOf (id : String) (number : Nat) : Record :=
  ⟨number, id ++ ":" ++ toString number⟩

/-- Where the next piece of a range ends. -/
def pieceEnd (maxRecords : Nat) (cursor : RangeCursor) : Nat :=
  min cursor.split.stop (Word.addUpTo cursor.next maxRecords)

/-- The next piece of a range, and the range afterwards unless that was its end. -/
def piece (maxRecords : Nat) (cursor : RangeCursor) : SplitBatch Record × Option RangeCursor :=
  let stop := pieceEnd maxRecords cursor
  let id := cursor.split.id
  let numbers := List.range' cursor.next (stop - cursor.next)
  let batch := SplitBatch.empty.addRecords id (numbers.map (recordOf id))
  if cursor.split.stop ≤ stop then (batch.finishSplit id, none)
  else (batch, some { cursor with next := stop })

/-- One fetch.  A batch that came back goes first; with nothing to do, and when woken from the
pretended delay, there is no news. -/
def fetch (disturbed : List Bool) (reader : RangeReader) :
    Called (SplitBatch Record) × RangeReader :=
  let docket := reader.docket
  if docket.closed then (.failed (.readerClosed .ranges), reader)
  else
    match docket.replay, docket.cursors with
    | stale :: replay, _ => (.returned stale, { reader with docket := { docket with replay } })
    | [], [] =>
      let (_, flag) := docket.flag.nap (disturbed.headD false)
      (.returned .empty, { reader with docket := { docket with flag } })
    | [], cursor :: others =>
      let (woken, flag) :=
        if reader.delayMs = 0 then (false, docket.flag)
        else docket.flag.nap (disturbed.headD false)
      if woken then (.returned .empty, { reader with docket := { docket with flag } })
      else
        let (batch, left) := piece reader.maxRecords cursor
        let cursors := left.toList ++ others
        (.returned batch, { reader with docket := { docket with flag, cursors } })

/-- Takes note of gained or lost ranges. -/
def change (change : SplitsChange RangeSplit) (reader : RangeReader) : List Nat × RangeReader :=
  match change with
  | .addition splits =>
    let cursors := splits.map fun split => { split, next := split.start : RangeCursor }
    ([], { reader with docket := reader.docket.gain cursors })
  | .removal splits =>
    let (recycled, docket) := reader.docket.lose (splits.map (·.id))
    (recycled, { reader with docket })

end RangeReader

end SplitFeed

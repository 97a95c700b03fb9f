/-
# The consumer

Renders the records of a batch as lines, one payload per group, and keeps the books of a run:
totals, and the splits whose every record was consumed.  Beyond a record limit records are
dropped instead of sent, and a batch that lost a record that way ends no split.
-/
import SplitFeed.Batch
import SplitFeed.Report.Summary
import SplitFeed.Report.Totals
import SplitFeed.Sink

namespace SplitFeed

/-- What a consumer knows of its run. -/
structure ConsumerBooks where
  totals : Report.Totals
  limit : Option Nat := none
  finished : IdSet := ∅

/-- Why consuming a batch did not end well. -/
inductive ConsumeError where
  | failed (failure : Failure)
  | overflow (cause : Word.Overflow)
deriving DecidableEq

/-- What has been rendered of a batch so far. -/
structure Rendering where
  records : Nat := 0
  bytes : Nat := 0
  truncated : Bool := false
deriving DecidableEq, Inhabited

/-- A record as a line. -/
def Record.line (record : Record) : String := record.payload ++ "\n"

/-- The text sent for some records of one group. -/
def renderLines (records : List Record) : String :=
  String.join (records.map Record.line)

/-- The records of a group that a budget pays for. -/
def affordable (budget : Option Nat) (records : List Record) : List Record :=
  match budget with
  | none => records
  | some left => records.take left

/-- Whether a budget does not pay for all records of a group. -/
def exceeds (budget : Option Nat) (records : List Record) : Bool :=
  match budget with
  | none => false
  | some left => left < records.length

namespace ConsumerBooks

/-- How many more records may be sent. -/
def budget (books : ConsumerBooks) : Option Nat :=
  books.limit.map (· - books.totals.records)

/-- Whether as many records were sent as may be. -/
def limitReached (books : ConsumerBooks) : Bool :=
  match books.limit with
  | none => false
  | some limit => limit ≤ books.totals.records

/-- Sends groups in order, each as one payload unless it is empty, until the budget is exceeded. -/
def sendGroups (budget : Option Nat) (sofar : Rendering) (sink : Sink) (store : FileStore) :
    List (Group Record) → Except Failure Rendering × Sink × FileStore
  | [] => (.ok sofar, sink, store)
  | (id, records) :: rest =>
    let sent := affordable budget records
    let truncated := exceeds budget records
    let payload := renderLines sent
    let (result, sink, store) :=
      if payload.isEmpty then (.ok (), sink, store) else sink.send payload store
    match result with
    | .error cause => (.error (.sinkChoked id cause), sink, store)
    | .ok () =>
      let sofar : Rendering :=
        { records := sofar.records + sent.length
          bytes := sofar.bytes + payload.utf8ByteSize
          truncated }
      if truncated then (.ok sofar, sink, store)
      else sendGroups (budget.map (· - sent.length)) sofar sink store rest

/-- Books what was rendered of a batch.  The splits it ends count only if it was not truncated,
and each split once. -/
def book (rendering : Rendering) (ended : IdSet) (books : ConsumerBooks) :
    Except Word.Overflow ConsumerBooks := do
  let ended := if rendering.truncated then [] else ended.toList
  let finished := ended.foldl (fun finished id => finished.insert id) books.finished
  let newly := finished.size - books.finished.size
  let totals ← books.totals.update rendering.records rendering.bytes newly
  return { books with totals, finished }

/-- Consumes one batch: sends what its groups hold, the one under its cursor left out, and books
it.  A batch that could not be sent is not booked. -/
def consume (batch : SplitBatch Record) (books : ConsumerBooks) (sink : Sink)
    (store : FileStore) : Except ConsumeError ConsumerBooks × Sink × FileStore :=
  match sendGroups books.budget {} sink store batch.waiting with
  | (.error failure, sink, store) => (.error (.failed failure), sink, store)
  | (.ok rendering, sink, store) =>
    match books.book rendering batch.finished with
    | .error cause => (.error (.overflow cause), sink, store)
    | .ok books => (.ok books, sink, store)

/-- The summary of what was consumed. -/
def summary (books : ConsumerBooks) : Report.Summary where
  records := books.totals.records
  bytes := books.totals.bytes
  finishedSplits := books.finished.toList

end ConsumerBooks

end SplitFeed

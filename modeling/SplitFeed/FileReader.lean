/-
# Reading files

A reader of lines: one split per file, one record per line that is not blank, numbered from one
with blank lines counted.  Files are opened when their turn comes and read front to back, one at
a time.
-/
import SplitFeed.LineSource
import SplitFeed.Reader
import SplitFeed.Settings.Basic

namespace SplitFeed

/-- A file under way: its lines once it is open, and how many of them were read. -/
structure FileCursor where
  split : FileSplit
  lines : Option LineSource := none
  lineNumber : Nat := 0
deriving DecidableEq

instance : HasSplitId FileCursor := ⟨fun cursor => cursor.split.id⟩

/-- A reader of files with its ceilings per fetch. -/
structure FileReader where
  docket : Docket FileCursor := {}
  limits : FetchLimits

namespace FileReader

/-- A reader with nothing to do. -/
def withLimits (limits : FetchLimits) : FileReader := { limits }

/-- The reader for a source. -/
def ofSource (source : FileSource) : FileReader := withLimits source.limits

/-- The text of a line: its newline goes, and then all carriage returns at its end. -/
def lineText (line : List UInt8) : String :=
  let ending := (Text.decodeLossy line).reverse
  String.ofList ((ending.dropWhile (· == '\n')).dropWhile (· == '\r')).reverse

/-- Lines read in one fetch: their records, whether the end was reached or reading failed, and
what reading left behind. -/
structure Haul where
  records : List Record := []
  reachedEnd : Bool := false
  failure : Option ReadError := none
  lines : LineSource
  lineNumber : Nat
  flag : WakeFlag

/-- Reads lines until a ceiling is reached, a wake-up is noticed or the file ends.  The ceilings
are tested before each line, so the last one may go beyond; so are wake-ups. -/
def haul (limits : FetchLimits) (store : FileStore) (records bytes : Nat) (disturbed : List Bool)
    (flag : WakeFlag) (lines : LineSource) (lineNumber : Nat) : Haul :=
  if _hroom : records < limits.maxRecords ∧ bytes < limits.maxBytes then
    let (woken, flag) := flag.nap (disturbed.headD false)
    if woken then { lines, lineNumber, flag }
    else
      match lines.readLine store with
      | (.error error, lines) => { failure := some error, lines, lineNumber, flag }
      | (.ok [], lines) => { reachedEnd := true, lines, lineNumber, flag }
      | (.ok (first :: rest), lines) =>
        let line := first :: rest
        let number := lineNumber + 1
        let text := lineText line
        if text.isEmpty then
          haul limits store records (bytes + line.length) disturbed.tail flag lines number
        else
          let later :=
            haul limits store (records + 1) (bytes + line.length) disturbed.tail flag lines number
          { later with records := ⟨number, text⟩ :: later.records }
  else { lines, lineNumber, flag }
termination_by limits.maxBytes - bytes
decreasing_by
  all_goals
    simp only [List.length_cons]
    omega

/-- One fetch.  A batch that came back goes first; with nothing to do there is no news.  Records
of a fetch in which reading fails are lost. -/
def fetch (store : FileStore) (disturbed : List Bool) (reader : FileReader) :
    Called (SplitBatch Record) × FileReader :=
  let docket := reader.docket
  if docket.closed then (.failed (.readerClosed .files), reader)
  else
    match docket.replay, docket.cursors with
    | stale :: replay, _ => (.returned stale, { reader with docket := { docket with replay } })
    | [], [] =>
      let (_, flag) := docket.flag.nap (disturbed.headD false)
      (.returned .empty, { reader with docket := { docket with flag } })
    | [], cursor :: others =>
      let opened := match cursor.lines with
        | some lines => Except.ok lines
        | none => LineSource.ofPath cursor.split.path store
      match opened with
      | .error error => (.failed (.doorStuck cursor.split.path error), reader)
      | .ok lines =>
        let id := cursor.split.id
        let haul := haul reader.limits store 0 0 disturbed docket.flag lines cursor.lineNumber
        let left := { cursor with lines := some haul.lines, lineNumber := haul.lineNumber }
        let batch := SplitBatch.empty.addRecords id haul.records
        match haul.failure with
        | some error =>
          let docket := { docket with flag := haul.flag, cursors := left :: others }
          (.failed (.unreadableLine id error), { reader with docket })
        | none =>
          if haul.reachedEnd then
            let docket := { docket with flag := haul.flag, cursors := others }
            (.returned (batch.finishSplit id), { reader with docket })
          else
            let docket := { docket with flag := haul.flag, cursors := left :: others }
            (.returned batch, { reader with docket })

/-- Takes note of gained or lost files. -/
def change (change : SplitsChange FileSplit) (reader : FileReader) : List Nat × FileReader :=
  match change with
  | .addition splits =>
    ([], { reader with docket := reader.docket.gain (splits.map fun split => { split }) })
  | .removal splits =>
    let (recycled, docket) := reader.docket.lose (splits.map (·.id))
    (recycled, { reader with docket })

/-- The reader without its open files, for diagnostics. -/
def describe (reader : FileReader) : String :=
  Text.labelled "FileReader" [
    ("splits", Text.bracketed (reader.docket.cursors.map fun c => Text.quoted c.split.id)),
    ("replay", toString reader.docket.replay.length),
    ("common_config", Text.labelled "CommonReaderConfig" [
      ("max_records_per_fetch", toString reader.limits.maxRecords),
      ("max_bytes_per_fetch", toString reader.limits.maxBytes)]),
    ("closed", Text.truth reader.docket.closed)]

end FileReader

end SplitFeed

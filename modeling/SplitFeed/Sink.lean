/-
# Sinks

Where rendered records go: into memory, one payload per send, or into a file.

A file is written through a buffer.  What is handed to the file is written behind the sender's
back, and a write that fails is only heard of at the next one, or when the sink is closed.
-/
import SplitFeed.Settings.Basic
import SplitFeed.Store

namespace SplitFeed

/-- A file being written: bytes not handed to it yet, and the error of the last write that nobody
has heard of. -/
structure FileSink where
  path : String
  number : Nat
  buffer : List UInt8 := []
  unheard : Option OsError := none
deriving DecidableEq

namespace FileSink

/-- Size of the buffer. -/
def bufferSize : Nat := 8192

/-- How many bytes the file takes at a time. -/
def pieceSize : Nat := 2097152

/-- Creates the file, or empties the one that is there. -/
def create (path : String) (store : FileStore) : Except Failure (FileSink × FileStore) :=
  match store.create path with
  | .ok (number, store) => .ok ({ path, number }, store)
  | .error error => .error (.outputRefused path error)

/-- Hands one piece to the file.  An error of the piece before is heard now, and then nothing is
written; an error of this piece is kept for later. -/
def handOver (piece : List UInt8) (sink : FileSink) (store : FileStore) :
    Except OsError Unit × FileSink × FileStore :=
  match sink.unheard with
  | some error => (.error error, { sink with unheard := none }, store)
  | none =>
    match store.append sink.number piece with
    | .ok store => (.ok (), sink, store)
    | .error error => (.ok (), { sink with unheard := some error }, store)

/-- Hands over what is in the buffer.  It stays there if that fails. -/
def flushBuffer (sink : FileSink) (store : FileStore) :
    Except OsError Unit × FileSink × FileStore :=
  if sink.buffer.isEmpty then (.ok (), sink, store)
  else
    match sink.handOver sink.buffer store with
    | (.ok (), sink, store) => (.ok (), { sink with buffer := [] }, store)
    | (.error error, sink, store) => (.error error, sink, store)

/-- Writes bytes through the buffer: what does not fit flushes it first, and pieces as large as
the buffer go past it. -/
def write (bytes : List UInt8) (sink : FileSink) (store : FileStore) :
    Except OsError Unit × FileSink × FileStore :=
  if _hempty : bytes = [] then (.ok (), sink, store)
  else
    let flushed :=
      if bufferSize < sink.buffer.length + bytes.length then sink.flushBuffer store
      else (.ok (), sink, store)
    match flushed with
    | (.error error, sink, store) => (.error error, sink, store)
    | (.ok (), sink, store) =>
      if bytes.length < bufferSize then
        (.ok (), { sink with buffer := sink.buffer ++ bytes }, store)
      else
        match sink.handOver (bytes.take pieceSize) store with
        | (.error error, sink, store) => (.error error, sink, store)
        | (.ok (), sink, store) => write (bytes.drop pieceSize) sink store
termination_by bytes.length
decreasing_by
  have : bytes.length ≠ 0 := fun hzero => _hempty (List.length_eq_zero_iff.1 hzero)
  simp only [List.length_drop, pieceSize]
  omega

/-- Writes one payload. -/
def send (payload : String) (sink : FileSink) (store : FileStore) :
    Except Failure Unit × FileSink × FileStore :=
  match sink.write (Text.bytes payload) store with
  | (.ok (), sink, store) => (.ok (), sink, store)
  | (.error error, sink, store) => (.error (.writeFailed sink.path error), sink, store)

/-- Hands over what is left and hears of the last write. -/
def close (sink : FileSink) (store : FileStore) : Except Failure Unit × FileSink × FileStore :=
  match sink.flushBuffer store with
  | (.error error, sink, store) => (.error (.flushFailed sink.path error), sink, store)
  | (.ok (), sink, store) =>
    match sink.unheard with
    | some error => (.error (.flushFailed sink.path error), { sink with unheard := none }, store)
    | none => (.ok (), sink, store)

end FileSink

/-- Where rendered records go. -/
inductive Sink where
  | memory (payloads : List String)
  | file (sink : FileSink)
deriving DecidableEq

namespace Sink

/-- Opens the sink that the settings ask for. -/
def ofSettings (settings : SinkSettings) (store : FileStore) :
    Except Failure (Sink × FileStore) :=
  match settings with
  | .memory => .ok (.memory [], store)
  | .file name => do
    let (sink, store) ← FileSink.create name store
    return (.file sink, store)

/-- Sends one payload. -/
def send (payload : String) (store : FileStore) :
    Sink → Except Failure Unit × Sink × FileStore
  | memory payloads => (.ok (), memory (payloads ++ [payload]), store)
  | file sink =>
    let (result, sink, store) := sink.send payload store
    (result, file sink, store)

/-- Flushes and finishes. -/
def close (store : FileStore) : Sink → Except Failure Unit × Sink × FileStore
  | memory payloads => (.ok (), memory payloads, store)
  | file sink =>
    let (result, sink, store) := sink.close store
    (result, file sink, store)

/-- The payloads kept in memory, in the order in which they came. -/
def payloads : Sink → List String
  | memory payloads => payloads
  | file _ => []

/-- A text cut after its newlines; `line` is what was read of the current line, last character
first.  A carriage return in front of a newline goes with it. -/
def cutLines (line : List Char) : List Char → List (List Char)
  | [] => if line.isEmpty then [] else [line.reverse]
  | '\n' :: rest =>
    let ended := match line with
      | '\r' :: others => others
      | _ => line
    ended.reverse :: cutLines [] rest
  | c :: rest => cutLines (c :: line) rest

/-- The lines of a text. -/
def linesOf (text : String) : List String :=
  (cutLines [] text.toList).map String.ofList

/-- The lines of the payloads kept in memory. -/
def lines (sink : Sink) : List String :=
  sink.payloads.flatMap linesOf

end Sink

end SplitFeed

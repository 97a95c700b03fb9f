/-
# What can go wrong

Failures are kept as causes: what was being done, to what, and the failure underneath.  The
wording is in one place, `Failure.chain`, which lists the complaints from the outermost to the
innermost.
-/
import SplitFeed.Split

namespace SplitFeed

/-- What the operating system has to say about a file, or what keeps it from being asked. -/
inductive OsError where
  | noSuchFile
  | notADirectory
  | isADirectory
  | noSpaceLeft
  | nameTooLong
  /-- A path with a zero in it, which cannot be handed to the system. -/
  | zeroInPath
deriving DecidableEq, Inhabited

/-- The wording; what the system says has a number. -/
def OsError.message : OsError → String
  | noSuchFile => "No such file or directory (os error 2)"
  | notADirectory => "Not a directory (os error 20)"
  | isADirectory => "Is a directory (os error 21)"
  | noSpaceLeft => "No space left on device (os error 28)"
  | nameTooLong => "File name too long (os error 36)"
  | zeroInPath => "file name contained an unexpected NUL byte"

/-- Why bytes could not be read from an open file. -/
inductive ReadError where
  | system (error : OsError)
  /-- Compressed data does not start the way it has to. -/
  | badHeader
  | headerFieldTooLong
  /-- What was decompressed is not what was compressed. -/
  | checksumMismatch
  /-- The data ends inside a header or trailer. -/
  | endsEarly
  /-- The compressed stream is malformed. -/
  | corruptStream
  /-- The data ends inside the compressed stream. -/
  | incompleteStream
deriving DecidableEq, Inhabited

/-- The wording of a read error. -/
def ReadError.message : ReadError → String
  | system error => error.message
  | badHeader => "invalid gzip header"
  | headerFieldTooLong => "gzip header field too long"
  | checksumMismatch => "corrupt gzip stream does not have a matching checksum"
  | endsEarly => "unexpected end of file"
  | corruptStream => "corrupt deflate stream"
  | incompleteStream => "incomplete deflate stream"

/-- The two sorts of built-in readers. -/
inductive ReaderSort where
  | ranges
  | files
deriving DecidableEq, Inhabited

/-- A failure and the failures underneath it. -/
inductive Failure where
  /-- A reader's own words. -/
  | spoken (text : String)
  | readerClosed (sort : ReaderSort)
  | wrongSort (sort : ReaderSort) (split : Split)
  | doorStuck (path : String) (cause : OsError)
  | unreadableLine (split : String) (cause : ReadError)
  | changesNotHanded (fetcher : Nat) (cause : Failure)
  | fetchFailed (fetcher : Nat) (cause : Failure)
  | readerNotClosed (fetcher : Nat) (cause : Failure)
  | readerNotBuilt (fetcher : Nat) (cause : Failure)
  | threadGaveUp (cause : Failure)
  | fetcherPanicked (fetcher : Nat)
  /-- Fetchers that did not stop within a number of milliseconds. -/
  | leftBehind (fetchers : List Nat) (withinMs : Nat)
  | outputRefused (path : String) (cause : OsError)
  | writeFailed (path : String) (cause : OsError)
  | flushFailed (path : String) (cause : OsError)
  | sinkChoked (split : String) (cause : Failure)
  | sinkNotOpened (cause : Failure)
  | sinkNotClosed (cause : Failure)
  | splitsNotDealt (cause : Failure)
deriving DecidableEq, Inhabited

namespace Failure

/-- A number of milliseconds in the largest unit of which it has at least one, without trailing
zeros: nothing at all is `0ns`. -/
def milliseconds (ms : Nat) : String :=
  if ms = 0 then "0ns"
  else if ms < 1000 then toString ms ++ "ms"
  else
    let beyond := ms % 1000
    let places := (toString (1000 + beyond)).toList.tail
    let shown := (places.reverse.dropWhile (· == '0')).reverse
    if shown.isEmpty then toString (ms / 1000) ++ "s"
    else toString (ms / 1000) ++ "." ++ String.ofList shown ++ "s"

/-- The complaints, from the outermost to the innermost. -/
def chain : Failure → List String
  | spoken text => [text]
  | readerClosed .ranges =>
    ["💀 fetch called on a closed in-memory reader. It has left the building."]
  | readerClosed .files =>
    ["💀 fetch called on a closed file reader. The files have been returned to the library."]
  | wrongSort .ranges split => ["💀 the in-memory reader only speaks ranges, got " ++ split.describe]
  | wrongSort .files split => ["💀 the file reader only reads files, got " ++ split.describe]
  | doorStuck path cause =>
    ["💀 The door to '" ++ path ++ "' would not budge. We knocked. We checked if it existed " ++
      "(it might not). We checked permissions (they might be wrong). The split remains unread.",
      cause.message]
  | unreadableLine split cause =>
    ["💀 failed reading a line from split '" ++ split ++ "'", cause.message]
  | changesNotHanded fetcher cause =>
    ("💀 fetcher " ++ toString fetcher ++ " could not hand split changes to its reader")
      :: cause.chain
  | fetchFailed fetcher cause =>
    ("💀 fetcher " ++ toString fetcher ++ " reader fetch failed") :: cause.chain
  | readerNotClosed fetcher cause =>
    ("💀 fetcher " ++ toString fetcher ++ " failed to close its reader") :: cause.chain
  | readerNotBuilt fetcher cause =>
    ("💀 could not build a reader for fetcher " ++ toString fetcher) :: cause.chain
  | threadGaveUp cause => "💀 a fetch thread gave up" :: cause.chain
  | fetcherPanicked fetcher => ["💀 fetcher " ++ toString fetcher ++ " panicked on its way out"]
  | leftBehind fetchers withinMs =>
    ["💀 fetchers " ++ Text.bracketed (fetchers.map toString) ++ " did not stop within " ++
      milliseconds withinMs ++ ". They have been left to their fate."]
  | outputRefused path cause =>
    ["💀 The output file '" ++ path ++ "' refused to exist. " ++
      "The parent directory may be a figment of the config's imagination.", cause.message]
  | writeFailed path cause => ["💀 write to '" ++ path ++ "' failed mid-sentence", cause.message]
  | flushFailed path cause =>
    ["💀 The last bytes for '" ++ path ++ "' were right there in the buffer, close enough to " ++
      "touch the disk. The flush failed. They remain in memory, looking wistfully at the inode.",
      cause.message]
  | sinkChoked split cause =>
    ("💀 the sink choked on records from split '" ++ split ++ "'") :: cause.chain
  | sinkNotOpened cause => "💀 could not open the sink" :: cause.chain
  | sinkNotClosed cause => "💀 SinkWorker failed to close the sink" :: cause.chain
  | splitsNotDealt cause => "💀 could not hand out the initial splits" :: cause.chain

/-- The whole chain in one line. -/
def message (failure : Failure) : String :=
  ": ".intercalate failure.chain

end Failure

end SplitFeed

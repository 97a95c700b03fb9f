/-
# Gzip files

A gzip file is a header, a compressed stream, and a trailer with a checksum and the length of
what was compressed.  Only the first member of a file is read; what follows it is ignored.

What a reader gets is a sequence of chunks of bytes and then an ending: the end of the data or an
error.  A file may have grown before its end is reached.  Then an incomplete stream goes on, and
the trailer is the one that is there by then.
-/
import SplitFeed.Failure
import SplitFeed.Inflate

namespace SplitFeed

/-- What follows the last bytes of a source. -/
inductive SourceEnding where
  | finished
  /-- Every further attempt to read fails. -/
  | stuck (error : ReadError)
  /-- One attempt fails; from then on the source is finished. -/
  | once (error : ReadError)
  /-- The stream was complete.  The trailer behind it, at a position, is still to be compared with
  the checksum and the length of what came out. -/
  | trailer (position checksum length : Nat)
  /-- The stream, which starts at a position, was not complete when so many bytes of the file were
  seen, of which so many were made. -/
  | starved (start seen given : Nat)
deriving DecidableEq, Inhabited

namespace Gzip

/-- One byte more in a running 32-bit cyclic checksum. -/
def checksumStep (sum : UInt32) (byte : UInt8) : UInt32 :=
  (List.range 8).foldl
    (fun sum _ => if sum &&& 1 = 1 then (sum >>> 1) ^^^ 0xedb88320 else sum >>> 1)
    (sum ^^^ byte.toUInt32)

/-- The 32-bit cyclic checksum of a byte sequence. -/
def checksum (bytes : List UInt8) : UInt32 :=
  bytes.foldl checksumStep 0xffffffff ^^^ 0xffffffff

/-- A number from its bytes, the lowest first. -/
def littleEndian : List UInt8 → Nat
  | [] => 0
  | byte :: rest => byte.toNat + 256 * littleEndian rest

/-- Longest header field that is read. -/
def longestField : Nat := 65535

/-- Skips a header field that ends with a zero byte. -/
def skipText (bytes : List UInt8) : Except ReadError (List UInt8) :=
  let text := bytes.takeWhile (· != 0)
  if longestField < text.length then .error .headerFieldTooLong
  else
    match bytes.drop text.length with
    | [] => .error .endsEarly
    | _ :: rest => .ok rest

/-- Skips a header field whose length stands in front of it. -/
def skipSized (bytes : List UInt8) : Except ReadError (List UInt8) :=
  match bytes with
  | low :: high :: rest =>
    let length := littleEndian [low, high]
    if rest.length < length then .error .endsEarly else .ok (rest.drop length)
  | _ => .error .endsEarly

/-- Checks the header's own checksum, the lower half of the checksum of all that came before. -/
def checkHeader (all bytes : List UInt8) : Except ReadError (List UInt8) :=
  match bytes with
  | low :: high :: rest =>
    let sum := (checksum (all.take (all.length - bytes.length))).toNat % 65536
    if littleEndian [low, high] = sum then .ok rest else .error .checksumMismatch
  | _ => .error .endsEarly

/-- Skips the header and answers the bytes behind it. -/
def skipHeader (all : List UInt8) : Except ReadError (List UInt8) := do
  let fixed := all.take 10
  if fixed.length < 10 then throw .endsEarly
  let flags := (fixed.getD 3 0).toNat
  if fixed.take 3 ≠ [0x1f, 0x8b, 8] ∨ 0x20 ≤ flags then throw .badHeader
  let rest := all.drop 10
  let rest ← if flags.testBit 2 then skipSized rest else pure rest
  let rest ← if flags.testBit 3 then skipText rest else pure rest
  let rest ← if flags.testBit 4 then skipText rest else pure rest
  if flags.testBit 1 then checkHeader all rest else pure rest

/-- Bytes in pieces of a given size; the last one may be shorter. -/
def pieces (size : Nat) (bytes : List UInt8) : List (List UInt8) :=
  if _h : size = 0 ∨ bytes = [] then []
  else bytes.take size :: pieces size (bytes.drop size)
termination_by bytes.length
decreasing_by
  have : bytes.length ≠ 0 := fun hzero => _h (.inr (List.length_eq_zero_iff.1 hzero))
  simp only [List.length_drop]
  omega

/-- What comes after the output of a stream that starts at a position, with so many bytes of the
file seen. -/
def endingOf (start seen : Nat) (output : List UInt8) : Inflate.Ending → SourceEnding
  | .complete next => .trailer next (checksum output).toNat output.length
  | .truncated => .starved start seen output.length
  | .malformed => .stuck .corruptStream

/-- Decompresses the stream that starts at a position of a file: what came out, without the bytes
that were given before, in pieces, and the ending. -/
def inflated (content : List UInt8) (start given : Nat) : List (List UInt8) × SourceEnding :=
  let result := Inflate.decode ⟨content.toArray⟩ start
  let output := result.output.toList
  (pieces Inflate.portion (output.drop given), endingOf start content.length output result.ending)

/-- Decompresses a gzip file when it is opened.  An error in the header is reported once. -/
def unpack (content : List UInt8) : List (List UInt8) × SourceEnding :=
  match skipHeader content with
  | .error error => ([], .once error)
  | .ok rest => inflated content (content.length - rest.length) 0

/-- Goes on with a stream that was not complete, if there is more of the file now. -/
def resume (content : List UInt8) : SourceEnding → List (List UInt8) × SourceEnding
  | .starved start seen given =>
    if seen < content.length then inflated content start given else ([], .starved start seen given)
  | ending => ([], ending)

/-- A stream that went on has come to the end of the file. -/
theorem resume_resume (content : List UInt8) (ending : SourceEnding) :
    (resume content (resume content ending).2).1 = [] := by
  cases ending with
  | starved start seen given =>
    by_cases h : seen < content.length
    · simp only [resume, h, ↓reduceIte, inflated]
      cases (Inflate.decode ⟨content.toArray⟩ start).ending <;> simp [endingOf]
    · simp [resume, h]
  | _ => rfl

/-- Reads behind the last bytes of a file: nothing more, or an error. -/
def attempt (content : List UInt8) : SourceEnding → Except ReadError Unit × SourceEnding
  | .finished => (.ok (), .finished)
  | .stuck error => (.error error, .stuck error)
  | .once error => (.error error, .finished)
  | .starved _ _ _ => (.error .incompleteStream, .stuck .incompleteStream)
  | .trailer position sum length =>
    let fields := (content.drop position).take 8
    if fields.length < 8 then (.error .endsEarly, .trailer position sum length)
    else if littleEndian (fields.take 4) = sum
        ∧ littleEndian (fields.drop 4) = length % 0x100000000 then (.ok (), .finished)
    else (.error .checksumMismatch, .finished)

theorem eq_finished_of_attempt {content : List UInt8} {ending next : SourceEnding}
    (h : attempt content ending = (.ok (), next)) : next = .finished := by
  unfold attempt at h
  split at h
  case h_5 =>
    dsimp only at h
    split at h
    · simp at h
    · split at h
      · simpa using h.symm
      · simp at h
  all_goals simp_all

end Gzip

end SplitFeed

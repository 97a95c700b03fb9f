/-
# Decompression

The inverse of the usual sliding-window compression: blocks of literal bytes and of copies from
up to 32 KiB back, coded with canonical prefix codes.

Besides the bytes, the result tells where decoding stopped and how many of the bytes had left
the decoder by then.  The decoder works in passes: a pass goes on until there is a byte to write
and the window is full, or a bit to read and a piece of the input is used up.  A full window ends
only a pass that has given as many bytes as are asked for at a time.  The bytes of a pass in which
the stream turns out malformed are lost.
-/

namespace SplitFeed.Inflate

/-- How decoding ended. -/
inductive Ending where
  /-- The last block was complete; `next` is the position of the first byte behind it. -/
  | complete (next : Nat)
  /-- The input ended inside the stream. -/
  | truncated
  /-- The stream is malformed. -/
  | malformed
deriving DecidableEq, Inhabited

/-- Size of the window, and of the pieces in which input arrives. -/
def window : Nat := 32768

/-- How many bytes are asked for at a time. -/
def portion : Nat := 8192

/-- The decoder: input bytes, position of the next bit, bytes decoded, and how many of those
belong to passes that are over. -/
structure State where
  input : ByteArray
  bit : Nat
  output : Array UInt8 := #[]
  delivered : Nat := 0

/-- Why decoding cannot go on. -/
inductive Stop where
  | truncated
  | malformed
deriving DecidableEq, Inhabited

/-- A decoding step; when it stops, the state still tells what was decoded. -/
abbrev Step := ExceptT Stop (StateM State)

/-- Ends the pass: all that was decoded so far has left the decoder. -/
def State.endPass (state : State) : State :=
  { state with delivered := state.output.size }

/-- Reads one bit; the first one of a piece of the input begins a new pass. -/
def bit : Step Nat := do
  let state ← get
  let index := state.bit / 8
  if index < state.input.size then
    let state := if state.bit % (8 * window) = 0 then state.endPass else state
    set { state with bit := state.bit + 1 }
    return (state.input.get! index).toNat >>> (state.bit % 8) % 2
  else throw .truncated

/-- Reads a number of bits, the lowest first. -/
def bits : Nat → Step Nat
  | 0 => return 0
  | count + 1 => do
    let low ← bit
    let high ← bits count
    return low + 2 * high

/-- A prefix code: how many symbols there are of each length, and the symbols by code. -/
structure Code where
  counts : Array Nat
  symbols : Array Nat

/-- Longest code word. -/
def longestWord : Nat := 15

/-- The canonical code with given word lengths; a length of zero leaves a symbol out. -/
def Code.ofLengths (lengths : List Nat) : Code :=
  let numbered := lengths.zipIdx
  let ofLength (length : Nat) := (numbered.filter (·.1 == length)).map (·.2)
  let byLength := (List.range longestWord).map fun below => ofLength (below + 1)
  { counts := (0 :: byLength.map List.length).toArray, symbols := byLength.flatten.toArray }

/-- Number of words of the longest length that the code leaves unused; none if the lengths
cannot all be had. -/
def Code.spare? (code : Code) : Option Nat :=
  (List.range longestWord).foldl
    (fun left below => left.bind fun left =>
      let used := code.counts.getD (below + 1) 0
      if used ≤ 2 * left then some (2 * left - used) else none)
    (some 1)

/-- Whether every sequence of bits starts with a word of the code. -/
def Code.isComplete (code : Code) : Bool :=
  code.spare? == some 0

/-- Whether the code can be used in a block: it is complete, or has no symbol at all, or one
symbol whose word is a single bit. -/
def Code.isUsable (code : Code) : Bool :=
  code.isComplete || code.symbols.size == 0
    || (code.symbols.size == 1 && code.counts.getD 1 0 == 1)

/-- Reads one symbol bit by bit: `first` is the first word of the current length, `index` the
place of its symbol.  When no symbol with a longer word is left, what was read is no word. -/
def Code.readFrom (code : Code) (length word first index : Nat) : Nat → Step Nat
  | 0 => throw .malformed
  | left + 1 => do
    let word := word + (← bit)
    let count := code.counts.getD length 0
    if word < first + count then
      return code.symbols.getD (index + (word - first)) 0
    else if code.symbols.size ≤ index + count then throw .malformed
    else code.readFrom (length + 1) (2 * word) (2 * (first + count)) (index + count) left

/-- Reads one symbol. -/
def Code.read (code : Code) : Step Nat :=
  code.readFrom 1 0 0 0 longestWord

/-- Whether the next byte to write belongs to another pass. -/
def State.isFull (state : State) : Bool :=
  state.output.size % window == 0 && portion ≤ state.output.size - state.delivered

/-- Appends a byte. -/
def emit (byte : UInt8) : Step Unit :=
  modify fun state =>
    let state := if state.isFull then state.endPass else state
    { state with output := state.output.push byte }

/-- Appends a run of bytes from `distance` back.  Before the first byte there are zeros. -/
def copy (distance : Nat) : Nat → Step Unit
  | 0 => return
  | length + 1 => do
    let state ← get
    let size := state.output.size
    emit (if distance ≤ size then state.output.getD (size - distance) 0 else 0)
    copy distance length

/-- Base and extra bits of the copy lengths. -/
def lengthTable : Array (Nat × Nat) := #[
  (3, 0), (4, 0), (5, 0), (6, 0), (7, 0), (8, 0), (9, 0), (10, 0), (11, 1), (13, 1), (15, 1),
  (17, 1), (19, 2), (23, 2), (27, 2), (31, 2), (35, 3), (43, 3), (51, 3), (59, 3), (67, 4),
  (83, 4), (99, 4), (115, 4), (131, 5), (163, 5), (195, 5), (227, 5), (258, 0)]

/-- Base and extra bits of the copy distances. -/
def distanceTable : Array (Nat × Nat) := #[
  (1, 0), (2, 0), (3, 0), (4, 0), (5, 1), (7, 1), (9, 2), (13, 2), (17, 3), (25, 3), (33, 4),
  (49, 4), (65, 5), (97, 5), (129, 6), (193, 6), (257, 7), (385, 7), (513, 8), (769, 8),
  (1025, 9), (1537, 9), (2049, 10), (3073, 10), (4097, 11), (6145, 11), (8193, 12), (12289, 12),
  (16385, 13), (24577, 13)]

/-- Reads a base with its extra bits. -/
def extended (table : Array (Nat × Nat)) (index : Nat) : Step Nat :=
  match table[index]? with
  | some (base, extra) => return base + (← bits extra)
  | none => throw .malformed

/-- Decodes literals and copies up to the end of a block. -/
def codedData (literals distances : Code) : Nat → Step Unit
  | 0 => throw .malformed
  | fuel + 1 => do
    let symbol ← literals.read
    if symbol < 256 then
      emit symbol.toUInt8
      codedData literals distances fuel
    else if symbol = 256 then return
    else
      let length ← extended lengthTable (symbol - 257)
      let distance ← extended distanceTable (← distances.read)
      copy distance length
      codedData literals distances fuel

/-- The code for literals and lengths of a block with fixed codes. -/
def fixedLiterals : Code :=
  .ofLengths (List.replicate 144 8 ++ List.replicate 112 9 ++ List.replicate 24 7 ++
    List.replicate 8 8)

/-- The code for distances of a block with fixed codes. -/
def fixedDistances : Code := .ofLengths (List.replicate 32 5)

/-- The order in which the lengths of the code for code lengths arrive. -/
def lengthOrder : List Nat :=
  [16, 17, 18, 0, 8, 7, 9, 6, 10, 5, 11, 4, 12, 3, 13, 2, 14, 1, 15]

/-- Reads `wanted` code lengths, newest first in `sofar`. -/
def codeLengths (code : Code) (wanted : Nat) (sofar : List Nat) : Nat → Step (List Nat)
  | 0 => throw .malformed
  | fuel + 1 => do
    if sofar.length = wanted then return sofar.reverse
    else if wanted < sofar.length then throw .malformed
    else
      let symbol ← code.read
      if symbol < 16 then codeLengths code wanted (symbol :: sofar) fuel
      else if symbol = 16 then
        match sofar with
        | [] => throw .malformed
        | last :: _ =>
          let count := 3 + (← bits 2)
          codeLengths code wanted (List.replicate count last ++ sofar) fuel
      else
        let count ← if symbol = 17 then (3 + ·) <$> bits 3 else (11 + ·) <$> bits 7
        codeLengths code wanted (List.replicate count 0 ++ sofar) fuel

/-- Largest number of symbols in a block's own code for literals and lengths. -/
def mostLiterals : Nat := 286

/-- Largest number of symbols in a block's own code for distances. -/
def mostDistances : Nat := 30

/-- Reads the codes in front of a block that brings its own: the numbers of code lengths, the
code in which those are written, which has to be complete, and the code lengths. -/
def ownCodes : Step (Code × Code) := do
  let literals := 257 + (← bits 5)
  let distances := 1 + (← bits 5)
  let given := 4 + (← bits 4)
  if mostLiterals < literals ∨ mostDistances < distances then throw .malformed
  let sent ← (lengthOrder.take given).mapM fun symbol => return (symbol, ← bits 3)
  let lengthOf (symbol : Nat) := ((sent.find? (·.1 == symbol)).map (·.2)).getD 0
  let code := Code.ofLengths ((List.range 19).map lengthOf)
  if !code.isComplete then throw .malformed
  let lengths ← codeLengths code (literals + distances) [] (literals + distances + 1)
  let literalCode := Code.ofLengths (lengths.take literals)
  let distanceCode := Code.ofLengths (lengths.drop literals)
  if literalCode.isUsable && distanceCode.isUsable then return (literalCode, distanceCode)
  else throw .malformed

/-- Copies bytes that were stored as they are. -/
def storedData : Nat → Step Unit
  | 0 => return
  | count + 1 => do
    emit (← bits 8).toUInt8
    storedData count

/-- Decodes a block of bytes stored as they are, which starts at a whole byte. -/
def stored : Step Unit := do
  modify fun state => { state with bit := (state.bit + 7) / 8 * 8 }
  let length ← bits 16
  let complement ← bits 16
  if length + complement = 65535 then storedData length else throw .malformed

/-- Decodes blocks up to and including the last one. -/
def blocks : Nat → Step Unit
  | 0 => throw .malformed
  | fuel + 1 => do
    let last ← bit
    let available := (← get).input.size * 8
    match ← bits 2 with
    | 0 => stored
    | 1 => codedData fixedLiterals fixedDistances (available + 1)
    | 2 =>
      let (literals, distances) ← ownCodes
      codedData literals distances (available + 1)
    | _ => throw .malformed
    if last = 1 then return else blocks fuel

/-- What came out of a compressed stream. -/
structure Result where
  output : Array UInt8
  ending : Ending

/-- Decodes the stream that starts at a byte position.  Every symbol takes at least one bit and
every block at least three, so the fuel, one unit per bit, is never used up. -/
def decode (input : ByteArray) (start : Nat) : Result :=
  match (blocks (input.size * 8 + 1)).run { input, bit := start * 8 } with
  | (.ok (), state) => ⟨state.output, .complete ((state.bit + 7) / 8)⟩
  | (.error .truncated, state) => ⟨state.output, .truncated⟩
  | (.error .malformed, state) => ⟨state.output.extract 0 state.delivered, .malformed⟩

end SplitFeed.Inflate

/-
# Scanning

Reading something off the front of a text.  A scanner answers what it read and what is left, or
nothing when the text does not begin that way; a choice starts again where it stood.
-/

namespace SplitFeed

/-- Reads something off the front of a text. -/
abbrev Scan := StateT (List Char) Option

namespace Scan

variable {α β : Type}

/-- One character of a class. -/
def one (isIn : Char → Bool) : Scan Char
  | c :: rest => if isIn c then some (c, rest) else none
  | [] => none

/-- A certain character. -/
def char (c : Char) : Scan Unit := do
  let _ ← one (· == c)

/-- A certain word. -/
def word (text : String) : Scan Unit :=
  text.toList.forM char

/-- The longest run of characters of a class, which may be empty. -/
def span (isIn : Char → Bool) : Scan (List Char) :=
  fun input => some (input.span isIn)

/-- The longest run of characters of a class, of at least one. -/
def run (isIn : Char → Bool) : Scan (List Char) := do
  let first ← one isIn
  return first :: (← span isIn)

/-- A certain number of characters of a class. -/
def exactly (count : Nat) (isIn : Char → Bool) : Scan (List Char) :=
  (List.range count).mapM fun _ => one isIn

/-- Something that may be missing. -/
def maybe (scan : Scan α) : Scan (Option α) :=
  some <$> scan <|> pure none

/-- Whether a certain character comes next; it is read then. -/
def next? (c : Char) : Scan Bool :=
  (do char c; return true) <|> pure false

/-- Succeeds where the rest of the text begins with a character of a class, reading nothing. -/
def peek (isIn : Char → Bool) : Scan Unit
  | c :: rest => if isIn c then some ((), c :: rest) else none
  | [] => none

/-- Reads again and again, at most a number of times, until nothing more of the kind comes. -/
def upTo (scan : Scan α) : Nat → Scan (List α)
  | 0 => pure []
  | times + 1 => fun input =>
    match scan input with
    | none => some ([], input)
    | some (a, rest) => do
      let (more, rest) ← upTo scan times rest
      return (a :: more, rest)

/-- Reads again and again, until nothing more of the kind comes.  Each reading is expected to
take at least one character, so the length of the text bounds their number. -/
def many (scan : Scan α) : Scan (List α) :=
  fun input => upTo scan input.length input

/-- One or more, with separators between them. -/
def separated (scan : Scan α) (separator : Scan β) : Scan (List α) := do
  let first ← scan
  let rest ← many do
    let _ ← separator
    scan
  return first :: rest

/-- The characters that a scanner reads. -/
def spelling (scan : Scan α) : Scan (List Char) := fun input =>
  match scan input with
  | some (_, rest) => some (input.take (input.length - rest.length), rest)
  | none => none

/-- What a whole text reads as. -/
def whole (scan : Scan α) (text : String) : Option α :=
  match scan text.toList with
  | some (a, []) => some a
  | _ => none

end Scan

end SplitFeed

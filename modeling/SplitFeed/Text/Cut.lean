/-
# Cutting text

The front of a text is cut off by bytes, as many as are wanted.  A cut can be made between two
characters only: one inside a character is a fault.
-/
import SplitFeed.Text.Quoted

namespace SplitFeed.Text

/-- A cut inside a character: the number of bytes wanted, the character, and the number of bytes
in front of it. -/
structure BadCut where
  wanted : Nat
  letter : Char
  before : Nat
deriving DecidableEq, Inhabited

/-- The fault in words. -/
def BadCut.message (cut : BadCut) : String :=
  "end byte index " ++ toString cut.wanted ++ " is not a char boundary; it is inside '" ++
    quotedChar cut.letter ++ "' (bytes " ++ toString cut.before ++ ".." ++
    toString (cut.before + cut.letter.utf8Size) ++ " of string)"

/-- The characters that make up the first bytes, as many as are wanted, or all of them if there
are fewer; `before` bytes stand in front of the text. -/
def firstBytes (wanted before : Nat) : List Char → Except BadCut (List Char)
  | [] => .ok []
  | c :: rest =>
    if wanted ≤ before then .ok []
    else if wanted < before + c.utf8Size then .error ⟨wanted, c, before⟩
    else (firstBytes wanted (before + c.utf8Size) rest).map (c :: ·)

end SplitFeed.Text

/-
# Logged text

A log is read on a terminal, and a terminal obeys some characters where it should show them: the
bell, the backspace, the form feed, the escape, the delete, and the control characters beyond
ASCII.  A logged line names them by their codes.  All other characters stand as they are.
-/
import SplitFeed.Text.Quoted

namespace SplitFeed.Text

/-- The control characters of ASCII that are named in a log. -/
def loggedByCode : List Char := ['\x07', '\x08', '\x0c', '\x1b', '\x7f']

/-- One character of a logged text. -/
def loggedChar (c : Char) : String :=
  if loggedByCode.contains c then
    "\\x" ++ (if c.toNat < 16 then "0" else "") ++ hexadecimal c.toNat
  else if '\x80' ≤ c ∧ c ≤ '\x9f' then escapedByCode c
  else c.toString

/-- A text as it is logged. -/
def logged (text : String) : String :=
  String.join (text.toList.map loggedChar)

end SplitFeed.Text

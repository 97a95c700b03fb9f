/-
# Quoted text

How identifiers, paths and collections appear inside diagnostics: text between double quotes
with misleading characters escaped, lists in brackets, sets in braces, records as a name and
its fields.
-/
import SplitFeed.Text.Shape

namespace SplitFeed.Text

/-- A number in lower-case hexadecimal. -/
def hexadecimal (n : Nat) : String :=
  String.ofList (Nat.toDigits 16 n)

/-- A character named by its code point. -/
def escapedByCode (c : Char) : String :=
  "\\u\x7b" ++ hexadecimal c.toNat ++ "\x7d"

/-- One character of a quoted text.  The quote and the backslash are escaped, the usual control
characters have letters, and a character without a shape of its own is named by its code
point. -/
def quotedChar (c : Char) : String :=
  if c = '\x00' then "\\0"
  else if c = '\t' then "\\t"
  else if c = '\r' then "\\r"
  else if c = '\n' then "\\n"
  else if c = '\\' then "\\\\"
  else if c = '"' then "\\\""
  else if hasShape c then c.toString
  else escapedByCode c

/-- Text between double quotes. -/
def quoted (text : String) : String :=
  "\"" ++ String.join (text.toList.map quotedChar) ++ "\""

/-- A word between backticks. -/
def ticked (word : String) : String :=
  "\x60" ++ word ++ "\x60"

/-- Items between brackets. -/
def bracketed (items : List String) : String :=
  "[" ++ ", ".intercalate items ++ "]"

/-- Items between braces. -/
def braced (items : List String) : String :=
  "\x7b" ++ ", ".intercalate items ++ "\x7d"

/-- A record: its name, then its fields as `label: value` between braces. -/
def labelled (name : String) (fields : List (String × String)) : String :=
  let shown := fields.map fun (label, value) => label ++ ": " ++ value
  name ++ " \x7b " ++ ", ".intercalate shown ++ " \x7d"

/-- A named value with its contents in parentheses. -/
def wrapped (name content : String) : String :=
  name ++ "(" ++ content ++ ")"

/-- The word for a truth value. -/
def truth (value : Bool) : String :=
  if value then "true" else "false"

/-- An optional value: `None`, or the value wrapped in `Some`. -/
def optional (value : Option String) : String :=
  match value with
  | none => "None"
  | some text => wrapped "Some" text

end SplitFeed.Text

/-
# Text with escapes

Text between double quotes as people write it: characters stand for themselves, and a backslash
begins an escape for those that cannot.  Control characters other than the tab have to be
escaped.
-/
import SplitFeed.Text.Scan

namespace SplitFeed.Text

/-- Whether a character may stand for itself: all but the control characters of ASCII, of which
only the tab may. -/
def isPlain (c : Char) : Bool :=
  c == '\t' || (' ' ≤ c && c ≠ '\x7f')

/-- The value of a hexadecimal digit. -/
def hexDigit? (c : Char) : Option Nat :=
  if '0' ≤ c ∧ c ≤ '9' then some (c.toNat - '0'.toNat)
  else if 'a' ≤ c ∧ c ≤ 'f' then some (c.toNat - 'a'.toNat + 10)
  else if 'A' ≤ c ∧ c ≤ 'F' then some (c.toNat - 'A'.toNat + 10)
  else none

/-- The number that hexadecimal digits stand for. -/
def ofHex (digits : List Char) : Nat :=
  digits.foldl (fun n c => n * 16 + (hexDigit? c).getD 0) 0

/-- A character by its code point, in a certain number of hexadecimal digits. -/
def codePoint (digits : Nat) : Scan Char := do
  let n := ofHex (← Scan.exactly digits fun c => (hexDigit? c).isSome)
  if n.isValidChar then return Char.ofNat n else failure

/-- An escape: a backslash and a letter, a quote, a backslash or a code point. -/
def escape : Scan Char := do
  Scan.char '\\'
  match ← Scan.one fun _ => true with
  | 'b' => return '\x08'
  | 't' => return '\t'
  | 'n' => return '\n'
  | 'f' => return '\x0c'
  | 'r' => return '\r'
  | '"' => return '"'
  | '\\' => return '\\'
  | 'u' => codePoint 4
  | 'U' => codePoint 8
  | _ => failure

/-- A character that stands for itself between double quotes. -/
def unescaped : Scan Char :=
  Scan.one fun c => isPlain c && c != '"' && c != '\\'

/-- Text between double quotes. -/
def betweenQuotes : Scan String := do
  Scan.char '"'
  let chars ← Scan.many (unescaped <|> escape)
  Scan.char '"'
  return String.ofList chars

end SplitFeed.Text

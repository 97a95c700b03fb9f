/-
# Words of a TOML document

Blanks, comments and line ends; keys; and the values that have no parts: text in its four forms,
numbers, dates and times.
-/
import SplitFeed.Decimal.Nearest
import SplitFeed.Text.Escaped
import SplitFeed.Toml.Node
import SplitFeed.Word

namespace SplitFeed.Toml

open Decimal (isDigit natural)

/-! ### Between the words -/

/-- Blanks within a line. -/
def blanks : Scan Unit := do
  let _ ← Scan.span fun c => c == ' ' || c == '\t'

/-- The end of a line. -/
def newline : Scan Unit := do
  let _ ← Scan.next? '\r'
  Scan.char '\n'

/-- A comment, up to the end of its line. -/
def comment : Scan Unit := do
  Scan.char '#'
  let _ ← Scan.span Text.isPlain

/-- The end of the document. -/
def finish : Scan Unit := fun input => if input.isEmpty then some ((), []) else none

/-- What may follow a statement on its line. -/
def lineEnd : Scan Unit := do
  blanks
  let _ ← Scan.maybe comment
  newline <|> finish

/-- Blanks, line ends and comments, as they may stand between the items of an array. -/
def spacing : Scan Unit := do
  blanks
  let _ ← Scan.many do
    let _ ← Scan.maybe comment
    newline
    blanks

/-! ### Text -/

/-- Text between single quotes, where nothing is escaped. -/
def literal : Scan String := do
  Scan.char '\''
  let chars ← Scan.span fun c => Text.isPlain c && c != '\''
  Scan.char '\''
  return String.ofList chars

/-- A backslash at the end of a line: it takes away all blanks and line ends that follow. -/
def continuation : Scan Unit := do
  Scan.char '\\'
  blanks
  newline
  let _ ← Scan.many (newline <|> do let _ ← Scan.run fun c => c == ' ' || c == '\t')

/-- A piece of text over several lines, other than a quote.  Between single quotes nothing is
escaped. -/
def piece (quote : Char) : Scan (List Char) :=
  let escapes := quote != '\''
  (do newline; return ['\n'])
    <|> (do return [← Scan.one fun c => Text.isPlain c && c != quote && !(escapes && c == '\\')])
    <|> (do guard escapes; continuation; return [])
    <|> (do guard escapes; return [← Text.escape])

/-- One or two quotes inside of such text, with something else behind them. -/
def innerQuotes (quote : Char) : Scan (List Char) := do
  Scan.char quote
  let second ← Scan.next? quote
  Scan.peek (· != quote)
  return if second then [quote, quote] else [quote]

/-- Text between three quotes on either side.  A line end right at its beginning does not count,
and up to two further quotes at its end belong to it. -/
def multiline (quote : Char) : Scan String := do
  let quotes := Scan.word (String.ofList [quote, quote, quote])
  quotes
  let _ ← Scan.maybe newline
  let pieces ← Scan.many (piece quote <|> innerQuotes quote)
  quotes
  let last ← Scan.upTo (do Scan.char quote; return quote) 2
  return String.ofList (pieces.flatten ++ last)

/-- Text in any of its forms. -/
def text : Scan String :=
  multiline '"' <|> Text.betweenQuotes <|> multiline '\'' <|> literal

/-! ### Keys -/

/-- A key without dots. -/
def simpleKey : Scan String :=
  Text.betweenQuotes <|> literal <|> do
    let chars ← Scan.run fun c => c.isAlphanum || c == '-' || c == '_'
    return String.ofList chars

/-- What is nested this deep is refused. -/
def deepest : Nat := 80

/-- A key, which may have several parts with dots between them. -/
def key : Scan (List String) := do
  let part : Scan String := do
    blanks
    let name ← simpleKey
    blanks
    return name
  let parts ← Scan.separated part (Scan.char '.')
  if parts.length < deepest then return parts else failure

/-! ### Numbers -/

/-- Digits with single underscores between them, of which only the digits are kept. -/
def digits (isIn : Char → Bool) : Scan (List Char) := do
  let first ← Scan.one isIn
  let more ← Scan.many (Scan.one isIn <|> do Scan.char '_'; Scan.one isIn)
  return first :: more

/-- The digits of a decimal number before its point, without superfluous zeros. -/
def wholeDigits : Scan (List Char) :=
  (do Scan.peek (· != '0'); digits isDigit) <|> (do return [← Scan.one isDigit])

/-- A whole number, if it fits into 64 bits with a sign. -/
def fitting (value : Int) : Scan Node :=
  if -(Word.half : Int) ≤ value ∧ value < Word.half then return .integer value else failure

/-- The number that digits of a base up to ten stand for. -/
def inBase (base : Nat) (digits : List Char) : Nat :=
  digits.foldl (fun n c => n * base + (c.toNat - '0'.toNat)) 0

/-- A whole number. -/
def integer : Scan Node :=
  (do Scan.word "0x"; fitting (Text.ofHex (← digits fun c => (Text.hexDigit? c).isSome)))
    <|> (do Scan.word "0o"; fitting (inBase 8 (← digits fun c => '0' ≤ c && c ≤ '7')))
    <|> (do Scan.word "0b"; fitting (inBase 2 (← digits fun c => c == '0' || c == '1')))
    <|> do
      let negative ← Decimal.sign
      let n := natural (← wholeDigits)
      fitting (if negative then -(n : Int) else n)

/-- A number with a point or an exponent; one beyond the greatest number is refused. -/
def fraction : Scan Node := do
  let negative ← Decimal.sign
  let whole ← wholeDigits
  let fraction ← Scan.maybe do
    Scan.char '.'
    digits isDigit
  let exponent ← Scan.maybe (Decimal.Numeral.exponentPart (digits isDigit))
  if fraction.isNone && exponent.isNone then failure
  let numeral : Decimal.Numeral :=
    { negative, whole, fraction := fraction.getD [], exponent := exponent.getD 0 }
  if numeral.nearest == 1 / 0 then failure
  return .float numeral.nearest

/-- Infinity, or what is not a number. -/
def special : Scan Node := do
  let negative ← Decimal.sign
  let value : Float ← (do Scan.word "inf"; return 1 / 0) <|> (do Scan.word "nan"; return 0 / 0)
  return .float (if negative then -value else value)

/-! ### Dates and times -/

/-- A number of two digits between bounds. -/
def two (low high : Nat) : Scan Nat := do
  let n := natural (← Scan.exactly 2 isDigit)
  if low ≤ n ∧ n ≤ high then return n else failure

/-- The number of days of a month. -/
def daysIn (year month : Nat) : Nat :=
  if month = 2 then
    if year % 4 = 0 ∧ (year % 100 ≠ 0 ∨ year % 400 = 0) then 29 else 28
  else if month = 4 ∨ month = 6 ∨ month = 9 ∨ month = 11 then 30
  else 31

/-- A date. -/
def date : Scan Unit := do
  let year := natural (← Scan.exactly 4 isDigit)
  Scan.char '-'
  let month ← two 1 12
  Scan.char '-'
  let _ ← two 1 (daysIn year month)

/-- A time of day. -/
def time : Scan Unit := do
  let _ ← two 0 23
  Scan.char ':'
  let _ ← two 0 59
  Scan.char ':'
  let _ ← two 0 60
  let _ ← Scan.maybe do
    Scan.char '.'
    Scan.run isDigit

/-- How far a time is from the meridian. -/
def offset : Scan Unit :=
  (do let _ ← Scan.one fun c => c == 'Z' || c == 'z') <|> do
    let _ ← Scan.one fun c => c == '+' || c == '-'
    let _ ← two 0 23
    Scan.char ':'
    let _ ← two 0 59

/-- A date, which a time may follow. -/
def dateTime : Scan Unit := do
  date
  let _ ← Scan.maybe do
    let _ ← Scan.one fun c => c == 'T' || c == 't' || c == ' '
    time
    Scan.maybe offset

/-- A date, a date with a time, or a time. -/
def moment : Scan Node := do
  let written ← Scan.spelling (dateTime <|> time)
  return .moment (String.ofList written)

/-- A truth value. -/
def truth : Scan Node :=
  (do Scan.word "true"; return .truth true) <|> (do Scan.word "false"; return .truth false)

/-- A value without parts. -/
def scalar : Scan Node :=
  (do return .text (← text)) <|> moment <|> fraction <|> special <|> integer <|> truth

end SplitFeed.Toml

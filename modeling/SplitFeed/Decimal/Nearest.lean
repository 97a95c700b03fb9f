/-
# Reading decimals

A decimal in digits, and the binary floating point number nearest to it.  Decimals beyond the
greatest number read as infinity, those too close to zero as zero.
-/
import SplitFeed.Text.Scan

namespace SplitFeed.Decimal

/-- Whether a character is a decimal digit. -/
def isDigit (c : Char) : Bool :=
  '0' ≤ c && c ≤ '9'

/-- The number that decimal digits stand for. -/
def natural (digits : List Char) : Nat :=
  digits.foldl (fun n c => n * 10 + (c.toNat - '0'.toNat)) 0

/-- A sign that may be missing; `true` is a minus. -/
def sign : Scan Bool := do
  if ← Scan.next? '-' then return true
  let _ ← Scan.next? '+'
  return false

/-- A decimal: a sign, digits before and behind the point, and an exponent of ten. -/
structure Numeral where
  negative : Bool
  whole : List Char
  fraction : List Char
  exponent : Int
deriving DecidableEq

namespace Numeral

/-- The exponents of ten beyond which a decimal is infinite or zero, when they count from the
first digit that is not zero. -/
def greatestExponent : Int := 310

@[inherit_doc greatestExponent]
def leastExponent : Int := -330

/-- The nearest binary floating point number; ties go to the even mantissa. -/
def nearest (numeral : Numeral) : Float :=
  let digits := (numeral.whole ++ numeral.fraction).dropWhile (· == '0')
  let exponent := numeral.exponent - numeral.fraction.length
  let magnitude : Float :=
    if digits.isEmpty then 0
    else if greatestExponent < exponent + digits.length then 1 / 0
    else if exponent + digits.length < leastExponent then 0
    else Float.ofScientific (natural digits) (exponent < 0) exponent.natAbs
  if numeral.negative then -magnitude else magnitude

/-- The exponent of a decimal: the letter in either case, an optional sign, and digits. -/
def exponentPart (digits : Scan (List Char)) : Scan Int := do
  let _ ← Scan.one fun c => c == 'e' || c == 'E'
  let negative ← sign
  let n := natural (← digits)
  return if negative then -(n : Int) else n

/-- A decimal in its free form: an optional sign, digits with at most one point among, before
or behind them, and an optional exponent. -/
def free : Scan Numeral := do
  let negative ← sign
  let whole ← Scan.span isDigit
  let fraction ← (do Scan.char '.'; Scan.span isDigit) <|> pure []
  if whole.isEmpty && fraction.isEmpty then failure
  let exponent ← exponentPart (Scan.run isDigit) <|> pure 0
  return { negative, whole, fraction, exponent }

end Numeral

end SplitFeed.Decimal

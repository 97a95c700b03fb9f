/-
# The shortest decimal

A binary floating point number is written with as few digits as tell it from its neighbours.
Many reals round to the same number; they form an interval, whose ends belong to it when the
mantissa is even.  For one digit, two digits and so on, the two decimals of that length around
the number are tried against the interval.  The first length with a hit wins; of two hits the
nearer is taken, and of two equally near ones the greater.
-/
import SplitFeed.Decimal

namespace SplitFeed.Decimal

/-- A finite positive number and the ends of the interval of reals that round to it, over a
common denominator.  The mantissa is even exactly when the ends belong to the interval. -/
structure Interval where
  low : Nat
  value : Nat
  high : Nat
  den : Nat
  closed : Bool
deriving DecidableEq

/-- The interval of a finite positive binary floating point number.  Its width is one unit in
the last place, except that below a power of two the neighbour is only half as far away. -/
def Interval.ofFloat (x : Float) : Interval :=
  let bits := x.toBits.toNat
  let fraction := bits % Word.twoTo 52
  let exponent := bits / Word.twoTo 52 % Word.twoTo 11
  let (num, den) := quotient x
  let unit := Word.twoTo (exponent - 1075)
  let below := if fraction = 0 ∧ 1 < exponent then unit else 2 * unit
  { low := 4 * num - below
    value := 4 * num
    high := 4 * num + 2 * unit
    den := 4 * den
    closed := fraction % 2 = 0 }

/-- A decimal: `digits * 10 ^ place`. -/
structure Scaled where
  digits : Nat
  place : Int
deriving DecidableEq, Inhabited

namespace Scaled

/-- A quotient `num / den`, divided by the power of ten of a place, as a quotient. -/
def shift (num den : Nat) (place : Int) : Nat × Nat :=
  (num * tenTo (-place).toNat, den * tenTo place.toNat)

/-- Whether a decimal lies in an interval. -/
def isIn (interval : Interval) (decimal : Scaled) : Bool :=
  let (low, den) := shift interval.low interval.den decimal.place
  let (high, _) := shift interval.high interval.den decimal.place
  let scaled := decimal.digits * den
  if interval.closed then low ≤ scaled && scaled ≤ high else low < scaled && scaled < high

/-- The better of the two decimals of a place around a number, if one of them lies in its
interval. -/
def around? (interval : Interval) (place : Int) : Option Scaled :=
  let (num, den) := shift interval.value interval.den place
  let below : Scaled := ⟨num / den, place⟩
  let above : Scaled := ⟨num / den + 1, place⟩
  match below.isIn interval, above.isIn interval with
  | true, true => some (if 2 * (num % den) < den then below else above)
  | true, false => some below
  | false, true => some above
  | false, false => none

/-- The place of the first digit of a positive quotient: `10 ^ place` is the greatest power of
ten that is not above it. -/
def leading (num den : Nat) : Int :=
  if den ≤ num then (Nat.toDigits 10 (num / den)).length - 1
  else -(Nat.toDigits 10 ((den - 1) / num)).length

/-- Digits that always suffice to tell a number from its neighbours. -/
def sufficient : Nat := 17

/-- The shortest decimal in an interval. -/
def shortest (interval : Interval) : Scaled :=
  let first := leading interval.value interval.den
  ((List.range sufficient).findSome? fun (more : Nat) =>
    around? interval (first - more)).getD default

/-- A decimal without exponent. -/
def positional (decimal : Scaled) : String :=
  let places := (-decimal.place).toNat
  let scaled := decimal.digits * tenTo decimal.place.toNat
  let whole := toString (scaled / tenTo places)
  let digits := toString (scaled % tenTo places)
  let padded := "".pushn '0' (places - digits.length) ++ digits
  let fraction := (padded.toList.reverse.dropWhile (· == '0')).reverse
  if fraction.isEmpty then whole else whole ++ "." ++ String.ofList fraction

end Scaled

/-- The text of a binary floating point number: the shortest decimal that tells it from its
neighbours, without exponent, and without a point where it is whole. -/
def shortestFloat (x : Float) : String :=
  if x.isNaN then "NaN"
  else
    let sign := if x.toBits.toNat < Word.half then "" else "-"
    if x.isInf then sign ++ "inf"
    else if x == 0 then sign ++ "0"
    else sign ++ (Scaled.shortest (Interval.ofFloat x.abs)).positional

end SplitFeed.Decimal

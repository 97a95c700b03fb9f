/-
# Decimals with a fixed number of places

A quotient is written with a fixed number of decimal places.  The value is the exact quotient;
of the two neighbours on the decimal grid the nearer one is written, and of two equally near
ones the even one.
-/
import SplitFeed.Word

namespace SplitFeed.Decimal

/-- A power of ten. -/
def tenTo (exponent : Nat) : Nat := Nat.pow 10 exponent

/-- The whole number nearest to `num / den`; a half goes to the even neighbour. -/
def roundDiv (num den : Nat) : Nat :=
  let below := num / den
  let rest := num % den
  if 2 * rest < den then below
  else if den < 2 * rest then below + 1
  else if below % 2 = 0 then below
  else below + 1

/-- The quotient `num / den` with a fixed number of places. -/
def fixed (places num den : Nat) : String :=
  let scaled := roundDiv (num * tenTo places) den
  let whole := toString (scaled / tenTo places)
  if places = 0 then whole
  else
    let digits := toString (scaled % tenTo places)
    whole ++ "." ++ "".pushn '0' (places - digits.length) ++ digits

/-- A finite, non-negative binary floating point number as an exact quotient. -/
def quotient (x : Float) : Nat × Nat :=
  let bits := x.toBits.toNat
  let fraction := bits % Word.twoTo 52
  let exponent := bits / Word.twoTo 52 % Word.twoTo 11
  let (mantissa, power) :=
    if exponent = 0 then (fraction, 1) else (fraction + Word.twoTo 52, exponent)
  if 1075 ≤ power then (mantissa * Word.twoTo (power - 1075), 1)
  else (mantissa, Word.twoTo (1075 - power))

/-- A finite, non-negative binary floating point number with a fixed number of places, rounded
from its exact value. -/
def fixedFloat (places : Nat) (x : Float) : String :=
  let (num, den) := quotient x
  fixed places num den

end SplitFeed.Decimal

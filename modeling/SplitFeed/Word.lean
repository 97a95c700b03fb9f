/-
# Counting within 64 bits

Offsets, totals and limits are natural numbers below `2^64`.  Sums and products that leave that
range are refused, or stop at the largest number where the caller asks for that.
-/

namespace SplitFeed.Word

/-- A power of two. -/
def twoTo (exponent : Nat) : Nat := Nat.pow 2 exponent

/-- The first number that does not fit. -/
def size : Nat := 0x10000000000000000

/-- Half of it: numbers with a sign reach from its negative to just below it. -/
def half : Nat := 0x8000000000000000

/-- The largest number that fits. -/
def greatest : Nat := size - 1

/-- An operation whose result does not fit. -/
inductive Overflow where
  | sum
  | product
  /-- A span of time with too many seconds. -/
  | span
deriving DecidableEq, Inhabited

/-- The complaint about a result that does not fit. -/
def Overflow.message : Overflow → String
  | sum => "attempt to add with overflow"
  | product => "attempt to multiply with overflow"
  | span => "overflow in Duration::new"

/-- A sum, if it fits. -/
def add (a b : Nat) : Except Overflow Nat :=
  if a + b < size then .ok (a + b) else .error .sum

/-- A product, if it fits. -/
def mul (a b : Nat) : Except Overflow Nat :=
  if a * b < size then .ok (a * b) else .error .product

/-- A sum that stops at the largest number. -/
def addUpTo (a b : Nat) : Nat :=
  min (a + b) greatest

end SplitFeed.Word

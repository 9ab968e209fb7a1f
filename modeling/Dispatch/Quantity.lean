import Dispatch.Decimal.Layout

/-! # Costs and capacities

Costs, loads and capacities are values of one type with addition, subtraction, division and
comparisons.  `Quantity` lists what the scheduler needs of it, so that the same definitions run on
floating point numbers and can be reasoned about on exact ones.  No law is part of the class.
-/

namespace Dispatch

/-- A type of costs and capacities. -/
class Quantity (κ : Type) extends Zero κ, One κ, Add κ, Sub κ, Div κ, LT κ, LE κ, BEq κ where
  decidableLT : DecidableLT κ
  decidableLE : DecidableLE κ
  /-- How far a comparison may miss before it counts. -/
  tolerance : κ
  /-- Whether the value is a number, and not an infinity. -/
  isFinite : κ → Bool
  /-- The value as messages show it. -/
  text : κ → String

namespace Quantity

variable {κ : Type} [Quantity κ]

instance : DecidableLT κ := decidableLT

instance : DecidableLE κ := decidableLE

/-- Whether a value may be a cost or a capacity: a number that is not negative. -/
def isValid (x : κ) : Bool := isFinite x && !decide (x < 0)

/-- The sum from left to right, starting at zero. -/
def sum (xs : List κ) : κ := xs.foldl (· + ·) 0

/-- The larger of two values. -/
def larger (x y : κ) : κ := if x < y then y else x

/-- The value, or zero when it is negative. -/
def positivePart (x : κ) : κ := if 0 < x then x else 0

/-- The distance between two values. -/
def distance (x y : κ) : κ := if x - y < 0 then 0 - (x - y) else x - y

end Quantity

instance : Quantity Float where
  zero := 0.0
  one := 1.0
  decidableLT := inferInstance
  decidableLE := inferInstance
  tolerance := 1e-9
  isFinite := Float.isFinite
  text := plainText

end Dispatch

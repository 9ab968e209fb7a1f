import Dispatch.Decimal.Binary

/-! # The shortest decimal that reads back

Every real number in an interval around a finite binary value rounds to that value; the ends of
the interval belong to it when the mantissa is even.  `Binary.shortest` looks for a decimal in the
interval on ever finer decimal grids and takes the first grid with a hit.  On one grid only the two
neighbours of the value need to be tested, and the nearer one wins.
-/

namespace Dispatch

/-- The value `coefficient · 10 ^ exponent`. -/
structure Decimal where
  coefficient : Nat
  exponent : Int
deriving DecidableEq, Repr

/-- Which of two equally near decimals is taken. -/
inductive Tie
  | up
  | even
deriving DecidableEq, Repr

namespace Decimal

/-- Drop zeros at the end of the coefficient, at most `fuel` of them. -/
def strip : Nat → Decimal → Decimal
  | 0, d => d
  | fuel + 1, d =>
    if d.coefficient ≠ 0 ∧ d.coefficient % 10 = 0 then
      strip fuel ⟨d.coefficient / 10, d.exponent + 1⟩
    else d

end Decimal

namespace Binary

/-- The interval of reals that round to a value, its ends and the value over one denominator. -/
structure Range where
  low : Nat
  value : Nat
  high : Nat
  denominator : Nat
  /-- Whether the ends round to the value too. -/
  closed : Bool

/-- The interval around `b`, measured in units of `10 ^ e`.  The gap below a power of two is half
the gap above it. -/
def range (b : Binary) (e : Int) : Range :=
  let below := if b.mantissa = fullMantissa ∧ -1074 < b.exponent then 1 else 2
  let up := Nat.pow 2 (b.exponent - 2).toNat * Nat.pow 10 (-e).toNat
  { low := (4 * b.mantissa - below) * up
    value := 4 * b.mantissa * up
    high := (4 * b.mantissa + 2) * up
    denominator := Nat.pow 2 (2 - b.exponent).toNat * Nat.pow 10 e.toNat
    closed := b.mantissa % 2 = 0 }

/-- Whether the grid point `d` lies in the interval. -/
def Range.holds (r : Range) (d : Nat) : Bool :=
  let x := d * r.denominator
  if r.closed then decide (r.low ≤ x ∧ x ≤ r.high) else decide (r.low < x ∧ x < r.high)

/-- The grid point of the interval next to the value, if there is one. -/
def Range.nearest? (r : Range) (tie : Tie) : Option Nat :=
  let floor := r.value / r.denominator
  let ceiling := floor + 1
  match r.holds floor, r.holds ceiling with
  | false, false => none
  | true, false => some floor
  | false, true => some ceiling
  | true, true =>
    let twice := 2 * r.value
    let middle := (floor + ceiling) * r.denominator
    if twice < middle then some floor
    else if middle < twice then some ceiling
    else match tie with
      | .up => some ceiling
      | .even => some (if floor % 2 = 0 then floor else ceiling)

/-- Try the grids `10 ^ e`, `10 ^ (e - 1)`, … until one has a hit. -/
def search (b : Binary) (tie : Tie) : Nat → Int → Decimal
  | 0, e => ⟨(b.range e).value / (b.range e).denominator, e⟩
  | fuel + 1, e =>
    match (b.range e).nearest? tie with
    | some d => Decimal.strip 20 ⟨d, e⟩
    | none => search b tie fuel (e - 1)

/-- The decimal with the fewest digits that reads back as the magnitude of `b`, and of those the
nearest to it. -/
def shortest (b : Binary) (tie : Tie) : Decimal :=
  if b.mantissa = 0 then ⟨0, 0⟩
  else b.search tie 25 ((b.mantissa.log2 + 1 + b.exponent) * 30103 / 100000 + 1)

end Binary

end Dispatch

import Dispatch.Decimal.Shortest

/-! # Written forms of floating point numbers

`Layout` collects the choices that a written form makes: what happens to whole numbers, where
powers of ten begin, and which way ties go.  `Layout.plain` is the form used in messages,
`Layout.exchange` the one of machine-readable documents, and `fixedOne` the form of tables.
-/

namespace Dispatch

/-- The choices of a written form. -/
structure Layout where
  tie : Tie
  /-- Whether a whole number ends in `.0`. -/
  wholePoint : Bool
  /-- Whether a number whose first digit stands for `10 ^ k` is written without a power of ten. -/
  positional : Int → Bool

namespace Layout

/-- Digits and at most a point, never a power of ten; a half goes up. -/
def plain : Layout where
  tie := .up
  wholePoint := false
  positional := fun _ => true

/-- Every number has a point or a power of ten; powers of ten begin at `1e+16` and `1e-6`. -/
def exchange : Layout where
  tie := .even
  wholePoint := true
  positional := fun k => -6 < k && k < 16

/-- A run of zeros. -/
def zeros (n : Nat) : String := String.ofList (List.replicate n '0')

/-- The digits of `d` with the point at its place. -/
def withPoint (l : Layout) (d : Decimal) : String :=
  let digits := toString d.coefficient
  if 0 ≤ d.exponent then
    digits ++ zeros d.exponent.toNat ++ if l.wholePoint then ".0" else ""
  else
    let places := (-d.exponent).toNat
    if places < digits.length then
      let whole := digits.length - places
      String.ofList (digits.toList.take whole) ++ "." ++ String.ofList (digits.toList.drop whole)
    else "0." ++ zeros (places - digits.length) ++ digits

/-- One digit, the others behind a point, and a power of ten with its sign. -/
def withPower (d : Decimal) : String :=
  let digits := (toString d.coefficient).toList
  let power := d.exponent + digits.length - 1
  let tail := digits.drop 1
  String.ofList (digits.take 1) ++ (if tail.isEmpty then "" else "." ++ String.ofList tail) ++
    (if power < 0 then "e-" else "e+") ++ toString power.natAbs

/-- The written form of a finite value. -/
def writeFinite (l : Layout) (b : Binary) : String :=
  let d := b.shortest l.tie
  let first := d.exponent + (toString d.coefficient).length - 1
  (if b.negative then "-" else "") ++
    if d.coefficient = 0 || l.positional first then l.withPoint d else withPower d

end Layout

/-- The text of a number that is not finite. -/
def infinityText (negative : Bool) : String := if negative then "-inf" else "inf"

/-- The number as messages show it. -/
def plainText (x : Float) : String :=
  match Binary.ofFloat x with
  | .notANumber => "NaN"
  | .infinite negative => infinityText negative
  | .finite b => Layout.plain.writeFinite b

/-- The number with one place behind the point: the exact value is rounded, a half to the even
neighbour. -/
def fixedOne (x : Float) : String :=
  match Binary.ofFloat x with
  | .notANumber => "NaN"
  | .infinite negative => infinityText negative
  | .finite b =>
    let tenths := roundHalfEven (10 * b.numerator) b.denominator
    (if b.negative then "-" else "") ++ toString (tenths / 10) ++ "." ++ toString (tenths % 10)

end Dispatch

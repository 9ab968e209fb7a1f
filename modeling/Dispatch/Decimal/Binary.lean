/-! # Binary floating point numbers as exact fractions

A 64-bit floating point number is not a number, an infinity, or a signed mantissa times a power of
two (`Binary.ofFloat`).  All printing of such numbers works on the last form, in exact arithmetic.
-/

namespace Dispatch

/-- The value `± mantissa · 2 ^ exponent`. -/
structure Binary where
  /-- Whether the sign is minus; a zero has a sign too. -/
  negative : Bool
  mantissa : Nat
  exponent : Int
deriving DecidableEq, Repr

/-- What the 64 bits of a floating point number stand for. -/
inductive FloatKind
  | notANumber
  | infinite (negative : Bool)
  | finite (b : Binary)
deriving DecidableEq, Repr

namespace Binary

/-- Two to the power of 52, the first mantissa of full length. -/
def fullMantissa : Nat := 0x10000000000000

/-- Read the fields of the 64-bit format: sign, 11 bits of exponent, 52 bits of fraction. -/
def ofBits (bits : Nat) : FloatKind :=
  let negative := decide (0x8000000000000000 ≤ bits)
  let fraction := bits % fullMantissa
  let field := bits / fullMantissa % 0x800
  if field = 2047 then
    if fraction = 0 then .infinite negative else .notANumber
  else if field = 0 then .finite ⟨negative, fraction, -1074⟩
  else .finite ⟨negative, fraction + fullMantissa, (field : Int) - 1075⟩

/-- The exact value of a floating point number. -/
def ofFloat (x : Float) : FloatKind := ofBits x.toBits.toNat

/-- Numerator of the magnitude as a fraction. -/
def numerator (b : Binary) : Nat := b.mantissa * Nat.pow 2 b.exponent.toNat

/-- Denominator of the magnitude as a fraction, a power of two. -/
def denominator (b : Binary) : Nat := Nat.pow 2 (-b.exponent).toNat

end Binary

/-- The whole number nearest to `n / d`; a half goes to the even neighbour. -/
def roundHalfEven (n d : Nat) : Nat :=
  let q := n / d
  let twice := 2 * (n % d)
  if twice < d then q
  else if d < twice then q + 1
  else if q % 2 = 0 then q else q + 1

end Dispatch

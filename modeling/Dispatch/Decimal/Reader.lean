/-! # Reading numbers

`readFloat?` accepts the usual written forms of a floating point number: an optional sign, then
`inf`, `infinity` or `nan` in any case, or digits with at most one point and at least one digit,
and an optional power of ten.  `readNat?` accepts digits after an optional plus sign.
-/

namespace Dispatch

/-- The value of a run of digits, `none` when there is no digit or something else. -/
def digits? (cs : List Char) : Option Nat :=
  if cs.isEmpty || !cs.all Char.isDigit then none
  else some (cs.foldl (fun n c => 10 * n + (c.toNat - 48)) 0)

/-- Split off a leading sign; true stands for minus. -/
def splitSign : List Char → Bool × List Char
  | '-' :: cs => (true, cs)
  | '+' :: cs => (false, cs)
  | cs => (false, cs)

/-- A whole number not above `limit`. -/
def readNat? (limit : Nat) (s : String) : Option Nat :=
  let cs := s.toList
  let cs := if cs.head? = some '+' then cs.drop 1 else cs
  (digits? cs).bind fun n => if n ≤ limit then some n else none

/-- The floating point number nearest to `m · 10 ^ e`.  Powers far outside the range of the format
are settled without computing them. -/
def floatOfDecimal (m : Nat) (e : Int) : Float :=
  let size := (toString m).length + e
  if m = 0 then 0.0
  else if 400 < size then 1.0 / 0.0
  else if size < -400 then 0.0
  else if e < 0 then Float.ofScientific m true (-e).toNat
  else Float.ofScientific m false e.toNat

/-- The power of ten behind a mantissa: nothing, or `e` and a whole number. -/
def readPower? : List Char → Option Int
  | [] => some 0
  | c :: cs =>
    if c = 'e' || c = 'E' then
      let (negative, cs) := splitSign cs
      (digits? cs).map fun (n : Nat) => if negative then -(n : Int) else (n : Int)
    else none

/-- Digits with at most one point, and a power of ten. -/
def readDecimal? (cs : List Char) : Option Float :=
  let whole := cs.takeWhile Char.isDigit
  let rest := cs.dropWhile Char.isDigit
  let (fraction, rest) :=
    match rest with
    | '.' :: cs => (cs.takeWhile Char.isDigit, cs.dropWhile Char.isDigit)
    | cs => ([], cs)
  match digits? (whole ++ fraction), readPower? rest with
  | some m, some e => some (floatOfDecimal m (e - fraction.length))
  | _, _ => none

/-- A floating point number. -/
def readFloat? (s : String) : Option Float :=
  let (negative, cs) := splitSign s.toList
  let magnitude : Option Float :=
    match String.ofList (cs.map Char.toLower) with
    | "inf" | "infinity" => some (1.0 / 0.0)
    | "nan" => some (0.0 / 0.0)
    | _ => readDecimal? cs
  magnitude.map fun x => if negative then -x else x

end Dispatch

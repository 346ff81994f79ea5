import GraphQL.Decimal.Basic

/-!
# The notation of numbers

Documents and JSON texts write numbers alike: an optional minus sign, a whole part without leading
zeros, an optional fraction, an optional exponent. `NumberShape.of?` measures the parts at the
beginning of a text and `Decimal.ofText` reads a number whose shape is right.
-/

namespace GraphQL

/-- The lengths of the parts of a number. -/
structure NumberShape where
  /-- The whole part with its sign. -/
  whole : Nat
  /-- The fraction with its point; zero if there is none. -/
  fraction : Nat
  /-- The exponent with its letter and sign; zero if there is none. -/
  exponent : Nat
  deriving Repr, DecidableEq

namespace NumberShape

/-- The length of the whole part, sign included. Zero stands alone. -/
def whole? (cs : List Char) : Option Nat :=
  let sign := if cs.head? = some '-' then 1 else 0
  let digits := (cs.drop sign).takeWhile Char.isDigit
  if digits.isEmpty ∨ (digits.head? = some '0' ∧ digits.length ≠ 1) then none
  else some (sign + digits.length)

/-- The length of the fraction. A point without a digit behind it is an error. -/
def fraction? : List Char → Option Nat
  | '.' :: rest =>
    let digits := (rest.takeWhile Char.isDigit).length
    if digits = 0 then none else some (digits + 1)
  | _ => some 0

/-- The length of the exponent. Its letter without digits behind it is an error. -/
def exponent? : List Char → Option Nat
  | 'e' :: rest | 'E' :: rest =>
    let sign := if rest.head? = some '+' ∨ rest.head? = some '-' then 1 else 0
    let digits := ((rest.drop sign).takeWhile Char.isDigit).length
    if digits = 0 then none else some (1 + sign + digits)
  | _ => some 0

/-- Measures the number at the beginning of a text. -/
def of? (cs : List Char) : Option NumberShape := do
  let whole ← whole? cs
  let fraction ← fraction? (cs.drop whole)
  let exponent ← exponent? (cs.drop (whole + fraction))
  return ⟨whole, fraction, exponent⟩

/-- The number of characters of a number. -/
def length (shape : NumberShape) : Nat := shape.whole + shape.fraction + shape.exponent

/-- Whether a number is written without fraction and exponent. -/
def isWhole (shape : NumberShape) : Bool := shape.fraction = 0 && shape.exponent = 0

end NumberShape

namespace Decimal

/-- The value of digits behind an optional sign. -/
def signedDigits : List Char → Int
  | '-' :: digits => -(digitsValue digits : Int)
  | '+' :: digits => digitsValue digits
  | digits => digitsValue digits

/-- Reads a number. -/
def ofText (cs : List Char) : Decimal :=
  let unsigned := if cs.head? = some '-' then cs.drop 1 else cs
  let whole := unsigned.takeWhile Char.isDigit
  let rest := unsigned.drop whole.length
  let places := if rest.head? = some '.' then (rest.drop 1).takeWhile Char.isDigit else []
  let exponent := if places.isEmpty then rest.drop 1 else rest.drop (places.length + 2)
  ⟨cs.head? = some '-', digitsValue (whole ++ places), signedDigits exponent - places.length⟩

end Decimal

end GraphQL

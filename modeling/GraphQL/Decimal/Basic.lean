/-!
# Decimal numbers

A number as it is written in a text: a sign, digits and a power of ten. `Decimal.toFloat` is the
binary floating-point number of 64 bits that lies nearest, ties going to the even neighbour,
computed in exact arithmetic; numbers beyond the largest of them give an infinity.
-/

namespace GraphQL

/-- The number `digits · 10 ^ exponent`, with its sign kept apart so that zero has one too. -/
structure Decimal where
  negative : Bool
  digits : Nat
  exponent : Int
  deriving Repr, DecidableEq

/-- What becomes of a value halfway between two neighbours. -/
inductive Tie where
  | toEven
  | up
  deriving Repr, DecidableEq

/-- The quotient `num / den` rounded to the nearest whole number. -/
def roundQuotient (tie : Tie) (num den : Nat) : Nat :=
  let q := num / den
  let twice := 2 * (num % den)
  if twice < den then q
  else if den < twice then q + 1
  else match tie with
    | .toEven => if q % 2 = 0 then q else q + 1
    | .up => q + 1

/-- A power of two. -/
def twoTo (n : Nat) : Nat := Nat.pow 2 n

/-- A power of ten. -/
def tenTo (n : Nat) : Nat := Nat.pow 10 n

namespace Binary64

/-- The bits of infinity: all numbers at or above them are infinite or no numbers. -/
def infinityBits : Nat := 0x7ff0000000000000

/-- The power of two at or below `num / den`, as its exponent. -/
def floorLog2 (num den : Nat) : Int :=
  let k : Int := (Nat.log2 num : Int) - (Nat.log2 den : Int)
  let atLeast := if 0 ≤ k then den * twoTo k.toNat ≤ num else den ≤ num * twoTo (-k).toNat
  if atLeast then k else k - 1

/-- The bits of the positive number nearest to `num / den`. The last place is worth
    `2 ^ (floorLog2 - 52)`, but never less than `2 ^ -1074`; a carry out of the 53 bits of the
    significand moves into the exponent by itself. -/
def nearestBits (num den : Nat) : Nat :=
  if num = 0 then 0
  else
    let q : Int := max (floorLog2 num den - 52) (-1074)
    let m :=
      if 0 ≤ q then roundQuotient .toEven num (den * twoTo q.toNat)
      else roundQuotient .toEven (num * twoTo (-q).toNat) den
    min ((q + 1074).toNat * twoTo 52 + m) infinityBits

end Binary64

namespace Decimal

/-- The nearest floating-point number. Powers of ten far outside the range are cut short, because
    their result is known. -/
def toFloat (d : Decimal) : Float :=
  let places : Int := (Nat.toDigits 10 d.digits).length
  let bits :=
    if d.digits = 0 then 0
    else if places + d.exponent < -400 then 0
    else if 400 < places + d.exponent then Binary64.infinityBits
    else if 0 ≤ d.exponent then Binary64.nearestBits (d.digits * tenTo d.exponent.toNat) 1
    else Binary64.nearestBits d.digits (tenTo (-d.exponent).toNat)
  Float.ofBits (UInt64.ofNat (if d.negative then twoTo 63 + bits else bits))

/-- The nearest floating-point number, unless it is infinite. -/
def toFinite? (d : Decimal) : Option Float :=
  let f := d.toFloat
  if f.isFinite then some f else none

end Decimal

/-- The value of a run of decimal digits, most significant first. -/
def digitsValue (digits : List Char) : Nat :=
  digits.foldl (fun n c => 10 * n + (c.toNat - '0'.toNat)) 0

end GraphQL

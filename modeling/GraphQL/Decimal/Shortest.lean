import GraphQL.Decimal.Basic

/-!
# The shortest decimal of a floating-point number

Among the decimals that read back as a given number of 64 bits there are some with the fewest
digits; `shortest` picks the nearest of those. It looks at the two neighbours of the number on the
grid of decimals with one digit, two digits and so on, and stops at the first grid with a neighbour
that reads back. Everything is compared as exact whole numbers.

A format then says how the digits are laid out: `Layout` has one field for each of its decisions.
-/

namespace GraphQL

namespace Binary64

/-- A positive number `significand · 2 ^ exponent`. -/
structure Parts where
  significand : Nat
  exponent : Int
  deriving Repr

/-- Takes the magnitude of a finite number apart. -/
def parts (f : Float) : Parts :=
  let bits := f.toBits.toNat % twoTo 63
  let e : Nat := bits / twoTo 52
  let m : Nat := bits % twoTo 52
  if e = 0 then ⟨m, -1074⟩ else ⟨m + twoTo 52, (e : Int) - 1075⟩

/-- Whether the sign bit is set. -/
def isNegative (f : Float) : Bool := twoTo 63 ≤ f.toBits.toNat

end Binary64

/-- The digits of a number in `[0.1, 1)` and the power of ten that scales it: `0.d₁d₂… · 10 ^
    point`. -/
structure DigitString where
  digits : List Char
  point : Int
  deriving Repr, DecidableEq

namespace Shortest

/-- The exponent `k` with `10 ^ (k - 1) ≤ p < 10 ^ k`: a first guess from the binary exponent is at
    most two too small. -/
def scale (p : Binary64.Parts) : Int :=
  let guess : Int := ((Nat.log2 p.significand : Int) + p.exponent) * 30103 / 100000
  let below (k : Int) : Bool :=
    p.significand * twoTo p.exponent.toNat * tenTo (-k).toNat <
      twoTo (-p.exponent).toNat * tenTo k.toNat
  if below guess then guess
  else if below (guess + 1) then guess + 1
  else guess + 2

/-- The best decimal with `places` digits that reads back as `p`, if there is one, as a multiple of
    `10 ^ (k - places)`. The numbers that round to `p` lie between `low` and `high`, which count
    quarters of the last place; the ends belong to them when the significand is even. -/
def atPlaces (tie : Tie) (p : Binary64.Parts) (k : Int) (places : Nat) : Option Nat :=
  let unit := tenTo (k - places).toNat
  let split := tenTo ((places : Int) - k).toNat
  let value := p.significand * twoTo p.exponent.toNat * split
  let whole := twoTo (-p.exponent).toNat
  let low := if p.significand = twoTo 52 ∧ -1074 < p.exponent then 4 * p.significand - 1
    else 4 * p.significand - 2
  let high := 4 * p.significand + 2
  let side (quarters : Nat) : Nat := quarters * twoTo p.exponent.toNat * split
  let closed := p.significand % 2 = 0
  let readsBack (c : Nat) : Bool :=
    let x := 4 * c * unit * whole
    if closed then side low ≤ x && x ≤ side high else side low < x && x < side high
  let down := value / (unit * whole)
  let nearest := roundQuotient tie value (unit * whole)
  let other := if nearest = down then down + 1 else down
  if readsBack nearest then some nearest
  else if readsBack other then some other
  else none

/-- Digits without the zeros at their end. -/
def trim (digits : List Char) : List Char := (digits.reverse.dropWhile (· = '0')).reverse

end Shortest

/-- The shortest digits of the magnitude of a finite number; zero is the one digit `0` before the
    point. Seventeen places always suffice. -/
def Shortest.ofFloat (tie : Tie) (f : Float) : DigitString :=
  let p := Binary64.parts f
  if p.significand = 0 then ⟨['0'], 1⟩
  else
    let k := scale p
    let rec search : Nat → Nat → Option (Nat × Nat)
      | 0, _ => none
      | left + 1, places =>
        match atPlaces tie p k places with
        | some c => some (c, places)
        | none => search left (places + 1)
    match search 17 1 with
    | some (c, places) =>
      let written := Nat.toDigits 10 c
      ⟨trim written, k + ((written.length : Int) - places)⟩
    | none => ⟨['0'], 1⟩

/-- How the digits of a number are laid out. -/
structure Layout where
  /-- Which of two equally near digit strings is taken. -/
  tie : Tie
  /-- The places of the point for which no exponent is written. -/
  positional : Int → Bool
  /-- What follows a whole number in positional form. -/
  wholeSuffix : String

namespace Layout

/-- Writes a whole number with its sign always shown. -/
def signed (i : Int) : String :=
  if 0 ≤ i then "+" ++ toString i.toNat else "-" ++ toString (-i).toNat

/-- Lays digits out. -/
def place (layout : Layout) (d : DigitString) : String :=
  let n : Int := d.digits.length
  if layout.positional d.point then
    if d.point ≤ 0 then
      "0." ++ String.ofList (List.replicate (-d.point).toNat '0' ++ d.digits)
    else if n ≤ d.point then
      String.ofList (d.digits ++ List.replicate (d.point - n).toNat '0') ++ layout.wholeSuffix
    else
      String.ofList (d.digits.take d.point.toNat ++ '.' :: d.digits.drop d.point.toNat)
  else
    let tail := d.digits.drop 1
    String.ofList (d.digits.take 1 ++ if tail.isEmpty then [] else '.' :: tail) ++ "e" ++
      signed (d.point - 1)

/-- The text of a number; the three that are not finite have names. -/
def text (layout : Layout) (f : Float) : String :=
  if f.isNaN then "NaN"
  else if f.isInf then (if Binary64.isNegative f then "-inf" else "inf")
  else (if Binary64.isNegative f then "-" else "") ++ layout.place (Shortest.ofFloat layout.tie f)

end Layout

end GraphQL

/-!
# Sets of characters given by their boundaries

A set of code points is a list of rising boundaries: the first point inside, the first one behind
it, the next one inside, and so on. A point belongs to the set when an odd number of boundaries lie
at or below it.
-/

namespace GraphQL.Text

/-- Rising boundaries of a set of code points. -/
abbrev CodePoints := List Nat

/-- Whether a code point belongs to the set. -/
def CodePoints.contains (boundaries : CodePoints) (point : Nat) : Bool :=
  (List.takeWhile (fun b => b ≤ point) boundaries).length % 2 = 1

/-- Characters with the property White_Space. -/
def whiteSpace : CodePoints := [
  0x9, 0xe, 0x20, 0x21, 0x85, 0x86, 0xa0, 0xa1, 0x1680, 0x1681,
  0x2000, 0x200b, 0x2028, 0x202a, 0x202f, 0x2030, 0x205f, 0x2060, 0x3000, 0x3001]

/-- Whether a character is white space in the sense of the property. -/
def isBlank (c : Char) : Bool := whiteSpace.contains c.toNat

end GraphQL.Text

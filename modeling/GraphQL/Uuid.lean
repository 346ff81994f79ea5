import GraphQL.Text.Hex

/-!
# UUIDs

A UUID is 128 bits. It is read from 32 hexadecimal digits, from the hyphenated form with groups of
8, 4, 4, 4 and 12 digits, from that form in braces and from that form behind `urn:uuid:`; letters
may have either case. It is always written hyphenated in lower case.

`Uuid.diagnose` says what is wrong with a text that is none of these.
-/

namespace GraphQL

/-- A universally unique identifier. -/
structure Uuid where
  bits : BitVec 128
  deriving Repr, DecidableEq

namespace Uuid

/-- What is wrong with a text. -/
inductive Fault where
  | length (found : Nat)
  | character (c : Char) (index : Nat)
  | groupCount (found : Nat)
  | groupLength (group expected found : Nat)
  deriving Repr, DecidableEq

/-- The wording of a fault. -/
def Fault.message : Fault → String
  | .length found => "invalid length: found " ++ toString found
  | .character c index =>
    "invalid character: found `" ++ String.singleton c ++ "` at " ++ toString index
  | .groupCount found => "invalid group count: expected 5, found " ++ toString found
  | .groupLength group expected found =>
    "invalid group length in group " ++ toString group ++ ": expected " ++ toString expected ++
      ", found " ++ toString found

/-! ## Writing -/

/-- The 32 hexadecimal digits of a UUID. -/
def digits (id : Uuid) : List Char := Text.paddedHex 32 id.bits.toNat

/-- Puts hyphens between the groups of 32 digits. -/
def hyphenate (digits : List Char) : List Char :=
  digits.take 8 ++ '-' :: ((digits.drop 8).take 4 ++ '-' :: ((digits.drop 12).take 4 ++
    '-' :: ((digits.drop 16).take 4 ++ '-' :: digits.drop 20)))

/-- The canonical text of a UUID. -/
def text (id : Uuid) : String := String.ofList (hyphenate id.digits)

/-! ## Reading -/

/-- The UUID with the given digits. -/
def ofDigits (digits : List Char) : Uuid := ⟨BitVec.ofNat 128 (Text.hexValue digits)⟩

/-- Reads 32 digits. -/
def simple? (cs : List Char) : Option Uuid :=
  if cs.length = 32 ∧ cs.all Text.isHex then some (ofDigits cs) else none

/-- Reads groups of digits with hyphens between them. -/
def hyphenated? (cs : List Char) : Option Uuid :=
  let digits := cs.take 8 ++ ((cs.drop 9).take 4 ++ ((cs.drop 14).take 4 ++
    ((cs.drop 19).take 4 ++ cs.drop 24)))
  if digits.length = 32 ∧ digits.all Text.isHex ∧ cs = hyphenate digits then
    some (ofDigits digits)
  else none

/-- The content of a text in braces. -/
def braced? : List Char → Option (List Char)
  | '\x7b' :: rest =>
    match rest.reverse with
    | '\x7d' :: inside => some inside.reverse
    | _ => none
  | _ => none

/-- The content of a text behind `urn:uuid:`, in either case. -/
def urn? (cs : List Char) : Option (List Char) :=
  if (cs.take 9).map Char.toLower = "urn:uuid:".toList then some (cs.drop 9) else none

/-- Looks for the first character that cannot belong to a UUID. Otherwise gives the places of the
    hyphens, as offsets into the scanned characters. -/
def scan (shift : Nat) : List Char → Nat → Except Fault (List Nat)
  | [], _ => .ok []
  | c :: rest, offset =>
    if Text.isHex c then scan shift rest (offset + c.utf8Size)
    else if c = '-' then (scan shift rest (offset + 1)).map (offset :: ·)
    else .error (.character c (shift + offset))

/-- The number of bytes of a text. -/
def byteLength (cs : List Char) : Nat := cs.foldr (fun c n => c.utf8Size + n) 0

/-- The groups before the last: where each begins in the hyphenated form, and its digits. -/
def groups : List (Nat × Nat) := [(0, 8), (9, 4), (14, 4), (19, 4)]

/-- Compares the places of the hyphens with the ends of the groups, the first of which has the
    number `group`. If all agree, the last group has the wrong length. -/
def checkGroups (total : Nat) : Nat → List (Nat × Nat) → List Nat → Fault
  | group, (start, size) :: others, place :: places =>
    if place = start + size then checkGroups total (group + 1) others places
    else .groupLength group size (place - start)
  | _, _, _ => .groupLength 4 12 (total - 24)

/-- Names what is wrong with the characters `part` of a text of `total` bytes, which begin at the
    offset `shift` in it. Unless groups are `required`, a part without hyphens is held against the
    form of 32 digits, of which it can only have the length wrong. -/
def diagnosePart (required : Bool) (total shift : Nat) (part : List Char) : Fault :=
  match scan shift part 0 with
  | .error fault => fault
  | .ok places =>
    if places.isEmpty && !required then .length total
    else if places.length ≠ 4 then .groupCount (places.length + 1)
    else checkGroups total 0 groups places

/-- Names what is wrong with a text that is no UUID. A text of the length of one of the hyphenated
    forms is held against that form, all others against the form that they look like. -/
def diagnose (cs : List Char) : Fault :=
  let total := byteLength cs
  if total = 0 ∨ 45 < total then .length total
  else if total = 36 then diagnosePart true total 0 cs
  else
    match braced? cs, urn? cs with
    | some inside, _ =>
      if total = 38 then diagnosePart true 36 0 inside
      else diagnosePart true total 1 inside
    | none, some inside =>
      if total = 45 then diagnosePart true 36 0 inside
      else diagnosePart true total 9 inside
    | none, none => diagnosePart false total 0 cs

/-- The UUID that a text denotes in one of the four forms. -/
def ofText? (cs : List Char) : Option Uuid :=
  (simple? cs).or ((hyphenated? cs).or
    (((braced? cs).bind hyphenated?).or ((urn? cs).bind hyphenated?)))

/-- Model of `parse_str`: reads a text. -/
def read (s : String) : Except Fault Uuid :=
  match ofText? s.toList with
  | some id => .ok id
  | none => .error (diagnose s.toList)

end Uuid

end GraphQL

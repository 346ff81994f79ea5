import GraphQL.Json.Outline

/-!
# Response paths

A path leads from the root of a response to one of its values. In texts its segments stand behind
slashes; in JSON it is an array of names and indices.
-/

namespace GraphQL

/-- Model of `PathElement`. One step down: into a list or into an object. -/
inductive Path.Segment where
  | index (i : Nat)
  | key (name : String)
  deriving Repr, DecidableEq

/-- The steps from the root of a response to a value. -/
structure Path where
  segments : List Path.Segment
  deriving Repr, DecidableEq

namespace Path

/-- Model of `Path.empty`: the path of the root. -/
def root : Path := ⟨[]⟩

/-- Model of `Path.join`: one step further. -/
def join (path : Path) (segment : Segment) : Path := ⟨path.segments ++ [segment]⟩

/-- Indices fit 64 bits. -/
def indexBound : Nat := UInt64.size

/-- Whether every index of a path fits 64 bits. -/
def Representable (path : Path) : Prop := ∀ i, .index i ∈ path.segments → i < indexBound

/-! ## Texts -/

/-- Reads an index: decimal digits, with leading zeros or a plus sign if need be, for a number that
    fits 64 bits. -/
def readIndex? (cs : List Char) : Option Nat :=
  let digits := match cs with
    | '+' :: rest => rest
    | cs => cs
  if digits.isEmpty then none
  else if digits.all Char.isDigit then
    let i := digitsValue digits
    if i < indexBound then some i else none
  else none

/-- Reads one segment: an index if it looks like one, a name otherwise. -/
def readSegment (cs : List Char) : Segment :=
  match readIndex? cs with
  | some i => .index i
  | none => .key (String.ofList cs)

/-- Cuts a text at its slashes. -/
def pieces : List Char → List (List Char)
  | [] => [[]]
  | c :: rest =>
    if c = '/' then [] :: pieces rest
    else match pieces rest with
      | piece :: others => (c :: piece) :: others
      | [] => [[c]]

/-- Model of `Path.from`: reads a text. Empty pieces are no segments. -/
def ofText (s : String) : Path :=
  ⟨((pieces s.toList).filter fun piece => !piece.isEmpty).map readSegment⟩

/-- The text of a segment. -/
def Segment.text : Segment → String
  | .index i => toString i
  | .key name => name

/-- Model of `Path.fmt`. The text of a path: each segment behind a slash. -/
def text (path : Path) : String :=
  String.join (path.segments.map fun segment => "/" ++ segment.text)

/-! ## JSON -/

/-- A segment as JSON. -/
def Segment.toJson : Segment → Json
  | .index i => .integer i
  | .key name => .string name

/-- A path as JSON. -/
def toJson (path : Path) : Json := .array (path.segments.map Segment.toJson)

/-- Reads a segment: a whole number of 64 bits is an index, a string is a name. -/
def Segment.ofOutline? : Json.Outline → Option Segment
  | .string s => some (.key s)
  | item => (item.natural? indexBound).map .index

/-- Reads a path. -/
def ofOutline? (item : Json.Outline) : Option Path :=
  (item.list? Segment.ofOutline?).map .mk

end Path

end GraphQL

import GraphQL.Json.Outline
import GraphQL.Yaml.Node

/-!
# YAML documents

`Yaml.read?` reads a text that holds one document. `Yaml.outline` interprets the scalars: tagged
ones by their tag, plain ones by their form, all others as strings.
-/

namespace GraphQL.Yaml

/-- Digits of a base, at least one. -/
def digitsOf? (base : Nat) (cs : List Char) : Option Nat :=
  if cs.isEmpty then none
  else if cs.all fun c => (Text.hexDigit? c).any (· < base) then
    some (cs.foldl (fun n c => base * n + (Text.hexDigit? c).getD 0) 0)
  else none

/-- Takes a sign off. Says whether it is a minus sign. -/
def unsigned : List Char → Bool × List Char
  | '-' :: rest => (true, rest)
  | '+' :: rest => (false, rest)
  | cs => (false, cs)

/-- Gives a number its sign. -/
def withSign (negative : Bool) (n : Nat) : Int := if negative then -(n : Int) else n

/-- A whole number: decimal without leading zeros, or behind the mark of another base. The sign may
    stand behind the mark too, unless it is a minus sign. -/
def integer? (cs : List Char) : Option Int :=
  let (negative, digits) := unsigned cs
  let based (base : Nat) (rest : List Char) : Option Nat :=
    digitsOf? base (if !negative && rest.head? = some '+' then rest.drop 1 else rest)
  let magnitude? := match digits with
    | '0' :: 'x' :: rest => based 16 rest
    | '0' :: 'o' :: rest => based 8 rest
    | '0' :: 'b' :: rest => based 2 rest
    | '0' :: _ :: _ => none
    | _ => digitsOf? 10 digits
  magnitude?.map (withSign negative)

/-- A whole number where a tag asks for one: decimal, with leading zeros if need be, of at most 64
    bits. -/
def taggedInteger? (cs : List Char) : Option Int :=
  let (negative, digits) := unsigned cs
  ((digitsOf? 10 digits).map (withSign negative)).filter fun i =>
    Int64.minValue.toInt ≤ i && i ≤ Int64.maxValue.toInt

/-- A truth value. -/
def truth? (content : String) : Option Bool :=
  if content = "true" then some true else if content = "false" then some false else none

/-- Whether a plain scalar is null. -/
def isNull (content : String) : Bool := content = "~" || content = "null"

/-- Interprets a plain scalar. Numbers that are not whole count as strings. -/
def plainOutline (content : String) : Json.Outline :=
  if isNull content then .null
  else
    match truth? content, integer? content.toList with
    | some b, _ => .bool b
    | none, some i => .number (.integer i)
    | none, none => .string content

/-- Interprets a scalar by its tag. Only tags with the handle of the standard types mean a type. -/
def taggedOutline (tag : Tag) (content : String) : Json.Outline :=
  if tag = ⟨"!!", "bool"⟩ then ((truth? content).map Json.Outline.bool).getD .unreadable
  else if tag = ⟨"!!", "int"⟩ then
    ((taggedInteger? content.toList).map fun i => Json.Outline.number (.integer i)).getD .unreadable
  else if tag = ⟨"!!", "null"⟩ then if isNull content then .null else .unreadable
  else .string content

/-- The text of a name in a mapping. -/
def name? : Yaml → Option String
  | .scalar content _ _ => some content
  | _ => none

mutual

/-- Interprets a node. -/
def outline : Yaml → Json.Outline
  | .scalar content _ (some tag) => taggedOutline tag content
  | .scalar content true none => plainOutline content
  | .scalar content false none => .string content
  | .sequence items => .array (outlines items)
  | .mapping entries => .object (entryOutlines entries)

/-- Interprets the items of a sequence. -/
def outlines : List Yaml → List Json.Outline
  | [] => []
  | item :: rest => item.outline :: outlines rest

/-- Interprets the entries of a mapping. -/
def entryOutlines : List (Yaml × Yaml) → List (Option String × Json.Outline)
  | [] => []
  | (key, value) :: rest => (key.name?, value.outline) :: entryOutlines rest

end

/-- Reads a text. -/
def read? (text : String) : Option Yaml := (Token.scan text).bind ofTokens?

end GraphQL.Yaml

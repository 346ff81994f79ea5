import GraphQL.Entries
import GraphQL.Decimal.Shortest
import GraphQL.Text.Hex

/-!
# JSON values

`Json` is a JSON value with its numbers interpreted and the names of an object in order, each once.
`Json.text` is its compact text: no blanks, only the characters escaped that must be, and numbers in
the shortest digits that read back.
-/

namespace GraphQL

/-- A JSON number: a whole number of 64 bits, with or without sign, or a floating-point number. -/
inductive Json.Number where
  | integer (i : Int)
  | float (f : Float)

/-- A JSON value. -/
inductive Json where
  | null
  | bool (b : Bool)
  | number (n : Json.Number)
  | string (s : String)
  | array (items : List Json)
  | object (members : List (String × Json))

instance : Inhabited Json := ⟨.null⟩

namespace Json

/-! ## Writing -/

namespace Text

/-- A number is positional as long as it needs at most sixteen digits before the point or four zeros
    behind it, and a whole float keeps its `.0`. -/
def floats : Layout := ⟨.toEven, fun point => -5 < point && point ≤ 16, ".0"⟩

/-- The floating-point numbers that are not finite have no text and are written as null. -/
def float (f : Float) : String := if f.isFinite then floats.text f else "null"

/-- The letter escapes of the notation; the other control characters go by their number. -/
def escaped (c : Char) : String :=
  if c = '"' then "\\\""
  else if c = '\\' then "\\\\"
  else if c = '\x08' then "\\b"
  else if c = '\t' then "\\t"
  else if c = '\n' then "\\n"
  else if c = '\x0c' then "\\f"
  else if c = '\r' then "\\r"
  else if c.toNat < 0x20 then "\\u" ++ String.ofList (GraphQL.Text.paddedHex 4 c.toNat)
  else String.singleton c

/-- A string between quotes. -/
def quoted (s : String) : String := "\"" ++ String.join (s.toList.map escaped) ++ "\""

/-- Texts in brackets, one comma between two. -/
def array (items : List String) : String := "[" ++ String.intercalate "," items ++ "]"

/-- Named texts in braces. -/
def object (members : List (String × String)) : String :=
  "\x7b" ++ String.intercalate "," (members.map fun m => quoted m.1 ++ ":" ++ m.2) ++ "\x7d"

end Text

/-- The text of a number. -/
def Number.text : Number → String
  | .integer i => toString i
  | .float f => Text.float f

mutual

/-- The compact text of a value. -/
def text : Json → String
  | .null => "null"
  | .bool b => if b then "true" else "false"
  | .number n => n.text
  | .string s => Text.quoted s
  | .array items => Text.array (texts items)
  | .object members => Text.object (memberTexts members)

/-- The texts of the items of an array. -/
def texts : List Json → List String
  | [] => []
  | item :: rest => item.text :: texts rest

/-- The texts of the members of an object, with their names. -/
def memberTexts : List (String × Json) → List (String × String)
  | [] => []
  | (name, value) :: rest => (name, value.text) :: memberTexts rest

end

/-! ## Taking apart -/

/-- A whole number. -/
def integer (i : Int) : Json := .number (.integer i)

/-- The member of an object under `name`. -/
def member? : Json → String → Option Json
  | .object members, name => Entries.find? members name
  | _, _ => none

end Json

end GraphQL

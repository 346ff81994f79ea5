import GraphQL.Entries
import GraphQL.Decimal.Shortest
import GraphQL.Text.Quoted

/-!
# Values

A `Value` is what arguments are coerced to, what resolvers produce and what a response holds. Enum
values are kept apart from strings: they are shown as bare names in messages.

`Value.text` shows a value in a message. `Value.variant` and `Value.entries` encode sums and maps,
which responses have no form for.
-/

namespace GraphQL

/-- A resolved value. -/
inductive Value where
  | null
  | boolean (b : Bool)
  | int (i : Int64)
  | float (f : Float)
  | string (s : String)
  | enum (name : String)
  | list (items : List Value)
  | object (fields : List (String × Value))

instance : Inhabited Value := ⟨.null⟩

/-- The fields of an object value, in order. -/
abbrev Fields := Entries Value

namespace Value

/-- Model of `Value.kind`: the word for the kind of a value. -/
def kind : Value → String
  | .null => "null"
  | .boolean _ => "boolean"
  | .int _ => "int"
  | .float _ => "float"
  | .string _ => "string"
  | .enum _ => "enum"
  | .list _ => "list"
  | .object _ => "object"

/-- Model of `is_null`: whether a value is null. -/
def isNull : Value → Bool
  | .null => true
  | _ => false

/-- Model of `as_str`: the text of a string or the name of an enum value. -/
def word? : Value → Option String
  | .string s | .enum s => some s
  | _ => none

/-- Model of `as_list`: the items of a list. -/
def items? : Value → Option (List Value)
  | .list items => some items
  | _ => none

/-- Model of `as_object`: the fields of an object. -/
def fields? : Value → Option Fields
  | .object fields => some fields
  | _ => none

/-! ## Encodings -/

/-- Model of the loop of `variant`: writes the cases of a sum one after the other. The first case of
    the active name takes `pending`; all other cases are null. -/
def writeCases (active : String) : List String → Option Value → Fields → Fields
  | [], _, written => written
  | case :: rest, pending, written =>
    if case = active then
      writeCases active rest none (Entries.put written case (pending.getD .null))
    else writeCases active rest pending (Entries.put written case .null)

/-- Model of `Value.variant`: encodes one case of a sum as an object with a field for each case. A
    name that is listed again writes its field again. -/
def variant (cases : List String) (active : String) (value : Value) : Value :=
  .object (writeCases active cases (some value) [])

/-- Model of `Value.entries`: encodes a map as a list of objects with the fields `key` and
    `value`. -/
def entries (pairs : List (Value × Value)) : Value :=
  .list (pairs.map fun pair => .object [("key", pair.1), ("value", pair.2)])

/-- Encodes what may be missing: null if it is. -/
def ofOption (value : Option Value) : Value := value.getD .null

/-! ## Showing -/

/-- Floats in messages are positional, whatever their size, and whole ones have no point. Of two
    equally near digit strings the upper one is shown. -/
def floats : Layout := ⟨.up, fun _ => true, ""⟩

/-- Joins shown items. -/
def commas (shown : List String) : String := String.intercalate ", " shown

mutual

/-- Model of `Value.fmt`: the text of a value in a message. -/
def text : Value → String
  | .null => "null"
  | .boolean b => if b then "true" else "false"
  | .int i => toString i.toInt
  | .float f => floats.text f
  | .string s => Text.quoted s
  | .enum name => name
  | .list items => "[" ++ commas (texts items) ++ "]"
  | .object fields => "\x7b" ++ commas (fieldTexts fields) ++ "\x7d"

/-- The texts of the items of a list. -/
def texts : List Value → List String
  | [] => []
  | item :: rest => item.text :: texts rest

/-- The texts of the fields of an object, each behind its name. -/
def fieldTexts : List (String × Value) → List String
  | [] => []
  | (name, value) :: rest => (name ++ ": " ++ value.text) :: fieldTexts rest

end

end Value

end GraphQL

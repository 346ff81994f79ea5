import GraphQL.InputValue
import GraphQL.Json.Basic

/-!
# Values as JSON

`Value.toJson` and `Value.ofJson` convert between values and JSON values, `InputValue.ofJson` reads
variables, and `Value.jsonText` writes the compact text of a value without the detour.
-/

namespace GraphQL

/-- The floating-point number nearest to a whole number. -/
def floatOfInt (i : Int) : Float := Decimal.toFloat ⟨i < 0, i.natAbs, 0⟩

/-- Whether a whole number fits 64 bits with a sign. -/
def fitsInt64 (i : Int) : Bool := Int64.minValue.toInt ≤ i && i ≤ Int64.maxValue.toInt

mutual

/-- Model of `JsonValue.from`: a value as JSON. Enum values become strings and floats that are not
    finite become null. -/
def Value.toJson : Value → Json
  | .null => .null
  | .boolean b => .bool b
  | .int i => .number (.integer i.toInt)
  | .float f => if f.isFinite then .number (.float f) else .null
  | .string s | .enum s => .string s
  | .list items => .array (Value.toJsons items)
  | .object fields => .object (Value.fieldJsons fields)

/-- The items of a list as JSON. -/
def Value.toJsons : List Value → List Json
  | [] => []
  | item :: rest => item.toJson :: Value.toJsons rest

/-- The fields of an object as JSON. -/
def Value.fieldJsons : List (String × Value) → List (String × Json)
  | [] => []
  | (name, value) :: rest => (name, value.toJson) :: Value.fieldJsons rest

end

mutual

/-- Model of `Value.from`: a JSON value as a value. Whole numbers beyond 64 bits with a sign become
    floats. -/
def Value.ofJson : Json → Value
  | .null => .null
  | .bool b => .boolean b
  | .number (.integer i) => if fitsInt64 i then .int (Int64.ofInt i) else .float (floatOfInt i)
  | .number (.float f) => .float f
  | .string s => .string s
  | .array items => .list (Value.ofJsons items)
  | .object members => .object (Value.ofMembers members)

/-- The items of a JSON array as values. -/
def Value.ofJsons : List Json → List Value
  | [] => []
  | item :: rest => Value.ofJson item :: Value.ofJsons rest

/-- The members of a JSON object as fields. -/
def Value.ofMembers : List (String × Json) → List (String × Value)
  | [] => []
  | (name, json) :: rest => (name, Value.ofJson json) :: Value.ofMembers rest

end

mutual

/-- Model of `InputValue.from`: a JSON value as an input value. It never holds enum values or
    references. -/
def InputValue.ofJson : Json → InputValue
  | .null => .null
  | .bool b => .boolean b
  | .number (.integer i) => if fitsInt64 i then .int (Int64.ofInt i) else .float (floatOfInt i)
  | .number (.float f) => .float f
  | .string s => .string s
  | .array items => .list (InputValue.ofJsons items)
  | .object members => .object (InputValue.ofMembers members)

/-- The items of a JSON array as input values. -/
def InputValue.ofJsons : List Json → List InputValue
  | [] => []
  | item :: rest => InputValue.ofJson item :: InputValue.ofJsons rest

/-- The members of a JSON object as fields of an input value. -/
def InputValue.ofMembers : List (String × Json) → List (String × InputValue)
  | [] => []
  | (name, json) :: rest => (name, InputValue.ofJson json) :: InputValue.ofMembers rest

end

mutual

/-- Model of `Value.serialize`: the compact JSON text of a value. -/
def Value.jsonText : Value → String
  | .null => "null"
  | .boolean b => if b then "true" else "false"
  | .int i => toString i.toInt
  | .float f => Json.Text.float f
  | .string s | .enum s => Json.Text.quoted s
  | .list items => Json.Text.array (Value.jsonTexts items)
  | .object fields => Json.Text.object (Value.fieldJsonTexts fields)

/-- The compact JSON texts of the items of a list. -/
def Value.jsonTexts : List Value → List String
  | [] => []
  | item :: rest => item.jsonText :: Value.jsonTexts rest

/-- The compact JSON texts of the fields of an object. -/
def Value.fieldJsonTexts : List (String × Value) → List (String × String)
  | [] => []
  | (name, value) :: rest => (name, value.jsonText) :: Value.fieldJsonTexts rest

end

end GraphQL

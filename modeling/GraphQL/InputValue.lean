import GraphQL.Value

/-!
# Input values

An `InputValue` is what a document or a map of variables carries before coercion. It may refer to
variables at any depth, and the values of variables may refer to variables again; such references
can run in a circle, so substitution is bounded by a number of steps.
-/

namespace GraphQL

/-- A value as it is written. -/
inductive InputValue where
  | null
  | boolean (b : Bool)
  | int (i : Int64)
  | float (f : Float)
  | string (s : String)
  | enum (name : String)
  | list (items : List InputValue)
  | object (fields : List (String × InputValue))
  | var (name : String)

instance : Inhabited InputValue := ⟨.null⟩

/-- The values of variables by name, without the dollar sign. -/
abbrev Variables := Entries InputValue

namespace InputValue

mutual

/-- Model of `InputValue.fmt`: the text of an input value in a message. -/
def text : InputValue → String
  | .null => "null"
  | .boolean b => if b then "true" else "false"
  | .int i => toString i.toInt
  | .float f => Value.floats.text f
  | .string s => Text.quoted s
  | .enum name => name
  | .list items => "[" ++ Value.commas (texts items) ++ "]"
  | .object fields => "\x7b" ++ Value.commas (fieldTexts fields) ++ "\x7d"
  | .var name => "$" ++ name

/-- The texts of the items of a list. -/
def texts : List InputValue → List String
  | [] => []
  | item :: rest => item.text :: texts rest

/-- The texts of the fields of an object, each behind its name. -/
def fieldTexts : List (String × InputValue) → List String
  | [] => []
  | (name, value) :: rest => (name ++ ": " ++ value.text) :: fieldTexts rest

end

mutual

/-- Replaces every reference by what `read` gives for its name, if it gives anything. -/
def fill (read : String → Option Value) : InputValue → Option Value
  | .null => some .null
  | .boolean b => some (.boolean b)
  | .int i => some (.int i)
  | .float f => some (.float f)
  | .string s => some (.string s)
  | .enum name => some (.enum name)
  | .list items => (fillAll read items).map .list
  | .object fields => (fillFields read fields).map .object
  | .var name => read name

/-- Fills the items of a list. -/
def fillAll (read : String → Option Value) : List InputValue → Option (List Value)
  | [] => some []
  | item :: rest =>
    match item.fill read, fillAll read rest with
    | some value, some others => some (value :: others)
    | _, _ => none

/-- Fills the fields of an object. -/
def fillFields (read : String → Option Value) : List (String × InputValue) →
    Option (List (String × Value))
  | [] => some []
  | (name, item) :: rest =>
    match item.fill read, fillFields read rest with
    | some value, some others => some ((name, value) :: others)
    | _, _ => none

end

/-- Model of `to_value`: replaces references by the raw values of their variables, without coercion.
    A variable that is not set, or whose own value is nothing but a reference, reads as null. `none`
    means that references lead to references more than `steps` times over. -/
def toValue (bindings : Variables) : Nat → InputValue → Option Value
  | 0, value => fill (fun _ => none) value
  | steps + 1, value =>
    fill (fun name =>
      match Entries.find? bindings name with
      | none | some (.var _) => some .null
      | some value => toValue bindings steps value) value

end InputValue

mutual

/-- Reads a value back as an input value. -/
def Value.toInput : Value → InputValue
  | .null => .null
  | .boolean b => .boolean b
  | .int i => .int i
  | .float f => .float f
  | .string s => .string s
  | .enum name => .enum name
  | .list items => .list (Value.toInputs items)
  | .object fields => .object (Value.fieldInputs fields)

/-- Reads the items of a list back. -/
def Value.toInputs : List Value → List InputValue
  | [] => []
  | item :: rest => item.toInput :: Value.toInputs rest

/-- Reads the fields of an object back. -/
def Value.fieldInputs : List (String × Value) → List (String × InputValue)
  | [] => []
  | (name, value) :: rest => (name, value.toInput) :: Value.fieldInputs rest

end

end GraphQL

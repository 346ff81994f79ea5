import GraphQL.Schema.Node
import GraphQL.Selection
import GraphQL.Value.Json

/-!
# Input coercion

`coerce` turns an input value into a value of a type; variables are read where they are used, so a
variable of the wrong shape only fails what refers to it. `coerceArguments` coerces the arguments of
a field, `coerceVariables` a map of variables against declared types.

Values of variables may refer to variables again, and input objects may contain themselves, so
coercion need not end. Every function takes a bound on the depth of its recursion and answers
nothing when that is not enough.
-/

namespace GraphQL

/-- Why a value does not fit a type. -/
inductive CoercionError where
  | invalidValue (expected found : String)
  | nullValue (type : String)
  | invalidEnumValue (enumType value : String)
  | missingField (inputType field : String)
  | unknownField (inputType field : String)
  | invalidScalar (scalar reason : String)
  | unknownType (name : String)
  | nestedVariable (name : String)
  deriving Repr, DecidableEq

/-- The wording of a coercion error. -/
def CoercionError.message : CoercionError → String
  | .invalidValue expected found =>
    "expected a value of type '" ++ expected ++ "', found " ++ found
  | .nullValue type => "null value found for non-null type '" ++ type ++ "'"
  | .invalidEnumValue enumType value =>
    "'" ++ value ++ "' is not a value of enum '" ++ enumType ++ "'"
  | .missingField inputType field =>
    "missing required field '" ++ field ++ "' in input object '" ++ inputType ++ "'"
  | .unknownField inputType field =>
    "field '" ++ field ++ "' is not defined by input object '" ++ inputType ++ "'"
  | .invalidScalar scalar reason => "invalid value for scalar '" ++ scalar ++ "': " ++ reason
  | .unknownType name => "unknown input type '" ++ name ++ "'"
  | .nestedVariable name => "variable '$" ++ name ++ "' is referenced from a variable value"

namespace Coercion

/-- A coercion: it may fail, and it may not end within its bound. -/
abbrev Result (ε α : Type) := ExceptT ε Option α

/-- The bound does not suffice. -/
def unfinished {ε α : Type} : Result ε α := ExceptT.mk none

/-- A coercion that surely ends. -/
def settled {ε α : Type} (result : Except ε α) : Result ε α := ExceptT.mk (some result)

/-- Model of `is_unset_variable`: whether a value is a reference to a variable that is not set. -/
def isUnset (bindings : Variables) : InputValue → Bool
  | .var name => !Entries.has bindings name
  | _ => false

/-- Model of `resolve_variable`: the value that a reference stands for. A variable that is not set
    is null; one that is itself a reference is an error. -/
def resolve (bindings : Variables) : InputValue → Except CoercionError InputValue
  | .var name =>
    match Entries.find? bindings name with
    | some (.var nested) => .error (.nestedVariable nested)
    | some value => .ok value
    | none => .ok .null
  | value => .ok value

/-- Whether a whole number fits 32 bits with a sign. -/
def fitsInt32 (i : Int64) : Bool :=
  Int32.minValue.toInt ≤ i.toInt && i.toInt ≤ Int32.maxValue.toInt

/-- Model of `coerce_builtin_scalar`: coerces to a built-in scalar. Floats take whole numbers; IDs
    take strings and whole numbers and are strings. -/
def coerceBuiltin (type : TypeRef) (value : InputValue) : Except CoercionError Value :=
  match type, value with
  | .string, .string s => .ok (.string s)
  | .int, .int i => if fitsInt32 i then .ok (.int i) else invalid
  | .float, .float f => if f.isFinite then .ok (.float f) else invalid
  | .float, .int i => .ok (.float (floatOfInt i.toInt))
  | .boolean, .boolean b => .ok (.boolean b)
  | .id, .string s => .ok (.string s)
  | .id, .int i => .ok (.string (toString i.toInt))
  | _, _ => invalid
where
  /-- The value does not fit. -/
  invalid : Except CoercionError Value := .error (.invalidValue type.text value.text)

/-- Model of the enums in `coerce_named`: coerces to an enum. Strings count as names, for variables
    have no other way to carry them. -/
def coerceEnum (name : String) (values : List String) (value : InputValue) :
    Except CoercionError Value :=
  match value with
  | .enum member | .string member =>
    if values.contains member then .ok (.enum member)
    else .error (.invalidEnumValue name value.text)
  | _ => .error (.invalidEnumValue name value.text)

/-- Model of the custom scalars in `coerce_named`. Coerces to a custom scalar: variables are filled
    in and the codec reads the rest. -/
def coerceScalar (bindings : Variables) (bound : Nat) (name : String) (codec : ScalarCodec)
    (value : InputValue) : Result CoercionError Value :=
  match value.toValue bindings bound with
  | none => unfinished
  | some raw =>
    match codec.decode raw with
    | .ok decoded => pure decoded
    | .error reason => throw (.invalidScalar name reason)

/-- Coerces one field of an input object, with `coerceTo` for its value. A field that is left out
    takes its default, or null if it may be null. -/
def coerceField (bindings : Variables)
    (coerceTo : TypeRef → InputValue → Result CoercionError Value) (inputType : String)
    (supplied : Entries InputValue) (name : String) (field : InputField) :
    Result CoercionError Value :=
  match (Entries.find? supplied name).filter fun value => !isUnset bindings value with
  | some value => coerceTo field.type value
  | none =>
    match field.defaultValue with
    | some value => pure value
    | none =>
      if field.type.isNonNull then throw (.missingField inputType name) else pure .null

/-- Model of the input objects in `coerce_named`: coerces to an input object, with `coerceTo` for
    the values of its fields. -/
def coerceObject (bindings : Variables)
    (coerceTo : TypeRef → InputValue → Result CoercionError Value) (name : String)
    (fields : Entries InputField) (value : InputValue) : Result CoercionError Value :=
  match value with
  | .object supplied =>
    match (Entries.keys supplied).find? fun key => !Entries.has fields key with
    | some unknown => throw (.unknownField name unknown)
    | none => do
      let coerced ← fields.mapM fun (key, field) => do
        return (key, ← coerceField bindings coerceTo name supplied key field)
      return .object coerced
  | _ => throw (.invalidValue name value.text)

/-- Model of `coerce_named`. Coerces to a named type, with `coerceTo` for what lies below: a custom
    scalar, an enum or an input object, in this order. -/
def coerceNamed (types : Types) (bindings : Variables) (bound : Nat)
    (coerceTo : TypeRef → InputValue → Result CoercionError Value) (name : String)
    (value : InputValue) : Result CoercionError Value :=
  match Entries.find? types.scalars name with
  | some codec => coerceScalar bindings bound name codec value
  | none =>
    match Entries.find? types.enums name with
    | some values => settled (coerceEnum name values value)
    | none =>
      match Entries.find? types.inputs name with
      | some fields => coerceObject bindings coerceTo name fields value
      | none => throw (.unknownType name)

end Coercion

open Coercion

/-- Model of `coerce_input_value`: coerces an input value to a type. A single value in place of a
    list stands for a list of one. -/
def coerce (types : Types) (bindings : Variables) :
    Nat → TypeRef → InputValue → Coercion.Result CoercionError Value
  | 0, _, _ => unfinished
  | bound + 1, type, written =>
    match resolve bindings written with
    | .error error => throw error
    | .ok value =>
      match type, value with
      | .nonNull inner, .null => throw (.nullValue (TypeRef.nonNull inner).text)
      | .nonNull inner, value => coerce types bindings bound inner value
      | _, .null => pure .null
      | .list item, .list items => do
        return .list (← items.mapM (coerce types bindings bound item))
      | .list item, value => do return .list [← coerce types bindings bound item value]
      | .named name, value =>
        coerceNamed types bindings bound (coerce types bindings bound) name value
      | builtin, value => settled (coerceBuiltin builtin value)

namespace Coercion

/-- Says which argument or variable a coercion belongs to. -/
def named {α : Type} (name : String) (result : Result CoercionError α) :
    Result (String × CoercionError) α :=
  ExceptT.mk (result.run.map fun outcome => outcome.mapError fun error => (name, error))

end Coercion

/-- Model of one round of `coerce_arguments`: coerces one argument of a field. An argument that is
    left out, or given by a variable that is not set, takes its default; without one it counts as
    null. -/
def coerceArgument (types : Types) (bindings : Variables) (bound : Nat) (field : Field)
    (argument : Argument) : Coercion.Result CoercionError Value :=
  match (field.argument? argument.name).filter fun value => !isUnset bindings value with
  | some value => coerce types bindings bound argument.type value
  | none =>
    match argument.defaultValue with
    | some value => pure value
    | none => coerce types bindings bound argument.type .null

/-- Model of `coerce_arguments`: coerces the arguments of a field in the order of their definitions.
    Arguments without a definition are passed over. The first failure comes with the name of its
    argument. -/
def coerceArguments (types : Types) (bindings : Variables) (bound : Nat)
    (arguments : List Argument) (field : Field) :
    Coercion.Result (String × CoercionError) Fields := do
  let coerced ← arguments.mapM fun argument => do
    return (argument.name, ←
      Coercion.named argument.name (coerceArgument types bindings bound field argument))
  return Entries.ofList coerced

/-- Model of `coerce_variable_values`: coerces variables to declared types, for hosts that check
    them before execution. A variable that is not set counts as null. -/
def coerceVariables (types : Types) (bound : Nat) (definitions : Entries TypeRef)
    (bindings : Variables) : Coercion.Result (String × CoercionError) Fields :=
  definitions.mapM fun (name, type) => do
    let value := (Entries.find? bindings name).getD .null
    return (name, ← Coercion.named name (coerce types bindings bound type value))

end GraphQL

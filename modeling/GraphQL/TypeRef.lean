import GraphQL.Json.Outline

/-!
# Type references

The type of a field, an argument or an input field: a name under any number of list and non-null
wrappers. The five scalars that every schema has are cases of their own.
-/

namespace GraphQL

/-- Model of `FieldType`: a reference to a type. -/
inductive TypeRef where
  | named (name : String)
  | list (item : TypeRef)
  | nonNull (inner : TypeRef)
  | string
  | int
  | float
  | id
  | boolean
  deriving Repr, DecidableEq, Inhabited

namespace TypeRef

/-- Model of `FieldType.fmt`: the notation of a type. -/
def text : TypeRef → String
  | .named name => name
  | .list item => "[" ++ item.text ++ "]"
  | .nonNull inner => inner.text ++ "!"
  | .string => "String"
  | .int => "Int"
  | .float => "Float"
  | .id => "ID"
  | .boolean => "Boolean"

/-- Model of `FieldType.named`: the type with a given name, which may be that of a built-in
    scalar. -/
def ofName (name : String) : TypeRef :=
  if name = "String" then .string
  else if name = "Int" then .int
  else if name = "Float" then .float
  else if name = "ID" then .id
  else if name = "Boolean" then .boolean
  else .named name

/-- Model of `non_null`: forbids null, unless it is forbidden already. -/
def required : TypeRef → TypeRef
  | .nonNull inner => .nonNull inner
  | other => .nonNull other

/-- Model of `inner_type_name`: the name under all wrappers, if it is not that of a built-in
    scalar. -/
def innerName? : TypeRef → Option String
  | .named name => some name
  | .list inner | .nonNull inner => inner.innerName?
  | .string | .int | .float | .id | .boolean => none

/-- Model of `list_item_type`: the type of the items, for a list under any number of non-null
    wrappers. -/
def itemType? : TypeRef → Option TypeRef
  | .list item => some item
  | .nonNull inner => inner.itemType?
  | _ => none

/-- Model of `is_builtin_scalar`: whether the type is one of the built-in scalars. -/
def isBuiltin : TypeRef → Bool
  | .named _ | .list _ | .nonNull _ => false
  | .string | .int | .float | .id | .boolean => true

/-- Model of `is_non_null`: whether null is forbidden. -/
def isNonNull : TypeRef → Bool
  | .nonNull _ => true
  | _ => false

/-! ## JSON

A built-in scalar is the string of its case, all else an object with its case as the only name. -/

/-- A type as JSON. -/
def toJson : TypeRef → Json
  | .named name => .object [("Named", .string name)]
  | .list item => .object [("List", item.toJson)]
  | .nonNull inner => .object [("NonNull", inner.toJson)]
  | .string => .string "String"
  | .int => .string "Int"
  | .float => .string "Float"
  | .id => .string "Id"
  | .boolean => .string "Boolean"

/-- The built-in scalar of a case name. -/
def ofCaseName? (name : String) : Option TypeRef :=
  if name = "String" then some .string
  else if name = "Int" then some .int
  else if name = "Float" then some .float
  else if name = "Id" then some .id
  else if name = "Boolean" then some .boolean
  else none

/-- Reads a type. -/
def ofOutline? : Json.Outline → Option TypeRef
  | .object [(some "Named", .string name)] => some (.named name)
  | .object [(some "List", item)] => (ofOutline? item).map .list
  | .object [(some "NonNull", item)] => (ofOutline? item).map .nonNull
  | item => item.caseName?.bind ofCaseName?

end TypeRef

end GraphQL

import GraphQL.Scalar
import GraphQL.TypeRef

/-!
# Input and abstract types

What coercion and fragments ask a schema about: enums, input objects, custom scalars, and which
object types an interface or union stands for. Of two definitions of a name the first one stands,
except that the object types of an abstract type add up.
-/

namespace GraphQL

/-- A field of an input object. -/
structure InputField where
  type : TypeRef
  defaultValue : Option Value := none

/-- The named types of a schema other than its objects. -/
structure Types where
  /-- Enums and their values. -/
  enums : Entries (List String) := []
  /-- Input objects and their fields, in the order of declaration. -/
  inputs : Entries (Entries InputField) := []
  /-- Interfaces and unions, each with its object types. -/
  implementers : Entries (List String) := []
  /-- Custom scalars. -/
  scalars : Scalars := []

namespace Types

/-- Adds the words that are not in the list yet. -/
def addWords (words more : List String) : List String :=
  more.foldl (fun known word => if known.contains word then known else known ++ [word]) words

/-- Model of `enum_type`: declares an enum. -/
def addEnum (types : Types) (name : String) (values : List String) : Types :=
  { types with enums := Entries.add types.enums name (addWords [] values) }

/-- Model of `input_object`: declares an input object. Of two fields of one name the first one
    stands. -/
def addInput (types : Types) (name : String) (fields : List (String × InputField)) : Types :=
  { types with inputs := Entries.add types.inputs name (Entries.ofListFirst fields) }

/-- Model of `implementers`: declares object types of an interface or union. -/
def addImplementers (types : Types) (name : String) (objects : List String) : Types :=
  let known := (Entries.find? types.implementers name).getD []
  { types with implementers := Entries.put types.implementers name (addWords known objects) }

/-- Model of `scalar`: declares a custom scalar. -/
def addScalar (types : Types) (name : String) (codec : ScalarCodec) : Types :=
  { types with scalars := types.scalars.register name codec }

/-- Model of `is_subtype`: whether `object` is one of the object types of the interface or union
    `abstract`. -/
def isSubtype (types : Types) (abstract object : String) : Bool :=
  ((Entries.find? types.implementers abstract).getD []).contains object

/-- Joins the types of two schemas; the left one wins. -/
def merge (left right : Types) : Types where
  enums := Entries.union left.enums right.enums
  inputs := Entries.union left.inputs right.inputs
  implementers :=
    right.implementers.foldl (fun merged entry =>
      Entries.put merged entry.1
        (addWords ((Entries.find? merged entry.1).getD []) entry.2)) left.implementers
  scalars := Entries.union left.scalars right.scalars

end Types

end GraphQL

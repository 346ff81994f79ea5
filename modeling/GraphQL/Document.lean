import GraphQL.OperationKind
import GraphQL.Text.Position
import GraphQL.TypeRef

/-!
# Documents

A document as it is written: operations and fragments with their selections, arguments and
directives in order. Numbers keep their notation. Definitions of types have no place here, because
they play no part in execution.
-/

namespace GraphQL.Document

/-- A value in a document. -/
inductive Literal where
  | null
  | boolean (b : Bool)
  | int (written : String)
  | float (written : String)
  | string (s : String)
  | enum (name : String)
  | var (name : String)
  | list (items : List Literal)
  | object (fields : List (String × Literal))

/-- Arguments in the order in which they are written; names may repeat. -/
abbrev Arguments := List (String × Literal)

/-- A directive. -/
structure Directive where
  name : String
  arguments : Arguments

/-- A selection. Only composite fields have selections of their own. -/
inductive Selection where
  | field (aliasName : Option String) (name : String) (arguments : Arguments)
      (directives : List Directive) (selections : List Selection) (location : Location)
  | inlineFragment (condition : Option String) (directives : List Directive)
      (selections : List Selection)
  | spread (name : String) (directives : List Directive)

/-- The declaration of a variable. -/
structure VariableDefinition where
  name : String
  type : TypeRef
  defaultValue : Option Literal

/-- An operation or a fragment. -/
inductive Definition where
  | operation (kind : OperationKind) (name : Option String) (declared : List VariableDefinition)
      (selections : List Selection)
  | fragment (name : String) (condition : String) (selections : List Selection)

end GraphQL.Document

namespace GraphQL

/-- A document: its definitions in order. -/
abbrev Document := List Document.Definition

end GraphQL

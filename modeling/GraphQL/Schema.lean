import GraphQL.OperationKind
import GraphQL.Schema.Node

/-!
# Schemas

A schema has a root object for each kind of operation that it serves and the named types that the
arguments and fragments of documents use. Queries are always served. Two schemas merge into one that
serves the fields of both.
-/

namespace GraphQL

/-- What documents are executed against. -/
structure Schema (ref : Type) where
  query : ObjectType ref
  mutation : Option (ObjectType ref) := none
  subscription : Option (ObjectType ref) := none
  types : Types := {}

namespace Schema

variable {ref : Type}

/-- Model of `Schema.default`: the schema that declares nothing. -/
def empty : Schema ref where
  query := { name := OperationKind.query.text }

/-- Model of `Schema.root`: the root object for a kind of operation. -/
def root (schema : Schema ref) : OperationKind → Option (ObjectType ref)
  | .query => some schema.query
  | .mutation => schema.mutation
  | .subscription => schema.subscription

/-- Model of `merge_roots`: merges two roots of one kind. -/
def mergeRoots : Option (ObjectType ref) → Option (ObjectType ref) → Option (ObjectType ref)
  | some left, some right => some (left.merge right)
  | left, right => left.or right

/-- Model of `Schema.merge`: merges two schemas. Where both declare a field or a type, the left one
    wins. -/
def merge (left right : Schema ref) : Schema ref where
  query := left.query.merge right.query
  mutation := mergeRoots left.mutation right.mutation
  subscription := mergeRoots left.subscription right.subscription
  types := left.types.merge right.types

end Schema

end GraphQL

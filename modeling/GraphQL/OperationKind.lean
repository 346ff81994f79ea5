import GraphQL.Json.Outline

/-!
# Kinds of operations
-/

namespace GraphQL

/-- The three kinds of operation, each with a root type of its own. -/
inductive OperationKind where
  | query
  | mutation
  | subscription
  deriving Repr, DecidableEq

namespace OperationKind

/-- The usual name of the root type. -/
def text : OperationKind → String
  | .query => "Query"
  | .mutation => "Mutation"
  | .subscription => "Subscription"

/-- The keyword of a kind. -/
def keyword : OperationKind → String
  | .query => "query"
  | .mutation => "mutation"
  | .subscription => "subscription"

/-- The kind of a keyword. -/
def ofKeyword? (word : String) : Option OperationKind :=
  if word = "query" then some .query
  else if word = "mutation" then some .mutation
  else if word = "subscription" then some .subscription
  else none

/-- A kind as JSON. -/
def toJson (kind : OperationKind) : Json := .string kind.keyword

/-- Reads a kind. -/
def ofOutline? (item : Json.Outline) : Option OperationKind := item.caseName?.bind ofKeyword?

end OperationKind

end GraphQL

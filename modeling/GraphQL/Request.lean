import GraphQL.Json.Reader
import GraphQL.Value.Json

/-!
# Requests

A request names a document, the operation to execute and the values of variables. It is read from a
JSON object or from an array of its fields.
-/

namespace GraphQL

/-- A request as it arrives. -/
structure Request where
  query : String
  operationName : Option String := none
  bindings : Variables := []

namespace Request

/-- Reads variables. Their names are distinct; of two values of one name the last one counts. -/
def readVariables? (item : Json.Outline) : Option Variables :=
  match item.value? with
  | some (.object members) => some (InputValue.ofMembers members)
  | _ => none

/-- Reads a request. Only the document must be given; null stands for no name and no variables. -/
def ofOutline? (item : Json.Outline) : Option Request := do
  match ← item.fields? .ignored ["query", "operationName", "variables"] with
  | [some query, operationName, bindings] =>
    let bindings ←
      Json.Outline.orElse? (·.nullable? readVariables?) none bindings
    return {
      query := ← query.string?
      operationName :=
        ← Json.Outline.orElse? (·.nullable? Json.Outline.string?) none operationName
      bindings := bindings.getD [] }
  | _ => failure

/-- Reads the body of a request. -/
def read? (body : String) : Option Request := (Json.Outline.read? body).bind ofOutline?

end Request

end GraphQL

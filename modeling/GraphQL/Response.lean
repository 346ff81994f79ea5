import GraphQL.RequestError
import GraphQL.Value.Json

/-!
# Responses

A response has data, errors and extensions, each of which is left out of its text when there is
nothing to say. A request that failed has no data; data that is null is a different thing. The type
of errors is open, so that a host can put reports of its own in their place.
-/

namespace GraphQL

/-- A response with errors of type `ε`. -/
structure Response (ε : Type) where
  data : Option Value := none
  errors : List ε := []
  extensions : Entries Json := []

namespace Response

variable {ε φ : Type}

/-- Rewrites every error, in order. -/
def mapErrorsM {m : Type → Type} [Monad m] (f : ε → m φ) (response : Response ε) :
    m (Response φ) := do
  let errors ← response.errors.mapM f
  return ⟨response.data, errors, response.extensions⟩

/-- Model of `map_error`: rewrites every error and leaves the rest as it is. -/
def mapErrors (f : ε → φ) (response : Response ε) : Response φ :=
  ⟨response.data, response.errors.map f, response.extensions⟩

/-- The compact text of a response, with `write` for its errors. -/
def jsonText (write : ε → Json) (response : Response ε) : String :=
  Json.Text.object
    ((response.data.toList.map fun data => ("data", data.jsonText)) ++
      ((if response.errors.isEmpty then []
        else [("errors", Json.Text.array (response.errors.map fun error => (write error).text))]) ++
        (if response.extensions.isEmpty then []
        else [("extensions", (Json.object response.extensions).text)])))

end Response

/-- Model of `to_response`: the response to a request that failed. -/
def RequestError.response (error : RequestError) : Response Error := { errors := [error.report] }

end GraphQL

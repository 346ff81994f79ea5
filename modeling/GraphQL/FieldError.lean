import GraphQL.Coercion
import GraphQL.Error

/-!
# Field errors

What makes one field null and leaves the rest of the response alone. Each cause has a message and a
code; the failure of an effect is kept as the cause of its report.
-/

namespace GraphQL

/-- Why a field has no value. -/
inductive FieldError where
  | effectFailed (cause : String)
  | invalidArgument (argument : String) (reason : CoercionError)
  | unknownField (field typeName : String)
  | missingSelection (field typeName : String)
  | streamNotAllowed (field : String)
  deriving Repr, DecidableEq

namespace FieldError

/-- The wording of a field error. What made an effect fail is not disclosed. -/
def message : FieldError → String
  | .effectFailed _ => "Effect failure"
  | .invalidArgument argument reason =>
    "invalid value for argument '" ++ argument ++ "': " ++ reason.message
  | .unknownField field typeName =>
    "cannot query field '" ++ field ++ "' on type '" ++ typeName ++ "'"
  | .missingSelection field typeName =>
    "field '" ++ field ++ "' of type '" ++ typeName ++ "' must have a selection of subfields"
  | .streamNotAllowed field =>
    "field '" ++ field ++ "' resolved to a stream outside of a subscription root"

/-- Model of `extension_code`: the code of a field error. -/
def code : FieldError → String
  | .effectFailed _ => "EFFECT_FAILURE"
  | .invalidArgument _ _ => "INVALID_ARGUMENT"
  | .unknownField _ _ => "INVALID_FIELD"
  | .missingSelection _ _ => "INVALID_SELECTION"
  | .streamNotAllowed _ => "STREAM_NOT_ALLOWED"

/-- The failure behind a field error. -/
def cause? : FieldError → Option String
  | .effectFailed cause => some cause
  | _ => none

/-- Model of `FieldError.to_graphql_error`: a field error as the entry of a response. -/
def report (error : FieldError) (path : Path) (location : Location) : Error :=
  ({ message := error.message, locations := [location], path := some path,
     cause := error.cause? : Error }).withCode error.code

end FieldError

end GraphQL

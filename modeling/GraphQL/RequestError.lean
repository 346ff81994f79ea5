import GraphQL.Error
import GraphQL.OperationKind

/-!
# Request errors

What stops a request before there is any data: a document that cannot be read, an operation that
cannot be picked, a subscription that is no stream. Each cause has a message and a code.
-/

namespace GraphQL

/-- Model of `SpecError`: why a document cannot be executed. -/
inductive DocumentError where
  /-- Selections nest too deep. -/
  | tooDeep
  /-- The text does not follow the grammar or is too large. -/
  | unreadable
  /-- A number has no floating-point value. -/
  | invalidLiteral (written : String)
  deriving Repr, DecidableEq

/-- Model of `OperationSelectionError`: why no operation of a document can be picked. -/
inductive OperationError where
  | noOperation
  | nameRequired (operations : Nat)
  | unknownName (name : String)
  | unsupported (kind : OperationKind)
  deriving Repr, DecidableEq

/-- Model of `StreamSetupError`: why a subscription is no stream. -/
inductive SubscriptionError where
  | fieldCount (found : Nat)
  | notAStream (field : String)
  deriving Repr, DecidableEq

/-- Why a request has no data. -/
inductive RequestError where
  | document (error : DocumentError)
  | operation (error : OperationError)
  | subscription (error : SubscriptionError)
  deriving Repr, DecidableEq

/-- The wording of a document error. -/
def DocumentError.message : DocumentError → String
  | .tooDeep => "selection processing recursion limit exceeded"
  | .unreadable => "parsing error: <details>"
  | .invalidLiteral written => "invalid literal '" ++ written ++ "'"

/-- The code of a document error. -/
def DocumentError.code : DocumentError → String
  | .tooDeep => "RECURSION_LIMIT_EXCEEDED"
  | .unreadable | .invalidLiteral _ => "PARSING_ERROR"

/-- The wording of an operation error. -/
def OperationError.message : OperationError → String
  | .noOperation => "the document does not contain any operation"
  | .nameRequired operations =>
    "an operation name is required when the document contains " ++ toString operations ++
      " operations"
  | .unknownName name => "unknown operation named \"" ++ name ++ "\""
  | .unsupported kind => "the schema does not define a " ++ kind.text ++ " root type"

/-- The code of an operation error. -/
def OperationError.code : OperationError → String
  | .noOperation | .nameRequired _ => "OPERATION_NAME_REQUIRED"
  | .unknownName _ => "UNKNOWN_OPERATION"
  | .unsupported _ => "OPERATION_NOT_SUPPORTED"

/-- The wording of a subscription error. -/
def SubscriptionError.message : SubscriptionError → String
  | .fieldCount found =>
    "subscription operations must select exactly one root field, found " ++ toString found
  | .notAStream field =>
    "subscription root field '" ++ field ++ "' does not resolve to a stream"

/-- The code of a subscription error. -/
def SubscriptionError.code : SubscriptionError → String
  | .fieldCount _ => "INVALID_SUBSCRIPTION"
  | .notAStream _ => "SUBSCRIPTION_NOT_STREAM"

namespace RequestError

/-- The wording of a request error. -/
def message : RequestError → String
  | .document error => error.message
  | .operation error => error.message
  | .subscription error => error.message

/-- The code of a request error. -/
def code : RequestError → String
  | .document error => error.code
  | .operation error => error.code
  | .subscription error => error.code

/-- Model of `RequestError.to_graphql_error`: a request error as the entry of a response. -/
def report (error : RequestError) : Error :=
  ({ message := error.message : Error }).withCode error.code

end RequestError

end GraphQL

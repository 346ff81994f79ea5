import GraphQL.Configuration
import GraphQL.Request
import GraphQL.ResponseStream

/-!
# Services

A service answers requests: it has a schema and a configuration. `Service.execute` reads the
document of a request and executes one of its operations; a query or mutation gives one response, a
subscription a stream of them. What stops a request before its execution is a `RequestError`.

Services merge into one that serves the fields of both.
-/

namespace GraphQL

/-- Model of `ExecutionResult`: what a request leads to. -/
inductive Reply (ref : Type) where
  | response (only : Response Error)
  | stream (responses : ResponseStream ref)

namespace Reply

variable {ref : Type}

/-- Model of `into_stream`: the reply as a stream. -/
def toStream : Reply ref → ResponseStream ref
  | .response only => .single only
  | .stream responses => responses

/-- Model of `into_response`. The reply as one response: the first one of a stream, or an empty one
    if there is none. The rest of the stream is given up. -/
def toResponse (bound : Nat) : Reply ref → Job (Response Error)
  | .response only => .done only
  | .stream responses =>
    (responses.next bound).andThen fun (first, rest) => rest.release.map fun _ => first.getD {}

end Reply

/-- Model of `execute_root`: the response of a root object. Data is null if there are fields and all
    of them failed. -/
def Outcomes.response (outcomes : Outcomes) : Response Error where
  data := some (if outcomes.allFailed then .null else .object outcomes.fields)
  errors := outcomes.errors

/-- Model of `Executor`: what answers requests. -/
structure Service (ref : Type) where
  schema : Schema ref
  configuration : Configuration := {}

namespace Service

variable {ref : Type}

/-- Model of `Executor.merge`: merges two services. The configuration of the left one stays. -/
def merge (left right : Service ref) : Service ref where
  schema := left.schema.merge right.schema
  configuration := left.configuration

/-- Reads a document within the limits of the service. -/
def readDocument (service : Service ref) (text : String) :
    Except DocumentError ExecutableDocument :=
  ExecutableDocument.read service.configuration.parser text

/-- What the operations of a document are executed with. -/
def context (service : Service ref) (objects : ref → ObjectType ref)
    (document : ExecutableDocument) (bindings : Variables) : Context ref where
  objects
  types := service.schema.types
  fragments := document.fragments
  bindings
  width := service.configuration.execution.maxConcurrency

/-- Model of `ExecutionMode`: how many root fields run at the same time. Those of a mutation run one
    after the other, unless the configuration says otherwise. -/
def rootWidth (service : Service ref) (context : Context ref) (kind : OperationKind) : Nat :=
  if kind = .mutation ∧ service.configuration.execution.serialMutations then 1 else context.window

/-- Executes an operation of a document on its root object. -/
def run (service : Service ref) (objects : ref → ObjectType ref) (bound : Nat)
    (document : ExecutableDocument) (operation : Operation) (root : ObjectType ref)
    (bindings : Variables) : Job (Except RequestError (Reply ref)) :=
  let context := service.context objects document (operation.complete bindings)
  match operation.kind with
  | .subscription =>
    (context.subscribe bound root operation.selections).map fun
      | .ok stream => .ok (.stream stream)
      | .error error => .error (.subscription error)
  | .query | .mutation =>
    (context.executeFields bound (service.rootWidth context operation.kind) root .root
      operation.selections).map fun outcomes => .ok (.response outcomes.response)

/-- Model of `execute_query`: executes an operation of a document that has been read. -/
def executeDocument (service : Service ref) (objects : ref → ObjectType ref) (bound : Nat)
    (document : ExecutableDocument) (name : Option String) (bindings : Variables) :
    Job (Except RequestError (Reply ref)) :=
  match document.operation name with
  | .error error => .done (.error (.operation error))
  | .ok operation =>
    match service.schema.root operation.kind with
    | none => .done (.error (.operation (.unsupported operation.kind)))
    | some root => service.run objects bound document operation root bindings

/-- Model of `execute`: executes a request. -/
def execute (service : Service ref) (objects : ref → ObjectType ref) (bound : Nat)
    (request : Request) : Job (Except RequestError (Reply ref)) :=
  match service.readDocument request.query with
  | .error error => .done (.error (.document error))
  | .ok document =>
    service.executeDocument objects bound document request.operationName request.bindings

/-- Model of `execute_to_result`: executes a request. What stops it becomes a response without
    data. -/
def answer (service : Service ref) (objects : ref → ObjectType ref) (bound : Nat)
    (request : Request) : Job (Reply ref) :=
  (service.execute objects bound request).map fun
    | .ok reply => reply
    | .error error => .response error.response

end Service

end GraphQL

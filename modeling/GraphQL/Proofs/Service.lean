import GraphQL.Proofs.Timeline
import GraphQL.Service

/-!
# Where responses come from

A document and a name select an operation and its root object (`Service.Selects`). A query or
mutation then executes the fields of the root object, and nothing else leads to a single response
(`executeDocument_eq_response_iff`).
-/

namespace GraphQL.Service

variable {ref : Type} {service : Service ref} {objects : ref → ObjectType ref} {bound start : Nat}
  {document : ExecutableDocument} {name : Option String} {bindings : Variables}
  {operation : Operation} {root : ObjectType ref}

/-- The name selects a query or mutation of the document, for which the schema has a root object. -/
structure Selects (service : Service ref) (document : ExecutableDocument) (name : Option String)
    (operation : Operation) (root : ObjectType ref) : Prop where
  picked : document.operation name = .ok operation
  served : service.schema.root operation.kind = some root
  kind_ne : operation.kind ≠ .subscription

/-- How the fields of a root object are executed. -/
def executeRoot (service : Service ref) (objects : ref → ObjectType ref) (bound : Nat)
    (document : ExecutableDocument) (operation : Operation) (root : ObjectType ref)
    (bindings : Variables) : Job Outcomes :=
  let context := service.context objects document (operation.complete bindings)
  context.executeFields bound (service.rootWidth context operation.kind) root .root
    operation.selections

/-- The fields that an operation selects on its root object, in collected order. -/
def rootFields (service : Service ref) (objects : ref → ObjectType ref)
    (document : ExecutableDocument) (operation : Operation) (root : ObjectType ref)
    (bindings : Variables) : CollectedFields :=
  let context := service.context objects document (operation.complete bindings)
  collect (context.scope (some root.name)) operation.selections

/-- How one of them is executed. -/
def executeRootField (service : Service ref) (objects : ref → ObjectType ref) (bound : Nat)
    (document : ExecutableDocument) (operation : Operation) (root : ObjectType ref)
    (bindings : Variables) (entry : String × CollectedField) : Job Outcome :=
  let context := service.context objects document (operation.complete bindings)
  context.executeField bound root entry.2 (Path.root.join (.key entry.1))

/-- The root fields run in a window of their own. -/
theorem executeRoot_succ :
    service.executeRoot objects (bound + 1) document operation root bindings =
      Window.run
        (service.rootWidth (service.context objects document (operation.complete bindings))
          operation.kind)
        ((service.rootFields objects document operation root bindings).map fun entry =>
          (service.executeRootField objects bound document operation root bindings entry).map
            fun outcome => (entry.1, outcome)) :=
  rfl

/-- A query or mutation shows what its root fields came to. -/
theorem Selects.executeDocument (h : service.Selects document name operation root) :
    service.executeDocument objects bound document name bindings =
      (service.executeRoot objects bound document operation root bindings).map fun outcomes =>
        .ok (.response outcomes.response) := by
  rw [Service.executeDocument, h.picked]
  dsimp only
  rw [h.served]
  dsimp only
  cases hk : operation.kind with
  | subscription => exact absurd hk h.kind_ne
  | query => simp only [run, executeRoot, hk]
  | mutation => simp only [run, executeRoot, hk]

/-- A subscription gives no single response. -/
theorem run_subscription_ne_response (hk : operation.kind = .subscription)
    {timed : Timed (Except RequestError (Reply ref))} {response : Response Error}
    (h : service.run objects bound document operation root bindings start = some timed) :
    timed.value ≠ .ok (.response response) := by
  simp only [run, hk, Job.map_eq_some_iff] at h
  obtain ⟨first, -, rfl⟩ := h
  dsimp only [Timed.map]
  split <;> simp

/-- A single response is that of a query or mutation which executed the fields of its root. -/
theorem executeDocument_eq_response_iff {response : Response Error} {finish : Nat}
    {record : List Occurrence} :
    service.executeDocument objects bound document name bindings start =
        some ⟨.ok (.response response), finish, record⟩ ↔
      ∃ operation root outcomes, service.Selects document name operation root ∧
        service.executeRoot objects bound document operation root bindings start =
          some ⟨outcomes, finish, record⟩ ∧
        response = outcomes.response := by
  constructor
  · intro h
    have h' := h
    rw [Service.executeDocument] at h
    cases ho : document.operation name with
    | error error => simp [ho, Job.done] at h
    | ok operation =>
      simp only [ho] at h
      cases hr : service.schema.root operation.kind with
      | none => simp [hr, Job.done] at h
      | some root =>
        simp only [hr] at h
        have hk : operation.kind ≠ .subscription := fun hk =>
          run_subscription_ne_response hk h rfl
        have hs : service.Selects document name operation root := ⟨ho, hr, hk⟩
        rw [hs.executeDocument, Job.map_eq_some_iff] at h'
        obtain ⟨⟨outcomes, finish, record⟩, hfirst, he⟩ := h'
        cases he
        exact ⟨operation, root, outcomes, hs, hfirst, rfl⟩
  · rintro ⟨operation, root, outcomes, hs, hrun, rfl⟩
    rw [hs.executeDocument, Job.map_eq_some_iff]
    exact ⟨_, hrun, rfl⟩

end GraphQL.Service

namespace GraphQL

/-! ## A small service

The theorems on responses are tried on one service. Its root has a ship, which takes time to come,
and a fleet: a list of another such ship and of a stream, which is not allowed there. -/

namespace Sample

/-- A field without arguments. -/
def field (type : TypeRef) (node : Node Unit) : FieldDefinition Unit :=
  ⟨type, .named [] fun _ => node⟩

/-- A selected field without arguments. -/
def select (name : String) (below : List Selection) : Selection :=
  .field ⟨none, name, [], below, !below.isEmpty, {}, ⟨1, 1⟩⟩

/-- A ship that tells its name and fails to tell its fuel. -/
def ship (delay : Nat) : ObjectType Unit where
  name := "Ship"
  fields := [
    ("name", field .string (.effect none delay (.ok (.leaf (.string "Rocinante"))))),
    ("fuel", field .int (.effect none delay (.error "leak")))]

/-- The root object. -/
def root (delay : Nat) : ObjectType Unit where
  name := "Root"
  fields := [
    ("ship", field (.named "Ship") (.effect none delay (.ok (.object ())))),
    ("fleet", field (.list (.named "Ship")) (.ready none (.list [
      .effect none delay (.ok (.object ())), .stream (.prepared [])])))]

/-- The service, with a delay for all effects and a width for all windows. -/
def service (delay width : Nat) : Service Unit where
  schema := { query := root delay, mutation := some (root delay) }
  configuration := { execution := { maxConcurrency := width } }

/-- Asks for the ship, for the fleet, and once more for the ship. -/
def selections : List Selection :=
  [select "ship" [select "name" []], select "fleet" [select "fuel" []],
    select "ship" [select "fuel" []]]

/-- A query or a mutation. -/
def operation (kind : OperationKind) : Operation := ⟨none, kind, [], selections⟩

/-- The document with that operation. -/
def document (kind : OperationKind) : ExecutableDocument := ⟨[], [operation kind]⟩

/-- Where the effects in a record ran, and from when to when. -/
def spans (record : List Occurrence) : List (Path × Nat × Nat) :=
  record.filterMap fun
    | .ran path _ start finish => some (path, start, finish)
    | _ => none

theorem selects_query (delay width : Nat) :
    (service delay width).Selects (document .query) none (operation .query) (root delay) :=
  ⟨rfl, rfl, by decide⟩

theorem selects_mutation (delay width : Nat) :
    (service delay width).Selects (document .mutation) none (operation .mutation) (root delay) :=
  ⟨rfl, rfl, by decide⟩

end Sample

end GraphQL

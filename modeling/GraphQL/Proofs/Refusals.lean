import GraphQL.Proofs.Starting
import GraphQL.Proofs.Subscriptions
import GraphQL.Proofs.Termination

/-!
# Refused requests

A request is refused while its document is read, while an operation is picked, or while a
subscription is started (`Service.Refuses`). All other requests are answered (`Service.Replies`).

Results:
* `ExecutableDocument.read_eq_error_iff`, `ExecutableDocument.operation_eq_error_iff`: when there is
  no document and when there is no operation.
* `Service.execute_cases`: a request is refused or answered, for the reasons given.
* `Service.exists_yields`: it comes to one of both, unless it may go on forever.
* `request_outcomes`: which requests are refused, and what comes of the others.
* `refusals_before_execution`: what has happened when a request is refused.
-/

namespace GraphQL

variable {ref : Type}

/-! ## Documents and operations -/

namespace ExecutableDocument

variable {document : ExecutableDocument} {name : Option String}

/-- Why no document is read from a text. -/
inductive Unreadable (limits : Document.Limits) (text : String) : DocumentError → Prop
  /-- The text does not follow the grammar. -/
  | unparsed : Document.read? limits text = none → Unreadable limits text .unreadable
  /-- What is written there cannot be made ready for execution. -/
  | unprepared {written : Document} {error : DocumentError} :
      Document.read? limits text = some written → ofDocument written = .error error →
      Unreadable limits text error

theorem read_eq_error_iff {limits : Document.Limits} {text : String} {error : DocumentError} :
    read limits text = .error error ↔ Unreadable limits text error := by
  rw [read]
  cases hwritten : Document.read? limits text with
  | none =>
    constructor
    · rintro ⟨⟩
      exact .unparsed hwritten
    · rintro (_ | ⟨hsome, -⟩)
      · rfl
      · cases hwritten.symm.trans hsome
  | some written =>
    constructor
    · exact .unprepared hwritten
    · rintro (hnone | ⟨hsome, herror⟩)
      · cases hwritten.symm.trans hnone
      · cases hwritten.symm.trans hsome
        exact herror

/-- Why no operation of a document is picked. -/
inductive Unpicked (document : ExecutableDocument) : Option String → OperationError → Prop
  /-- No operation has the name. -/
  | unknownName {name : String} :
      (∀ operation ∈ document.operations, operation.name ≠ some name) →
      Unpicked document (some name) (.unknownName name)
  /-- There is no operation. -/
  | noOperation : document.operations = [] → Unpicked document none .noOperation
  /-- There are several operations and no name. -/
  | nameRequired :
      1 < document.operations.length →
      Unpicked document none (.nameRequired document.operations.length)

theorem operation_eq_error_iff {error : OperationError} :
    document.operation name = .error error ↔ document.Unpicked name error := by
  obtain ⟨fragments, operations⟩ := document
  rcases name with _ | name
  · rcases operations with _ | ⟨first, _ | ⟨second, others⟩⟩
    · constructor
      · rintro ⟨⟩
        exact .noOperation rfl
      · rintro (_ | _ | hlength)
        · rfl
        · exact absurd hlength (Nat.not_lt_zero 1)
    · constructor
      · rintro ⟨⟩
      · rintro (_ | hempty | hlength)
        · cases hempty
        · exact absurd hlength (Nat.lt_irrefl 1)
    · constructor
      · rintro ⟨⟩
        exact .nameRequired (Nat.succ_lt_succ (Nat.succ_pos _))
      · rintro (_ | hempty | _)
        · cases hempty
        · rfl
  · rw [operation]
    cases hfind : operations.find? (·.name = some name) with
    | some found =>
      constructor
      · rintro ⟨⟩
      · rintro ⟨hnone⟩
        have hname : found.name = some name := by simpa using List.find?_some hfind
        exact absurd hname (hnone found (List.mem_of_find?_eq_some hfind))
    | none =>
      rw [List.find?_eq_none] at hfind
      constructor
      · rintro ⟨⟩
        exact .unknownName fun operation hm he => hfind operation hm (decide_eq_true he)
      · rintro ⟨-⟩
        rfl

end ExecutableDocument

/-! ## Requests -/

namespace Service

/-- The name selects a subscription of the document, and the schema has a root object for those. -/
structure Subscribes (service : Service ref) (document : ExecutableDocument)
    (name : Option String) (operation : Operation) (root : ObjectType ref) : Prop where
  picked : document.operation name = .ok operation
  kind_eq : operation.kind = .subscription
  served : service.schema.subscription = some root

/-- Why a request is refused, and what is noted until then. -/
inductive Refuses (service : Service ref) (objects : ref → ObjectType ref) (request : Request) :
    RequestError → (Nat → List Occurrence) → Prop
  /-- There is no document. -/
  | document {error : DocumentError} :
      ExecutableDocument.Unreadable service.configuration.parser request.query error →
      Refuses service objects request (.document error) fun _ => []
  /-- There is no operation to execute. -/
  | operation {document : ExecutableDocument} {error : OperationError} :
      service.readDocument request.query = .ok document →
      document.Unpicked request.operationName error →
      Refuses service objects request (.operation error) fun _ => []
  /-- The schema has no root object for operations of this kind. -/
  | unsupported {document : ExecutableDocument} {operation : Operation} :
      service.readDocument request.query = .ok document →
      document.operation request.operationName = .ok operation →
      service.schema.root operation.kind = none →
      Refuses service objects request (.operation (.unsupported operation.kind)) fun _ => []
  /-- The operation is a subscription that is no stream. -/
  | subscription {document : ExecutableDocument} {operation : Operation} {root : ObjectType ref}
      {error : SubscriptionError} {record : Nat → List Occurrence} :
      service.readDocument request.query = .ok document →
      service.Subscribes document request.operationName operation root →
      (service.context objects document (operation.complete request.bindings)).Begins root
        operation.selections (.error error) record →
      Refuses service objects request (.subscription error) record

/-- What a request that is not refused is answered with: a response with data to a query or
    mutation, a stream to a subscription. -/
inductive Replies (service : Service ref) (objects : ref → ObjectType ref) (request : Request) :
    Reply ref → Prop
  | response {document : ExecutableDocument} {operation : Operation} {root : ObjectType ref}
      {response : Response Error} :
      service.readDocument request.query = .ok document →
      service.Selects document request.operationName operation root →
      response.data.isSome = true →
      Replies service objects request (.response response)
  | stream {document : ExecutableDocument} {operation : Operation} {root : ObjectType ref}
      {stream : ResponseStream ref} {record : Nat → List Occurrence} :
      service.readDocument request.query = .ok document →
      service.Subscribes document request.operationName operation root →
      (service.context objects document (operation.complete request.bindings)).Begins root
        operation.selections (.ok stream) record →
      Replies service objects request (.stream stream)

/-- What a request comes to, with bounds that suffice and whenever it is started. -/
def Yields (service : Service ref) (objects : ref → ObjectType ref) (request : Request)
    (outcome : Except RequestError (Reply ref)) : Prop :=
  ∃ bound, ∀ more ≥ bound, (service.execute objects more request).Gives (some outcome)

variable {service : Service ref} {objects : ref → ObjectType ref} {request : Request}
  {document : ExecutableDocument} {name : Option String} {operation : Operation}
  {root : ObjectType ref} {bound start : Nat}

/-- A request comes to one thing. -/
theorem Yields.unique {first second : Except RequestError (Reply ref)}
    (hfirst : service.Yields objects request first)
    (hsecond : service.Yields objects request second) : first = second := by
  obtain ⟨bound, hfirst⟩ := hfirst
  obtain ⟨more, hsecond⟩ := hsecond
  exact Option.some.inj ((hfirst _ (Nat.le_max_left bound more) 0).symm.trans
    (hsecond _ (Nat.le_max_right bound more) 0))

theorem execute_of_read (hread : service.readDocument request.query = .ok document) :
    service.execute objects bound request =
      service.executeDocument objects bound document request.operationName request.bindings := by
  rw [execute, hread]

/-- A subscription shows how it starts. -/
theorem Subscribes.executeDocument_eq_some_iff {bindings : Variables}
    {timed : Timed (Except RequestError (Reply ref))}
    (h : service.Subscribes document name operation root) :
    service.executeDocument objects bound document name bindings start = some timed ↔
      ∃ first, (service.context objects document (operation.complete bindings)).subscribe bound
          root operation.selections start = some first ∧
        timed = first.map fun
          | .ok stream => .ok (.stream stream)
          | .error error => .error (.subscription error) := by
  have hroot : service.schema.root .subscription = some root := h.served
  rw [executeDocument, h.picked]
  simp only [h.kind_eq, hroot, run]
  exact Job.map_eq_some_iff

/-- Before its operation is executed, a request is refused with an empty record or leads to a
    subscription, a query or a mutation. -/
theorem request_cases (service : Service ref) (objects : ref → ObjectType ref) (request : Request) :
    (∃ error, service.Refuses objects request error (fun _ => []) ∧
      ∀ bound, service.execute objects bound request = .done (.error error)) ∨
    ∃ document operation root, service.readDocument request.query = .ok document ∧
      (service.Subscribes document request.operationName operation root ∨
        service.Selects document request.operationName operation root) := by
  cases hread : service.readDocument request.query with
  | error error =>
    refine .inl ⟨_, .document (ExecutableDocument.read_eq_error_iff.mp hread), fun bound => ?_⟩
    rw [execute, hread]
  | ok document =>
    cases hpicked : document.operation request.operationName with
    | error error =>
      refine .inl ⟨_, .operation hread (ExecutableDocument.operation_eq_error_iff.mp hpicked),
        fun bound => ?_⟩
      rw [execute_of_read hread, executeDocument, hpicked]
    | ok operation =>
      cases hserved : service.schema.root operation.kind with
      | none =>
        refine .inl ⟨_, .unsupported hread hpicked hserved, fun bound => ?_⟩
        rw [execute_of_read hread, executeDocument, hpicked]
        simp only [hserved]
      | some root =>
        refine .inr ⟨document, operation, root, rfl, ?_⟩
        by_cases hkind : operation.kind = .subscription
        · exact .inl ⟨hpicked, hkind, by rwa [hkind] at hserved⟩
        · exact .inr ⟨hpicked, hserved, hkind⟩

/-- How a request can end: refused or answered. -/
theorem execute_cases {timed : Timed (Except RequestError (Reply ref))}
    (h : service.execute objects bound request start = some timed) :
    (∃ error record, service.Refuses objects request error record ∧
      timed = ⟨.error error, start, record start⟩) ∨
    ∃ reply, service.Replies objects request reply ∧ timed.value = .ok reply := by
  obtain ⟨error, hrefuses, hexecute⟩ | ⟨document, operation, root, hread, hsubscribes | hselects⟩ :=
    request_cases service objects request
  · rw [hexecute, Job.done_eq_some_iff] at h
    exact .inl ⟨error, _, hrefuses, h⟩
  · rw [execute_of_read hread, hsubscribes.executeDocument_eq_some_iff] at h
    obtain ⟨first, hfirst, rfl⟩ := h
    obtain ⟨result, record, hbegins, rfl⟩ := Context.begins_of_subscribe hfirst
    cases result with
    | error error => exact .inl ⟨_, record, .subscription hread hsubscribes hbegins, rfl⟩
    | ok stream => exact .inr ⟨_, .stream hread hsubscribes hbegins, rfl⟩
  · rw [execute_of_read hread, hselects.executeDocument, Job.map_eq_some_iff] at h
    obtain ⟨first, -, rfl⟩ := h
    exact .inr ⟨_, .response hread hselects rfl, rfl⟩

/-- A request that there is a reason to refuse is refused. -/
theorem Refuses.execute {error : RequestError} {record : Nat → List Occurrence}
    (h : service.Refuses objects request error record) :
    ∃ bound, ∀ more ≥ bound, ∀ start,
      service.execute objects more request start = some ⟨.error error, start, record start⟩ := by
  cases h with
  | document hunreadable =>
    have hread := ExecutableDocument.read_eq_error_iff.mpr hunreadable
    refine ⟨0, fun more _ start => ?_⟩
    rw [Service.execute, readDocument, hread]
    rfl
  | operation hread hunpicked =>
    refine ⟨0, fun more _ start => ?_⟩
    rw [execute_of_read hread, executeDocument,
      ExecutableDocument.operation_eq_error_iff.mpr hunpicked]
    rfl
  | unsupported hread hpicked hserved =>
    refine ⟨0, fun more _ start => ?_⟩
    rw [execute_of_read hread, executeDocument, hpicked]
    simp only [hserved]
    rfl
  | subscription hread hsubscribes hbegins =>
    obtain ⟨bound, hsubscribe⟩ := hbegins.subscribe
    refine ⟨bound, fun more hle start => ?_⟩
    rw [execute_of_read hread, hsubscribes.executeDocument_eq_some_iff]
    exact ⟨_, hsubscribe more hle start, rfl⟩

theorem Refuses.yields {error : RequestError} {record : Nat → List Occurrence}
    (h : service.Refuses objects request error record) :
    service.Yields objects request (.error error) := by
  obtain ⟨bound, h⟩ := h.execute
  exact ⟨bound, fun more hle start => congrArg (Option.map Timed.value) (h more hle start)⟩

/-- A subscription that can start yields its stream. -/
theorem Subscribes.yields {stream : ResponseStream ref} {record : Nat → List Occurrence}
    (hread : service.readDocument request.query = .ok document)
    (hsubscribes : service.Subscribes document request.operationName operation root)
    (hbegins : (service.context objects document (operation.complete request.bindings)).Begins root
      operation.selections (.ok stream) record) :
    service.Yields objects request (.ok (.stream stream)) := by
  obtain ⟨bound, hsubscribe⟩ := hbegins.subscribe
  refine ⟨bound, fun more hle start => ?_⟩
  have hrun := hsubscribes.executeDocument_eq_some_iff.mpr ⟨_, hsubscribe more hle start, rfl⟩
  rw [execute_of_read hread, hrun]
  rfl

/-- A response that comes once comes with all larger bounds and whenever it is asked for. -/
theorem Selects.yields {timed : Timed (Except RequestError (Reply ref))}
    (hread : service.readDocument request.query = .ok document)
    (hselects : service.Selects document request.operationName operation root)
    (h : service.execute objects bound request start = some timed) :
    service.Yields objects request timed.value := by
  rw [execute_of_read hread] at h
  have hvalue : (service.executeDocument objects bound document request.operationName
      request.bindings start).map Timed.value = _ := hselects.gives start
  rw [h] at hvalue
  obtain ⟨assembly, hassembly, hreply⟩ := Option.map_eq_some_iff.mp hvalue.symm
  refine ⟨bound, fun more hle start => ?_⟩
  -- A run may end at another time with another bound; what the reference gives stays.
  have hmore := Approximates.of_succ (fun bound => (InOrder.stays
    (service.context objects document (operation.complete request.bindings)).inOrder bound).fields
      root.timeless .root operation.selections) hle assembly hassembly
  rw [execute_of_read hread, hselects.gives start, hmore, Option.map_some, hreply]

/-- What a run comes to is what the request comes to. -/
theorem yields_of_execute {timed : Timed (Except RequestError (Reply ref))}
    (h : service.execute objects bound request start = some timed) :
    service.Yields objects request timed.value := by
  obtain ⟨error, record, hrefuses, rfl⟩ | ⟨reply, hreplies, hvalue⟩ := execute_cases h
  · exact hrefuses.yields
  · cases hreplies with
    | response hread hselects _ => exact hselects.yields hread h
    | stream hread hsubscribes hbegins => exact hvalue ▸ hsubscribes.yields hread hbegins

/-- There is a reason for what a request comes to. -/
theorem Yields.cases {outcome : Except RequestError (Reply ref)}
    (h : service.Yields objects request outcome) :
    (∃ error record, service.Refuses objects request error record ∧ outcome = .error error) ∨
    ∃ reply, service.Replies objects request reply ∧ outcome = .ok reply := by
  obtain ⟨bound, hgives⟩ := h
  obtain ⟨timed, hrun, rfl⟩ := Option.map_eq_some_iff.mp (hgives bound (Nat.le_refl bound) 0)
  obtain ⟨error, record, hrefuses, rfl⟩ | hreplies := execute_cases hrun
  · exact .inl ⟨error, record, hrefuses, rfl⟩
  · exact .inr hreplies

/-- A request comes to something if its variables are closed and, for a query or a mutation, no
    fragment leads back to itself from below a field. -/
theorem exists_yields (hclosed : request.bindings.Closed)
    (hgrounded : ∀ document operation root, service.readDocument request.query = .ok document →
      service.Selects document request.operationName operation root → document.fragments.Grounded) :
    ∃ outcome, service.Yields objects request outcome := by
  obtain ⟨error, hrefuses, -⟩ | ⟨document, operation, root, hread, hsubscribes | hselects⟩ :=
    request_cases service objects request
  · exact ⟨_, hrefuses.yields⟩
  · have hcomplete : (operation.complete request.bindings).Closed :=
      ExecutableDocument.closed_complete hread hsubscribes.picked hclosed
    obtain ⟨result, record, hbegins⟩ :=
      (service.context objects document (operation.complete request.bindings)).exists_begins
        hcomplete root operation.selections
    cases result with
    | error error => exact ⟨_, (Refuses.subscription hread hsubscribes hbegins).yields⟩
    | ok stream => exact ⟨_, hsubscribes.yields hread hbegins⟩
  · have hcomplete : (operation.complete request.bindings).Closed :=
      ExecutableDocument.closed_complete hread hselects.picked hclosed
    have hresponse : ∃ bound response, ∀ more ≥ bound,
        (service.executeDocument objects more document request.operationName
          request.bindings).Gives (some (.ok (.response response))) :=
      hselects.exists_response (hgrounded _ _ _ hread hselects) hcomplete
    obtain ⟨bound, response, hgives⟩ := hresponse
    refine ⟨.ok (.response response), bound, fun more hle => ?_⟩
    rw [execute_of_read hread]
    exact hgives more hle

/-- A query or mutation that the schema serves is not refused. -/
theorem Selects.not_refuses {error : RequestError} {record : Nat → List Occurrence}
    (hread : service.readDocument request.query = .ok document)
    (hselects : service.Selects document request.operationName operation root) :
    ¬ service.Refuses objects request error record := by
  intro h
  cases h with
  | document hunreadable =>
    cases hread.symm.trans (ExecutableDocument.read_eq_error_iff.mpr hunreadable)
  | operation hread' hunpicked =>
    cases hread.symm.trans hread'
    cases hselects.picked.symm.trans (ExecutableDocument.operation_eq_error_iff.mpr hunpicked)
  | unsupported hread' hpicked hserved =>
    cases hread.symm.trans hread'
    cases hselects.picked.symm.trans hpicked
    cases hselects.served.symm.trans hserved
  | subscription hread' hsubscribes _ =>
    cases hread.symm.trans hread'
    cases hselects.picked.symm.trans hsubscribes.picked
    exact hselects.kind_ne hsubscribes.kind_eq

end Service

/-- A stream of a single response gives the response at once and nothing else. -/
theorem ResponseStream.take_single (response : Response Error) (limit count start : Nat) :
    (single response : ResponseStream ref).take limit (count + 1) start =
      some ⟨[⟨response, start, []⟩], ⟨ended, start, []⟩⟩ := by
  rw [take]
  show Option.map _ ((ended : ResponseStream ref).take limit count start) = _
  rw [take_ended]
  rfl

/-- A request comes to an error exactly if there is a reason to refuse it. All others are answered
    as they should be, a query or mutation with data and a subscription with a stream, which has a
    single response if its field cannot be resolved. A request does come to something, and to one
    thing only, if its variables are closed and, for a query or mutation, no fragment leads back to
    itself from below a field. -/
theorem request_outcomes (service : Service ref) (objects : ref → ObjectType ref)
    (request : Request) :
    (∀ error, service.Yields objects request (.error error) ↔
      ∃ record, service.Refuses objects request error record) ∧
    (∀ reply, service.Yields objects request (.ok reply) →
      service.Replies objects request reply) ∧
    (∀ stream, service.Replies objects request (.stream stream) →
      service.Yields objects request (.ok (.stream stream))) ∧
    (∀ document operation root key collected error,
      service.readDocument request.query = .ok document →
      service.Subscribes document request.operationName operation root →
      service.rootFields objects document operation root request.bindings = [(key, collected)] →
      collected.field.name ≠ typenameField →
      (service.context objects document (operation.complete request.bindings)).Unresolved root
        collected.field error →
      ∃ response report, service.Yields objects request (.ok (.stream (.single response))) ∧
        response.data = some (.object [(key, .null)]) ∧ response.errors = [report] ∧
        report.path = some ⟨[.key key]⟩ ∧
        ∀ limit count start,
          (ResponseStream.single response : ResponseStream ref).take limit (count + 1) start =
            some ⟨[⟨response, start, []⟩], ⟨.ended, start, []⟩⟩) ∧
    (∀ bound start timed, service.execute objects bound request start = some timed →
      service.Yields objects request timed.value) ∧
    (request.bindings.Closed →
      (∀ document operation root, service.readDocument request.query = .ok document →
        service.Selects document request.operationName operation root →
        document.fragments.Grounded) →
      ∃! outcome, service.Yields objects request outcome) := by
  refine ⟨fun error => ⟨fun h => ?_, fun ⟨_, hrefuses⟩ => hrefuses.yields⟩, fun reply h => ?_,
    fun stream h => ?_, ?_, fun _ _ _ => Service.yields_of_execute, fun hclosed hgrounded => ?_⟩
  · obtain ⟨_, record, hrefuses, he⟩ | ⟨_, -, he⟩ := h.cases
    · cases he
      exact ⟨record, hrefuses⟩
    · cases he
  · obtain ⟨_, _, -, he⟩ | ⟨_, hreplies, he⟩ := h.cases
    · cases he
    · cases he
      exact hreplies
  · cases h with
    | stream hread hsubscribes hbegins => exact hsubscribes.yields hread hbegins
  · intro document operation root key collected error hread hsubscribes hcollect hname herror
    exact ⟨_, _, hsubscribes.yields hread (.unresolved hcollect hname herror), rfl, rfl, rfl,
      ResponseStream.take_single _⟩
  · obtain ⟨outcome, hyields⟩ := Service.exists_yields hclosed hgrounded
    exact ⟨outcome, hyields, fun _ hother => hother.unique hyields⟩

namespace Sample

/-- A service with these fields to subscribe to. -/
def lookout (fields : Entries (FieldDefinition Unit)) : Service Unit where
  schema := { query := mirror, subscription := some ⟨"Lookout", fields⟩ }

/-- A port, which tells its name at once and is no stream. -/
def port : FieldDefinition Unit := field .string (.ready none (.leaf (.string "Ceres")))

/-- Subscribes to a port. -/
def portRequest : Request where
  query := "subscription { port }"

/-- What is read of that. -/
def portDocument : ExecutableDocument where
  fragments := []
  operations := [⟨none, .subscription, [], [selectAt 16 "port" []]⟩]

theorem scan_port :
    Token.scan ({} : Configuration).parser.pieces portRequest.query =
      some (line [(.name "subscription", 1), (.braceL, 14), (.name "port", 16), (.braceR, 21)]) := by
  decide +kernel

theorem readDocument_port (fields : Entries (FieldDefinition Unit)) :
    (lookout fields).readDocument portRequest.query = .ok portDocument :=
  (ExecutableDocument.read_of_scan scan_port rfl).trans rfl

end Sample

/-- A glance is answered with data. A subscription to a port is answered with a null if there is
    none, and refused if there is one. -/
theorem request_outcomes_sample :
    (∃ response, Sample.mirrors.Yields (fun _ => Sample.mirror) Sample.glance
      (.ok (.response response)) ∧ response.data.isSome = true) ∧
    (∃ response, (Sample.lookout []).Yields (fun _ => Sample.mirror) Sample.portRequest
      (.ok (.stream (.single response))) ∧ response.data = some (.object [("port", .null)])) ∧
    (Sample.lookout [("port", Sample.port)]).Yields (fun _ => Sample.mirror) Sample.portRequest
      (.error (.subscription (.notAStream "port"))) := by
  refine ⟨?_, ?_, ?_⟩
  · obtain ⟨hrefused, hreplies, -, -, -, hanswered⟩ :=
      request_outcomes Sample.mirrors (fun _ => Sample.mirror) Sample.glance
    have hselects : Sample.mirrors.Selects Sample.glanceDocument Sample.glance.operationName _
        Sample.mirror := ⟨rfl, rfl, by decide⟩
    have hgrounded : ∀ document operation root,
        Sample.mirrors.readDocument Sample.glance.query = .ok document →
        Sample.mirrors.Selects document Sample.glance.operationName operation root →
        document.fragments.Grounded := fun document _ _ hread _ => by
      cases Sample.readDocument_glance.symm.trans hread
      exact Sample.grounded_glance
    obtain ⟨error | reply, hyields, -⟩ := hanswered nofun hgrounded
    · obtain ⟨record, hrefuses⟩ := (hrefused error).mp hyields
      exact absurd hrefuses (hselects.not_refuses Sample.readDocument_glance)
    · cases hreplies reply hyields with
      | response _ _ hdata => exact ⟨_, hyields, hdata⟩
      | stream hread hsubscribes _ =>
        cases Sample.readDocument_glance.symm.trans hread
        cases hselects.picked.symm.trans hsubscribes.picked
        cases hsubscribes.kind_eq
  · obtain ⟨-, -, -, hsingle, -, -⟩ :=
      request_outcomes (Sample.lookout []) (fun _ => Sample.mirror) Sample.portRequest
    obtain ⟨response, _, hyields, hdata, -⟩ := hsingle _ _ _ _ _ _
      (Sample.readDocument_port []) ⟨rfl, rfl, rfl⟩ rfl (by decide) (.undeclared rfl)
    exact ⟨response, hyields, hdata⟩
  · obtain ⟨-, -, -, -, hruns, -⟩ := request_outcomes (Sample.lookout [("port", Sample.port)])
      (fun _ => Sample.mirror) Sample.portRequest
    exact hruns 20 0 ⟨.error (.subscription (.notAStream "port")), 0, _⟩
      ((congrFun (Service.execute_of_read (Sample.readDocument_port _)) 0).trans rfl)

/-- A stare is a query that there is no reason to refuse, and it is never answered. -/
theorem stare_never_answered :
    (∀ error record, ¬ Sample.mirrors.Refuses (fun _ => Sample.mirror) Sample.stare error record) ∧
    (∃ document operation, Sample.mirrors.readDocument Sample.stare.query = .ok document ∧
      Sample.mirrors.Selects document Sample.stare.operationName operation Sample.mirror) ∧
    ∀ bound start,
      Sample.mirrors.execute (fun _ => Sample.mirror) bound Sample.stare start = none := by
  have hselects : Sample.mirrors.Selects Sample.stareDocument Sample.stare.operationName _
      Sample.mirror := ⟨rfl, rfl, by decide⟩
  refine ⟨fun _ _ => hselects.not_refuses Sample.readDocument_stare,
    ⟨_, _, Sample.readDocument_stare, hselects⟩, fun bound start => ?_⟩
  rw [Service.execute_of_read Sample.readDocument_stare]
  exact Option.map_eq_none_iff.mp ((hselects.gives start).trans
    (congrArg (Option.map _) (staring_unfinished bound .root)))

/-! ## Before a refusal -/

/-- No time passes until a request is refused, no effect runs and nothing is pulled. Either nothing
    is noted at all, or the request is a subscription to a field that is no stream: then its resolver
    has been called, once, with the coerced arguments, because only its answer tells. -/
theorem refusals_before_execution {service : Service ref} {objects : ref → ObjectType ref}
    {request : Request} {bound start finish : Nat} {error : RequestError}
    {noted : List Occurrence}
    (h : service.execute objects bound request start = some ⟨.error error, finish, noted⟩) :
    finish = start ∧ (∀ o ∈ noted, o.isPull = false) ∧
    (noted = [] ∨ ∃ document operation root key collected called,
      service.readDocument request.query = .ok document ∧
      service.Subscribes document request.operationName operation root ∧
      service.rootFields objects document operation root request.bindings = [(key, collected)] ∧
      (service.context objects document (operation.complete request.bindings)).Resolves root
        collected.field called ∧
      (∀ source, called.node ≠ .stream source) ∧
      error = .subscription (.notAStream collected.field.name) ∧
      activities noted =
        [.call (Path.root.join (.key key)) collected.field.name called.arguments]) := by
  obtain ⟨_, record, hrefuses, hrun⟩ | ⟨_, -, hreply⟩ := Service.execute_cases h
  · cases hrun
    cases hrefuses with
    | subscription hread hsubscribes hbegins =>
      obtain hempty | ⟨key, collected, called, hcollect, hresolves, hnode, rfl, hnoted⟩ :=
        hbegins.noted start
      · rw [hempty]
        exact ⟨rfl, nofun, .inl rfl⟩
      · rw [hnoted]
        refine ⟨rfl, fun o ho => ?_, .inr ⟨_, _, _, key, collected, called, hread, hsubscribes,
          hcollect, hresolves, hnode, rfl, ?_⟩⟩
        · exact Context.isPull_of_mem_call_release ho
        · rw [activities_append, activities_callRecord]
          rfl
    | _ => exact ⟨rfl, nofun, .inl rfl⟩
  · cases hreply

/-- A subscription to a port is refused at once and after one call. -/
theorem refusals_before_execution_port :
    ∃ noted, (Sample.lookout [("port", Sample.port)]).execute (fun _ => Sample.mirror) 20
        Sample.portRequest 7 = some ⟨.error (.subscription (.notAStream "port")), 7, noted⟩ ∧
      (∀ o ∈ noted, o.isPull = false) ∧
      ∃ path arguments, activities noted = [.call path "port" arguments] := by
  have hrun : (Sample.lookout [("port", Sample.port)]).execute (fun _ => Sample.mirror) 20
      Sample.portRequest 7 = some ⟨.error (.subscription (.notAStream "port")), 7, _⟩ :=
    (congrFun (Service.execute_of_read (Sample.readDocument_port _)) 7).trans rfl
  obtain ⟨-, hpulls, hnone | ⟨_, _, _, key, collected, called, -, -, -, -, -, herror, hcalls⟩⟩ :=
    refusals_before_execution hrun
  · cases hnone
  · have hname : collected.field.name = "port" := by simpa using herror.symm
    rw [hname] at hcalls
    exact ⟨_, hrun, hpulls, _, _, hcalls⟩

/-- The resolver of a port has been called when the subscription to it is refused. -/
theorem refused_after_call :
    ∃ finish noted, (Sample.lookout [("port", Sample.port)]).execute (fun _ => Sample.mirror) 20
        Sample.portRequest 0 = some ⟨.error (.subscription (.notAStream "port")), finish, noted⟩ ∧
      activities noted = [.call (Path.root.join (.key "port")) "port" []] :=
  ⟨0, _, (congrFun (Service.execute_of_read (Sample.readDocument_port _)) 0).trans rfl, rfl⟩

end GraphQL

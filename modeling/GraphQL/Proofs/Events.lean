import GraphQL.Proofs.Subscriptions

/-!
# Events as query fields

A subscription completes an event by itself and not as part of its root object. It still gives what
a query would: replace the stream field by one that holds the event (`ObjectType.returning`), let
the root object answer queries (`Service.queriedAt`), and run the same operation as a query
(`ExecutableDocument.queries`).

Both ways complete the event at the same path and with the same selections; that is all the
evaluation in order reads (`Subscription.evaluate`), so nothing else has to be compared.

Results:
* `Subscription.gives_complete`: an event is answered as the evaluation in order says, at any time.
* `Subscription.Starts.gives_query`: the query gives the same outcome under the same key.
* `events_as_query_fields`: both for the subscriptions of a document, together with events that
  failed and the place of responses in the stream.
-/

namespace GraphQL

variable {ref : Type}

/-! ## Replacing a field -/

/-- The resolver that takes the same arguments and answers with one node whatever they are. -/
def Resolver.returning (resolver : Resolver ref) (node : Node ref) : Resolver ref :=
  match resolver with
  | .single argument _ => .single argument fun _ => node
  | .named arguments _ => .named arguments fun _ => node

/-- The field with such a resolver. -/
def FieldDefinition.returning (definition : FieldDefinition ref) (node : Node ref) :
    FieldDefinition ref :=
  { definition with resolver := definition.resolver.returning node }

/-- The object type with such a resolver for one of its fields. -/
def ObjectType.returning (object : ObjectType ref) (name : String) (node : Node ref) :
    ObjectType ref :=
  { object with fields := List.map (fun entry =>
      (entry.1, if entry.1 = name then entry.2.returning node else entry.2)) object.fields }

/-- The service that answers queries at the given root object. -/
def Service.queriedAt (service : Service ref) (root : ObjectType ref) : Service ref :=
  { service with schema := { service.schema with query := root } }

/-- The document with queries in place of all operations. -/
def ExecutableDocument.queries (document : ExecutableDocument) : ExecutableDocument :=
  { document with operations := document.operations.map fun operation =>
      { operation with kind := .query } }

@[simp] theorem Resolver.arguments_returning (resolver : Resolver ref) (node : Node ref) :
    (resolver.returning node).arguments = resolver.arguments := by
  cases resolver <;> rfl

@[simp] theorem Resolver.call_returning (resolver : Resolver ref) (node : Node ref)
    (arguments : Fields) : (resolver.returning node).call arguments = node := by
  cases resolver <;> rfl

theorem ObjectType.field?_returning (object : ObjectType ref) (name : String) (node : Node ref) :
    (object.returning name node).field? name =
      (object.field? name).map fun definition => definition.returning node := by
  have h := Entries.find?_map (fun key (definition : FieldDefinition ref) =>
    if key = name then definition.returning node else definition) object.fields name
  simpa [field?, returning] using h

/-- The name still selects the same operation, now as a query. -/
theorem ExecutableDocument.operation_queries {document : ExecutableDocument} {name : Option String}
    {operation : Operation} (h : document.operation name = .ok operation) :
    document.queries.operation name = .ok { operation with kind := .query } := by
  unfold ExecutableDocument.operation queries at *
  cases name with
  | some name =>
    simp only [List.find?_map, Function.comp_def] at h ⊢
    cases hfind : document.operations.find? (·.name = some name) with
    | none => simp [hfind] at h
    | some found => simp_all
  | none =>
    rcases hoperations : document.operations with _ | ⟨first, _ | ⟨second, others⟩⟩
    · simp [hoperations] at h
    · simp_all
    · simp [hoperations] at h

/-- The call that a resolver was made with is made again, and now answers with the node. -/
theorem Context.resolve_returning {context : Context ref} {bound more : Nat}
    {object : ObjectType ref} {field : Field} {called : ResolvedField ref}
    (h : (context.resolve bound object field).run = some (.ok called)) (hle : bound ≤ more)
    (node : Node ref) :
    (context.resolve more (object.returning field.name node) field).run =
      some (.ok { called with node }) := by
  obtain ⟨definition, arguments, hdefinition, harguments, rfl⟩ := resolve_eq_ok_iff.mp h
  refine resolve_eq_ok_iff.mpr ⟨definition.returning node, arguments, ?_, ?_, ?_⟩
  · rw [ObjectType.field?_returning, hdefinition, Option.map_some]
  · simpa [FieldDefinition.returning] using coerceArguments_le _ field hle _ harguments
  · simp [FieldDefinition.returning]

/-! ## The outcome of an event -/

namespace Subscription

variable {subscription : Subscription ref} {bound limit : Nat}

/-- What a value of the stream comes to when time is left aside. -/
def evaluate (subscription : Subscription ref) (bound : Nat) (value : Resolved ref) :
    Option Outcome :=
  subscription.context.inOrder.completeSettled bound subscription.type value.settle
    subscription.collected subscription.path

/-- A field that failed has no value. -/
theorem value_eq_null_of_evaluate {value : Resolved ref} {outcome : Outcome}
    (h : subscription.evaluate bound value = some outcome) (hfailed : outcome.failed = true) :
    outcome.value = .null := by
  unfold evaluate at h
  cases bound with
  | zero => cases h
  | succ bound =>
    cases value with
    | leaf value =>
      simp only [Resolved.settle, InOrder.completeSettled] at h
      split at h <;> cases h <;> cases hfailed
    | object reference =>
      simp only [Resolved.settle, InOrder.completeSettled] at h
      split at h
      · obtain ⟨_, -, rfl⟩ := Option.map_eq_some_iff.mp h
        cases hfailed
      · cases h
        rfl
    | list items =>
      obtain ⟨_, -, rfl⟩ := Option.map_eq_some_iff.mp h
      cases hfailed

/-- Whenever a value of the stream is pulled, it is answered with what it comes to. -/
theorem gives_complete (subscription : Subscription ref) (bound : Nat) (value : Resolved ref) :
    (subscription.complete bound (.ok value)).Gives
      ((subscription.evaluate bound value).map fun outcome => outcome.response subscription.key) :=
  ((subscription.context.gives_inOrder bound).value subscription.type value subscription.collected
    subscription.path).map fun outcome : Outcome => outcome.response subscription.key

/-- An item that failed is answered with its failure, at once. -/
theorem gives_complete_error (subscription : Subscription ref) (bound : Nat) (cause : String) :
    (subscription.complete bound (.error cause)).Gives
      (some ⟨some (.object [(subscription.key, .null)]),
        [(FieldError.effectFailed cause).report subscription.path
          subscription.collected.field.location], []⟩) :=
  (Job.Gives.done (Outcome.failure (.effectFailed cause) subscription.collected.field
    subscription.path)).map fun outcome : Outcome => outcome.response subscription.key

/-- Below an object that holds the value, the evaluation in order comes to the same. -/
theorem Starts.evaluateFields_returning {context : Context ref} {root : ObjectType ref}
    {selections : List Selection} {called : ResolvedField ref}
    (h : subscription.Starts context bound root selections called) (hle : bound ≤ limit)
    (value : Resolved ref) :
    context.inOrder.evaluateFields (limit + 3)
        (root.returning subscription.collected.field.name (.ready none value)).timeless .root
        selections =
      (subscription.evaluate limit value).map (({} : Assembly).add subscription.key) := by
  have hscope : context.inOrder.scope
      (some (root.returning subscription.collected.field.name (.ready none value)).timeless.name) =
        context.scope (some root.name) := rfl
  have hresolve := context.resolve_inOrder (limit + 1)
    (root.returning subscription.collected.field.name (.ready none value))
    subscription.collected.field
  rw [Context.resolve_returning h.resolve_eq (Nat.le_succ_of_le hle), Option.map_some]
    at hresolve
  rw [InOrder.evaluateFields, hscope, h.collect_eq, List.foldlM_cons]
  simp only [List.foldlM_nil, bind_pure]
  simp only [InOrder.evaluateField, h.name_ne, ite_false, hresolve, Except.map,
    InOrder.completeAnswer, Node.answer, ← h.type_eq]
  rw [evaluate, h.context_eq]
  rfl

end Subscription

/-- The response of an object with one field. -/
theorem Assembly.response_add (key : String) (outcome : Outcome) :
    (({} : Assembly).add key outcome).response =
      ⟨some (if outcome.failed then .null else .object [(key, outcome.value)]), outcome.errors,
        []⟩ := by
  cases hfailed : outcome.failed <;> simp [Assembly.response, Assembly.add, Entries.put, hfailed]

/-- The query gives what the event comes to, under the same key. -/
theorem Subscription.Starts.gives_query {service : Service ref} {objects : ref → ObjectType ref}
    {bound limit : Nat} {document : ExecutableDocument} {name : Option String}
    {bindings : Variables} {operation : Operation} {root : ObjectType ref}
    {subscription : Subscription ref} {called : ResolvedField ref}
    (h : subscription.Starts (service.context objects document (operation.complete bindings)) bound
      root operation.selections called)
    (hpicked : document.operation name = .ok operation) (hle : bound ≤ limit)
    (value : Resolved ref) :
    ((service.queriedAt
        (root.returning subscription.collected.field.name (.ready none value))).executeDocument
          objects (limit + 3) document.queries name bindings).Gives
      ((subscription.evaluate limit value).map fun outcome => .ok (.response
        ⟨some (if outcome.failed then .null else .object [(subscription.key, outcome.value)]),
          outcome.errors, []⟩)) := by
  have hselects : (service.queriedAt
      (root.returning subscription.collected.field.name (.ready none value))).Selects
        document.queries name { operation with kind := .query }
        (root.returning subscription.collected.field.name (.ready none value)) :=
    ⟨ExecutableDocument.operation_queries hpicked, rfl, by simp⟩
  -- Apart from its root object, the query reads what the subscription reads.
  have hevaluate := h.evaluateFields_returning hle value
  intro start
  refine (hselects.gives start).trans ((congrArg (Option.map _) hevaluate).trans ?_)
  rw [Option.map_map]
  congr 1
  funext outcome
  simp [Assembly.response_add]

/-! ## The responses to events -/

/-- What answers an item does not depend on when that is done. -/
theorem Subscription.gives_of_complete {subscription : Subscription ref} {bound time : Nat}
    {outcome : Except String (Resolved ref)} {completed : Timed (Response Error)}
    (h : subscription.complete bound outcome time = some completed) :
    (subscription.complete bound outcome).Gives (some completed.value) := by
  have hgives : ∃ answer, (subscription.complete bound outcome).Gives answer := by
    cases outcome with
    | ok value => exact ⟨_, subscription.gives_complete bound value⟩
    | error cause => exact ⟨_, subscription.gives_complete_error bound cause⟩
  obtain ⟨answer, hanswer⟩ := hgives
  have htime := hanswer time
  rw [h, Option.map_some] at htime
  rwa [htime]

/-- The response at a position of a stream answers the item that is due there. -/
theorem ResponseStream.gives_of_take {subscription : Subscription ref} {source : Source ref}
    {bound count asked : Nat} {taken : Taken ref}
    (h : (live subscription source).take bound count asked = some taken) {position : Nat}
    {response : Timed (Response Error)} (hresponse : taken.responses[position]? = some response) :
    ∃ item, source.Due position item ∧
      (subscription.complete bound item.outcome).Gives (some response.value) := by
  obtain ⟨_, -, hcourse⟩ := course h
  obtain ⟨items, hitems, hturn⟩ := hcourse.answered
  obtain ⟨item, begun, hitem, hanswers⟩ := hturn.exists_of_getElem? hresponse
  obtain ⟨completed, hcompleted, hvalue, -⟩ := hanswers.completed
  refine ⟨item, ((hitems position item).mp hitem).2, ?_⟩
  rw [hvalue]
  exact Subscription.gives_of_complete hcompleted

/-- A subscription of a document selects one root field. A value of its stream is answered with the
    outcome that the field has in the same operation as a query, on the same root object with the
    value in place of the stream; only the query shows nothing at all if the field fails. An item
    that failed is answered with its failure and nothing else. What a stream gives at a position is
    the answer to the item there, whatever source the item is from, whatever came before it and
    whenever it is asked for. -/
theorem events_as_query_fields {service : Service ref} {objects : ref → ObjectType ref}
    {bound begun start : Nat} {document : ExecutableDocument} {name : Option String}
    {bindings : Variables} {subscription : Subscription ref} {source : Source ref}
    {opening : List Occurrence}
    (h : service.executeDocument objects bound document name bindings begun =
      some ⟨.ok (.stream (.live subscription source)), start, opening⟩) :
    ∃ operation root, document.operation name = .ok operation ∧
      service.schema.subscription = some root ∧
      service.rootFields objects document operation root bindings =
        [(subscription.key, subscription.collected)] ∧
      (∀ limit ≥ bound, ∀ value : Resolved ref, ∃ outcome : Option Outcome,
        (subscription.complete limit (.ok value)).Gives (outcome.map fun outcome =>
          ⟨some (.object [(subscription.key, outcome.value)]), outcome.errors, []⟩) ∧
        ((service.queriedAt (root.returning subscription.collected.field.name
            (.ready none value))).executeDocument objects (limit + 3) document.queries name
              bindings).Gives (outcome.map fun outcome => .ok (.response
          ⟨some (if outcome.failed then .null else .object [(subscription.key, outcome.value)]),
            outcome.errors, []⟩)) ∧
        ∀ found, outcome = some found → found.failed = true → found.value = .null) ∧
      (∀ limit cause, ∃ error : Error,
        (subscription.complete limit (.error cause)).Gives
          (some ⟨some (.object [(subscription.key, .null)]), [error], []⟩) ∧
        error.code? = some "EFFECT_FAILURE" ∧
        error.path = some (Path.root.join (.key subscription.key))) ∧
      ∀ (limit count asked : Nat) (other : Source ref) (taken : ResponseStream.Taken ref),
        (ResponseStream.live subscription other).take limit count asked = some taken →
        ∀ (position : Nat) (response : Timed (Response Error)),
          taken.responses[position]? = some response →
          ∃ item, other.Due position item ∧
            (subscription.complete limit item.outcome).Gives (some response.value) := by
  obtain ⟨operation, root, hpicked, hroot, hsubscribe⟩ :=
    Service.subscribe_of_executeDocument_eq_stream h
  obtain ⟨called, hstarts, -⟩ := Context.subscribe_starts hsubscribe
  refine ⟨operation, root, hpicked, hroot, hstarts.collect_eq, fun limit hle value => ?_,
    fun limit cause => ?_, fun limit count asked other taken htake position response hresponse =>
      ResponseStream.gives_of_take htake hresponse⟩
  · exact ⟨subscription.evaluate limit value, subscription.gives_complete limit value,
      hstarts.gives_query hpicked hle value,
      fun found hfound => Subscription.value_eq_null_of_evaluate hfound⟩
  · exact ⟨_, subscription.gives_complete_error limit cause, by rfl, by rfl⟩

/-! ## A watch -/

namespace Sample

/-- Two ships that come in sight one after the other, a failure, and a ship that is never seen. -/
def sightings : Source Unit := .prepared [
  ⟨3, .ok (.object ())⟩, ⟨1, .ok (.list [.ready none (.object ()), .stream (.prepared [])])⟩,
  ⟨0, .error "fog"⟩, ⟨2, .ok (.object ())⟩]

/-- A service that tells of ships in sight. -/
def watch : Service Unit where
  schema := {
    query := root 0
    subscription := some ⟨"Watch", [("ships", field (.named "Ship") (.stream sightings))]⟩ }

/-- Asks for the names of the ships and, in a fragment, for their fuel under the same key. -/
def watching : ExecutableDocument where
  fragments := [("Fuel", ⟨"Watch", [.field ⟨some "seen", "ships", [],
    [select "fuel" []], true, {}, ⟨2, 1⟩⟩]⟩)]
  operations := [⟨none, .subscription, [], [.field ⟨some "seen", "ships", [],
    [select "name" []], true, {}, ⟨1, 1⟩⟩, .spread "Fuel" {}]⟩]

end Sample

/-- A ship in sight is shown with what the field and the fragment ask for, in an event and in a
    query. -/
theorem events_as_query_fields_watch :
    ∃ (subscription : Subscription Unit) (opening : List Occurrence) (ship : Outcome),
      Sample.watch.executeDocument (fun _ => Sample.ship 2) 20 Sample.watching none [] 0 =
        some ⟨.ok (.stream (.live subscription Sample.sightings)), 0, opening⟩ ∧
      ship.value = .object [("name", .string "Rocinante"), ("fuel", .null)] ∧
      (subscription.complete 20 (.ok (.object ()))).Gives
        (some ⟨some (.object [("seen", ship.value)]), ship.errors, []⟩) ∧
      ∃ root, Sample.watch.schema.subscription = some root ∧
        ((Sample.watch.queriedAt (root.returning "ships"
          (.ready none (.object ())))).executeDocument (fun _ => Sample.ship 2) 23
            Sample.watching.queries none []).Gives
          (some (.ok (.response ⟨some (.object [("seen", ship.value)]), ship.errors, []⟩))) := by
  have h : Sample.watch.executeDocument (fun _ => Sample.ship 2) 20 Sample.watching none [] 0 =
    some ⟨.ok (.stream (.live _ Sample.sightings)), 0, _⟩ := rfl
  obtain ⟨_, root, -, hroot, -, hvalues, -, -⟩ := events_as_query_fields h
  obtain ⟨outcome, hevent, hquery, hnull⟩ := hvalues 20 (Nat.le_refl 20) (.object ())
  have hshown := (hevent 0).symm
  cases outcome with
  | none => exact absurd (congrArg Option.isSome hshown) (by decide +kernel)
  | some ship =>
    have hvalue : ship.value = .object [("name", .string "Rocinante"), ("fuel", .null)] := by
      have hdata : some (Value.object [("seen", ship.value)]) = some (.object [("seen",
          .object [("name", .string "Rocinante"), ("fuel", .null)])]) :=
        congrArg (Option.bind · Response.data) hshown
      simpa using hdata
    have hfailed : ship.failed = false := by
      cases hf : ship.failed with
      | false => rfl
      | true => rw [hnull ship rfl hf] at hvalue; cases hvalue
    rw [Option.map_some, hfailed] at hquery
    exact ⟨_, _, ship, h, hvalue, hevent, root, hroot, hquery⟩

end GraphQL

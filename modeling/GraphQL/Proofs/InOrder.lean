import GraphQL.Proofs.Bounds
import GraphQL.Service

/-!
# Evaluation in order

A reference for responses. It goes through the fields of an object and the items of a list one after
the other and puts the results together on the way (`Assembly`). Time is taken out of what it works
on: an `Answer` says what a node comes to, not when, and has no labels. There are no windows either.

Results:
* `Schema.root_timeless`: taking time out of a schema keeps its root objects.
* `InOrder.execute_le`: a larger bound keeps what an operation is evaluated to.
-/

namespace GraphQL

variable {ref : Type}

/-! ## Answers -/

mutual

/-- What a resolver answers, time left aside. -/
inductive Answer (ref : Type) where
  | value (value : Settled ref)
  | failed (cause : String)
  | stream

/-- The value of a resolved field, time left aside. -/
inductive Settled (ref : Type) where
  | leaf (value : Value)
  | object (type : ref)
  | list (items : List (Answer ref))

end

mutual

/-- What a node comes to. -/
def Node.answer : Node ref → Answer ref
  | .ready _ value => .value value.settle
  | .effect _ _ (.ok value) => .value value.settle
  | .effect _ _ (.error cause) => .failed cause
  | .stream _ => .stream

/-- What a resolved value comes to. -/
def Resolved.settle : Resolved ref → Settled ref
  | .leaf value => .leaf value
  | .object type => .object type
  | .list items => .list (Node.answers items)

/-- What the items of a list come to. -/
def Node.answers : List (Node ref) → List (Answer ref)
  | [] => []
  | node :: rest => node.answer :: Node.answers rest

end

theorem Node.answers_eq_map (items : List (Node ref)) :
    Node.answers items = items.map Node.answer := by
  induction items with
  | nil => rfl
  | cons node rest ih => rw [Node.answers, ih, List.map_cons]

/-! ## Schemas -/

/-- A field whose resolver takes no time. -/
structure TimelessField (ref : Type) where
  type : TypeRef
  arguments : List Argument
  resolve : Fields → Answer ref

/-- An object type whose resolvers take no time. -/
structure TimelessObject (ref : Type) where
  name : String
  fields : Entries (TimelessField ref)

/-- A schema whose resolvers take no time. -/
structure TimelessSchema (ref : Type) where
  query : TimelessObject ref
  mutation : Option (TimelessObject ref)
  subscription : Option (TimelessObject ref)
  types : Types

/-- Takes time out of a field. -/
def FieldDefinition.timeless (definition : FieldDefinition ref) : TimelessField ref where
  type := definition.type
  arguments := definition.resolver.arguments
  resolve arguments := (definition.resolver.call arguments).answer

/-- Takes time out of an object type. -/
def ObjectType.timeless (object : ObjectType ref) : TimelessObject ref where
  name := object.name
  fields := Entries.mapValues FieldDefinition.timeless object.fields

/-- Takes time out of a schema. -/
def Schema.timeless (schema : Schema ref) : TimelessSchema ref where
  query := schema.query.timeless
  mutation := schema.mutation.map ObjectType.timeless
  subscription := schema.subscription.map ObjectType.timeless
  types := schema.types

/-- The root object for a kind of operation. -/
def TimelessSchema.root (schema : TimelessSchema ref) :
    OperationKind → Option (TimelessObject ref)
  | .query => some schema.query
  | .mutation => schema.mutation
  | .subscription => schema.subscription

theorem Schema.root_timeless (schema : Schema ref) (kind : OperationKind) :
    schema.timeless.root kind = (schema.root kind).map ObjectType.timeless := by
  cases kind <;> rfl

/-! ## The reference -/

/-- What has been put together of an object so far. -/
structure Assembly where
  object : Fields := []
  errors : List Error := []
  /-- How many of the fields failed. -/
  failed : Nat := 0

/-- Adds the next field. -/
def Assembly.add (assembly : Assembly) (key : String) (outcome : Outcome) : Assembly where
  object := Entries.put assembly.object key outcome.value
  errors := assembly.errors ++ outcome.errors
  failed := assembly.failed + if outcome.failed then 1 else 0

/-- The response of a root object: nothing is shown when every field failed. -/
def Assembly.response (assembly : Assembly) : Response Error where
  data := some
    (if 0 < assembly.failed ∧ assembly.failed = assembly.object.length then .null
    else .object assembly.object)
  errors := assembly.errors

/-- What an evaluation reads from. -/
structure InOrder (ref : Type) where
  objects : ref → TimelessObject ref
  types : Types
  fragments : Fragments
  bindings : Variables

namespace InOrder

/-- What collects the fields of an object of the given type. -/
def scope (reference : InOrder ref) (runtime : Option String) : Collection.Scope :=
  ⟨reference.types, reference.fragments, reference.bindings, runtime⟩

/-- Looks up a field, coerces its arguments and asks its resolver. -/
def resolve (reference : InOrder ref) (bound : Nat) (object : TimelessObject ref) (field : Field) :
    Option (Except FieldError (TypeRef × Answer ref)) :=
  match Entries.find? object.fields field.name with
  | none => some (.error (.unknownField field.name object.name))
  | some definition =>
    match (coerceArguments reference.types reference.bindings bound definition.arguments field).run
      with
    | none => none
    | some (.error (argument, reason)) => some (.error (.invalidArgument argument reason))
    | some (.ok arguments) => some (.ok (definition.type, definition.resolve arguments))

mutual

/-- Completes a value. -/
def completeSettled (reference : InOrder ref) :
    Nat → TypeRef → Settled ref → CollectedField → Path → Option Outcome
  | 0, _, _, _, _ => none
  | bound + 1, type, value, collected, path =>
    match value with
    | .leaf value =>
      if collected.isComposite then
        let picked := Record.pick (reference.scope none) value type.innerName?
          collected.selections path
        some ⟨picked.value, picked.errors, false⟩
      else some ⟨completeLeaf reference.types type value, [], false⟩
    | .object type =>
      let object := reference.objects type
      if collected.isComposite then
        (evaluateFields reference bound object path collected.selections).map fun assembly =>
          ⟨.object assembly.object, assembly.errors, false⟩
      else
        some (.failure (.missingSelection collected.field.name object.name) collected.field path)
    | .list items =>
      (items.zipIdx.foldlM (fun (done : List Value × List Error) entry =>
        (completeAnswer reference bound (type.itemType?.getD type) entry.1 collected
          (path.join (.index entry.2))).map fun outcome =>
            (done.1 ++ [outcome.value], done.2 ++ outcome.errors)) ([], [])).map fun done =>
              ⟨.list done.1, done.2, false⟩

/-- Completes what a resolver answered. -/
def completeAnswer (reference : InOrder ref) :
    Nat → TypeRef → Answer ref → CollectedField → Path → Option Outcome
  | 0, _, _, _, _ => none
  | bound + 1, type, answer, collected, path =>
    match answer with
    | .value value => completeSettled reference bound type value collected path
    | .failed cause => some (.failure (.effectFailed cause) collected.field path)
    | .stream => some (.failure (.streamNotAllowed collected.field.name) collected.field path)

/-- Evaluates one field of an object. -/
def evaluateField (reference : InOrder ref) :
    Nat → TimelessObject ref → CollectedField → Path → Option Outcome
  | 0, _, _, _ => none
  | bound + 1, object, collected, path =>
    if collected.field.name = typenameField then some ⟨.string object.name, [], false⟩
    else
      match reference.resolve bound object collected.field with
      | none => none
      | some (.error error) => some (.failure error collected.field path)
      | some (.ok (type, answer)) => completeAnswer reference bound type answer collected path

/-- Evaluates the selected fields of an object one after the other. -/
def evaluateFields (reference : InOrder ref) :
    Nat → TimelessObject ref → Path → List Selection → Option Assembly
  | 0, _, _, _ => none
  | bound + 1, object, path, selections =>
    (collect (reference.scope (some object.name)) selections).foldlM (fun assembly entry =>
      (evaluateField reference bound object entry.2 (path.join (.key entry.1))).map
        (assembly.add entry.1)) {}

end

/-- Evaluates an operation of a document. -/
def execute (schema : TimelessSchema ref) (objects : ref → TimelessObject ref) (bound : Nat)
    (document : ExecutableDocument) (name : Option String) (bindings : Variables) :
    Option (Except RequestError (Response Error)) :=
  match document.operation name with
  | .error error => some (.error (.operation error))
  | .ok operation =>
    match schema.root operation.kind with
    | none => some (.error (.operation (.unsupported operation.kind)))
    | some root =>
      let reference : InOrder ref :=
        ⟨objects, schema.types, document.fragments, operation.complete bindings⟩
      (reference.evaluateFields bound root .root operation.selections).map fun assembly =>
        .ok assembly.response

end InOrder

/-! ## Larger bounds -/

namespace InOrder

variable {reference : InOrder ref} {bound more : Nat}

theorem resolve_succ (object : TimelessObject ref) (field : Field) :
    Approximates (reference.resolve bound object field)
      (reference.resolve (bound + 1) object field) := by
  intro answer h
  unfold resolve at h ⊢
  cases hd : Entries.find? object.fields field.name with
  | none => rw [hd] at h; exact h
  | some definition =>
    rw [hd] at h
    dsimp only at h ⊢
    cases hc : (coerceArguments reference.types reference.bindings bound definition.arguments
        field).run with
    | none => rw [hc] at h; cases h
    | some result =>
      rw [coerceArguments_le definition.arguments field (Nat.le_succ bound) result hc]
      rwa [hc] at h

/-- One more level keeps all answers. -/
structure Stays (reference : InOrder ref) (bound : Nat) : Prop where
  settled (type : TypeRef) (value : Settled ref) (collected : CollectedField) (path : Path) :
    Approximates (reference.completeSettled bound type value collected path)
      (reference.completeSettled (bound + 1) type value collected path)
  answer (type : TypeRef) (answer : Answer ref) (collected : CollectedField) (path : Path) :
    Approximates (reference.completeAnswer bound type answer collected path)
      (reference.completeAnswer (bound + 1) type answer collected path)
  field (object : TimelessObject ref) (collected : CollectedField) (path : Path) :
    Approximates (reference.evaluateField bound object collected path)
      (reference.evaluateField (bound + 1) object collected path)
  fields (object : TimelessObject ref) (path : Path) (selections : List Selection) :
    Approximates (reference.evaluateFields bound object path selections)
      (reference.evaluateFields (bound + 1) object path selections)

theorem settled_stays_succ (below : reference.Stays bound) (type : TypeRef) (value : Settled ref)
    (collected : CollectedField) (path : Path) :
    Approximates (reference.completeSettled (bound + 1) type value collected path)
      (reference.completeSettled (bound + 1 + 1) type value collected path) := by
  cases value with
  | leaf value => exact .refl _
  | object type =>
    rw [completeSettled, completeSettled]
    split
    · exact (below.fields _ path collected.selections).map _
    · exact .refl _
  | list items =>
    rw [completeSettled, completeSettled]
    refine (Approximates.foldlM (fun done entry => ?_) _ _).map _
    exact (below.answer _ entry.1 collected _).map _

theorem answer_stays_succ (below : reference.Stays bound) (type : TypeRef) (answer : Answer ref)
    (collected : CollectedField) (path : Path) :
    Approximates (reference.completeAnswer (bound + 1) type answer collected path)
      (reference.completeAnswer (bound + 1 + 1) type answer collected path) := by
  cases answer with
  | value value => exact below.settled type value collected path
  | failed cause => exact .refl _
  | stream => exact .refl _

theorem field_stays_succ (below : reference.Stays bound) (object : TimelessObject ref)
    (collected : CollectedField) (path : Path) :
    Approximates (reference.evaluateField (bound + 1) object collected path)
      (reference.evaluateField (bound + 1 + 1) object collected path) := by
  intro outcome h
  rw [evaluateField] at h ⊢
  split
  · next ht => rwa [if_pos ht] at h
  · next ht =>
    rw [if_neg ht] at h
    cases hr : reference.resolve bound object collected.field with
    | none => rw [hr] at h; cases h
    | some result =>
      rw [resolve_succ object collected.field result hr]
      rw [hr] at h
      cases result with
      | error error => exact h
      | ok found => exact below.answer _ _ _ _ outcome h

theorem stays (reference : InOrder ref) (bound : Nat) : reference.Stays bound := by
  induction bound with
  | zero => constructor <;> intros <;> exact .none _
  | succ bound below =>
    refine ⟨settled_stays_succ below, answer_stays_succ below, field_stays_succ below, ?_⟩
    intro object path selections
    rw [evaluateFields, evaluateFields]
    refine Approximates.foldlM (fun done entry => ?_) _ _
    exact (below.field object entry.2 _).map _

/-- A larger bound keeps what an operation is evaluated to. -/
theorem execute_le {schema : TimelessSchema ref} {objects : ref → TimelessObject ref}
    {document : ExecutableDocument} {name : Option String} {bindings : Variables}
    (h : bound ≤ more) :
    Approximates (execute schema objects bound document name bindings)
      (execute schema objects more document name bindings) := by
  unfold execute
  split
  · exact .refl _
  · split
    · exact .refl _
    · refine Approximates.map _ ?_
      exact Approximates.of_succ (fun bound => (stays _ bound).fields _ _ _) h

end InOrder

end GraphQL

import GraphQL.Execution.Leaf
import GraphQL.Execution.Record
import GraphQL.Execution.Window
import GraphQL.Schema

/-!
# Completion

Fields are resolved and their values completed: `executeFields` runs the fields of an object,
`completeNode` the node that a resolver answers, `completeValue` turns a resolved value into a value
of the response. A failure makes the field at hand null and nothing else; its report carries the
path.

Object types may lead back to themselves and fragments may spread themselves below a field, so an
execution need not end. All three functions recurse through the levels of a response, take a bound
on that recursion, and give nothing when it does not suffice.
-/

namespace GraphQL

/-- Model of `ExecutionContext`: what an execution reads from. -/
structure Context (ref : Type) where
  objects : ref → ObjectType ref
  types : Types
  fragments : Fragments
  /-- The variables of the request, defaults included. -/
  bindings : Variables
  /-- How many siblings may run at the same time; none counts as one. -/
  width : Nat

/-- Model of `FieldOutcome`: the completed value of a field and the errors in it. -/
structure Outcome where
  value : Value
  errors : List Error := []
  /-- Whether the field itself failed. -/
  failed : Bool := false

/-- Model of `FieldOutcome.failure`: the outcome of a field that failed. -/
def Outcome.failure (error : FieldError) (field : Field) (path : Path) : Outcome where
  value := .null
  errors := [error.report path field.location]
  failed := true

/-- Model of `SelectionSetOutcome`: the outcomes of the fields of an object, by response key. -/
abbrev Outcomes := Entries Outcome

namespace Outcomes

/-- The values of the fields. -/
def fields (outcomes : Outcomes) : Fields := Entries.mapValues Outcome.value outcomes

/-- The errors of the fields, in order. -/
def errors (outcomes : Outcomes) : List Error := outcomes.flatMap fun entry => entry.2.errors

/-- Whether there are fields and all of them failed. -/
def allFailed (outcomes : Outcomes) : Bool :=
  !outcomes.isEmpty && outcomes.all fun entry => entry.2.failed

/-- The outcome of the field that holds the object. -/
def toOutcome (outcomes : Outcomes) : Outcome :=
  ⟨.object outcomes.fields, outcomes.errors, false⟩

end Outcomes

/-- The outcome of a field that holds a list of items. Failed items are null, the list stands. -/
def Outcome.ofItems (items : List Outcome) : Outcome :=
  ⟨.list (items.map Outcome.value), items.flatMap Outcome.errors, false⟩

/-- A resolver that has been called. -/
structure ResolvedField (ref : Type) where
  type : TypeRef
  arguments : Fields
  node : Node ref

namespace Context

variable {ref : Type}

/-- What collects the fields of an object of the given type. -/
def scope (context : Context ref) (runtime : Option String) : Collection.Scope :=
  ⟨context.types, context.fragments, context.bindings, runtime⟩

/-- Model of `concurrency`: the number of siblings that run at the same time. -/
def window (context : Context ref) : Nat := max 1 context.width

/-- Model of `resolve_field`: looks up a field, coerces its arguments and calls its resolver. -/
def resolve (context : Context ref) (bound : Nat) (object : ObjectType ref) (field : Field) :
    Coercion.Result FieldError (ResolvedField ref) :=
  match object.field? field.name with
  | none => throw (.unknownField field.name object.name)
  | some definition =>
    let coerced := coerceArguments context.types context.bindings bound
      definition.resolver.arguments field
    ExceptT.mk (coerced.run.map fun
      | .error (argument, reason) => .error (.invalidArgument argument reason)
      | .ok arguments => .ok ⟨definition.type, arguments, definition.resolver.call arguments⟩)

/-- What is noted when parts are made: the labelled nodes among them. -/
def makeRecord (parts : List Node.Part) (time : Nat) : List Occurrence :=
  (Node.Part.labels parts).map fun label => .made label time

/-- What is noted when a resolver is called: the call and what it made. -/
def callRecord (path : Path) (field : Field) (resolved : ResolvedField ref) (time : Nat) :
    List Occurrence :=
  .called path field.name resolved.arguments time :: makeRecord resolved.node.parts time

/-- What is noted when parts that stand at a path are given up. -/
def releaseRecord (path : Path) (parts : List Node.Part) (time : Nat) : List Occurrence :=
  [.released path (Node.Part.sources parts) time]

mutual

/-- Model of `complete_value`: completes a resolved value of a type. -/
def completeValue (context : Context ref) :
    Nat → TypeRef → Resolved ref → CollectedField → Path → Job Outcome
  | 0, _, _, _, _ => .unfinished
  | bound + 1, type, resolved, collected, path =>
    match resolved with
    | .leaf value =>
      if collected.isComposite then
        let picked :=
          Record.pick (context.scope none) value type.innerName? collected.selections path
        .done ⟨picked.value, picked.errors, false⟩
      else .done ⟨completeLeaf context.types type value, [], false⟩
    | .object reference =>
      let object := context.objects reference
      if collected.isComposite then
        (executeFields context bound context.window object path collected.selections).map
          Outcomes.toOutcome
      else
        .done (.failure (.missingSelection collected.field.name object.name) collected.field path)
    | .list items =>
      let itemType := type.itemType?.getD type
      let jobs := items.zipIdx.map fun (item, index) =>
        completeNode context bound itemType item collected (path.join (.index index))
      (Window.run context.window jobs).map Outcome.ofItems

/-- Model of `complete_node`: runs a node and completes its value. -/
def completeNode (context : Context ref) :
    Nat → TypeRef → Node ref → CollectedField → Path → Job Outcome
  | 0, _, _, _, _ => .unfinished
  | bound + 1, type, node, collected, path =>
    match node with
    | .ready _ value => completeValue context bound type value collected path
    | .effect label delay outcome =>
      Job.noting (fun start => [.ran path label start (start + delay)])
        (Job.after delay
          (match outcome with
          | .ok value => completeValue context bound type value collected path
          | .error cause => .done (.failure (.effectFailed cause) collected.field path)))
    | .stream source =>
      Job.noting (releaseRecord path source.parts)
        (.done (.failure (.streamNotAllowed collected.field.name) collected.field path))

/-- Model of `execute_field`: resolves one field of an object and completes it. -/
def executeField (context : Context ref) :
    Nat → ObjectType ref → CollectedField → Path → Job Outcome
  | 0, _, _, _ => .unfinished
  | bound + 1, object, collected, path =>
    if collected.field.name = typenameField then .done ⟨.string object.name, [], false⟩
    else
      match (context.resolve bound object collected.field).run with
      | none => .unfinished
      | some (.error error) => .done (.failure error collected.field path)
      | some (.ok resolved) =>
        Job.noting (callRecord path collected.field resolved)
          (completeNode context bound resolved.type resolved.node collected path)

/-- Model of `execute_selection_set`: executes the selected fields of an object, at most `width` at
    the same time. -/
def executeFields (context : Context ref) :
    Nat → Nat → ObjectType ref → Path → List Selection → Job Outcomes
  | 0, _, _, _, _ => .unfinished
  | bound + 1, width, object, path, selections =>
    let jobs := (collect (context.scope (some object.name)) selections).map fun (key, collected) =>
      (executeField context bound object collected (path.join (.key key))).map fun outcome =>
        (key, outcome)
    Window.run width jobs

end

end Context

end GraphQL

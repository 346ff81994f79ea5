import GraphQL.Schema.Types

/-!
# Nodes, resolvers and object types

A resolver answers the arguments of a field with a `Node`: a value that is there, an effect that
takes time and may fail, or a stream of values. A value may be an object, whose fields have
resolvers of their own. Object types may lead back to themselves, so a value only refers to its
object type: `ref` is the type of such references, and an environment `ref → ObjectType ref` says
what they refer to.

A node is made as a whole: with it the nodes in its lists are made, those in the outcome of an
effect, and those in the events of a stream that are prepared. `Node.parts` lists what is made.
-/

namespace GraphQL

/-- One item of a stream: how long it takes to produce, and what it is or why it failed. -/
structure Event (ρ : Type) where
  delay : Nat
  outcome : Except String ρ

mutual

/-- Model of `ResolverNode`: what a resolver answers. A label names the node in the record of an
    execution. -/
inductive Node (ref : Type) where
  /-- A value that is there already. -/
  | ready (label : Option String) (value : Resolved ref)
  /-- An effect with its duration and its outcome. -/
  | effect (label : Option String) (delay : Nat) (outcome : Except String (Resolved ref))
  /-- A stream of events. -/
  | stream (source : Source ref)

/-- Model of `ResolvedValue`: the value of a resolved field. -/
inductive Resolved (ref : Type) where
  /-- A scalar, an enum value, a list of those, or a record: an object value that the selection
      picks from. -/
  | leaf (value : Value)
  /-- An object of an object type. -/
  | object (type : ref)
  /-- A list whose items are resolved on their own. -/
  | list (items : List (Node ref))

/-- Where the events of a stream come from. -/
inductive Source (ref : Type) where
  /-- Events that are made with the source. -/
  | prepared (events : List (Event (Resolved ref)))
  /-- Events that are made when they are asked for, by position; the source ends at the first
      position without one. -/
  | generated (events : Nat → Option (Event (Resolved ref)))

end

/-- Something that is there as soon as a node is made. -/
inductive Node.Part where
  /-- A labelled node that holds its value. -/
  | ready (label : String)
  /-- A source of events. -/
  | source
  deriving DecidableEq

/-- The labels among the parts. -/
def Node.Part.labels (parts : List Node.Part) : List String :=
  parts.filterMap fun
    | .ready label => some label
    | .source => none

/-- The number of sources among the parts. -/
def Node.Part.sources (parts : List Node.Part) : Nat := parts.count .source

mutual

/-- What is made together with a node. -/
def Node.parts {ref : Type} : Node ref → List Node.Part
  | .ready label value => label.toList.map .ready ++ value.parts
  | .effect _ _ (.ok value) => value.parts
  | .effect _ _ (.error _) => []
  | .stream source => source.parts

/-- What is made together with a value. -/
def Resolved.parts {ref : Type} : Resolved ref → List Node.Part
  | .leaf _ | .object _ => []
  | .list items => Node.listParts items

/-- What is made together with a source, itself included. -/
def Source.parts {ref : Type} : Source ref → List Node.Part
  | .prepared events => .source :: Event.listParts events
  | .generated _ => [.source]

/-- What is made together with the items of a list. -/
def Node.listParts {ref : Type} : List (Node ref) → List Node.Part
  | [] => []
  | node :: rest => node.parts ++ Node.listParts rest

/-- What is made together with prepared events. -/
def Event.listParts {ref : Type} : List (Event (Resolved ref)) → List Node.Part
  | [] => []
  | ⟨_, .ok value⟩ :: rest => value.parts ++ Event.listParts rest
  | ⟨_, .error _⟩ :: rest => Event.listParts rest

end

/-- An event that a source gives, with what is left of the source. -/
structure Source.Step (ref : Type) where
  event : Event (Resolved ref)
  rest : Source ref
  /-- What is made together with the event. -/
  made : List Node.Part

/-- The next event of a source, if there is one. -/
def Source.next? {ref : Type} : Source ref → Option (Source.Step ref)
  | .prepared [] => none
  | .prepared (event :: rest) => some ⟨event, .prepared rest, []⟩
  | .generated events =>
    (events 0).map fun event =>
      ⟨event, .generated fun position => events (position + 1), Event.listParts [event]⟩

/-- Model of `ArgumentDefinition`: an argument of a field. -/
structure Argument where
  name : String
  type : TypeRef
  defaultValue : Option Value := none

/-- Model of `Binding`: the function behind a field, with the arguments that it takes. -/
inductive Resolver (ref : Type) where
  /-- Takes the value of its only argument. -/
  | single (argument : Argument) (resolve : Value → Node ref)
  /-- Takes all arguments by name. -/
  | named (arguments : List Argument) (resolve : Fields → Node ref)

namespace Resolver

variable {ref : Type}

/-- The declared arguments, in order. -/
def arguments : Resolver ref → List Argument
  | .single argument _ => [argument]
  | .named arguments _ => arguments

/-- Gives the argument of that name a new type and default, if there is one. -/
def redeclare (argument : Argument) : List Argument → Option (List Argument)
  | [] => none
  | known :: rest =>
    if known.name = argument.name then some (argument :: rest)
    else (redeclare argument rest).map (known :: ·)

/-- Model of `FieldResolver.declare`: declares an argument. A name that is declared already keeps its
    place. A resolver of a single argument takes no others. -/
def declare (resolver : Resolver ref) (argument : Argument) : Resolver ref :=
  match resolver with
  | .single known resolve =>
    if known.name = argument.name then .single argument resolve else .single known resolve
  | .named known resolve =>
    .named ((redeclare argument known).getD (known ++ [argument])) resolve

/-- Model of `FieldResolver.resolve`: calls the resolver with coerced arguments. -/
def call (resolver : Resolver ref) (arguments : Fields) : Node ref :=
  match resolver with
  | .single argument resolve => resolve ((Entries.find? arguments argument.name).getD .null)
  | .named _ resolve => resolve arguments

end Resolver

/-- Model of `FieldResolver`: a field of an object type. -/
structure FieldDefinition (ref : Type) where
  type : TypeRef
  resolver : Resolver ref

/-- Model of `SchemaObject`. An object type: its name and its fields, each name once. -/
structure ObjectType (ref : Type) where
  name : String
  fields : Entries (FieldDefinition ref) := []

namespace ObjectType

variable {ref : Type}

/-- Model of `SchemaObject.field`: declares a field under a free name. -/
def declare (object : ObjectType ref) (name : String) (field : FieldDefinition ref) :
    ObjectType ref :=
  { object with fields := Entries.add object.fields name field }

/-- Model of `SchemaObject.get`: the field under `name`. -/
def field? (object : ObjectType ref) (name : String) : Option (FieldDefinition ref) :=
  Entries.find? object.fields name

/-- Model of `SchemaObject.merge`: adds to `left` the fields of `right` that it does not declare,
    behind its own. -/
def merge (left right : ObjectType ref) : ObjectType ref :=
  { left with fields := Entries.union left.fields right.fields }

end ObjectType

end GraphQL

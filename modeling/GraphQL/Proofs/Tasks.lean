import GraphQL.Proofs.Record
import GraphQL.Proofs.ResolverCalls

/-!
# Tasks

A response is made of tasks: a field to execute, a node or a value to complete, a record to pick from
and an entry of it to pick, each at a path and with an outcome of its own. `Context.perform` does a
task, and `Context.Comprises` says which tasks a task is made of. The relation knows neither time nor
order nor bounds.
-/

namespace GraphQL

variable {ref : Type}

/-- What is picked, as an outcome. -/
def Record.Picked.toOutcome (picked : Record.Picked) : Outcome := ⟨picked.value, picked.errors, false⟩

/-- Work that comes to one outcome. -/
inductive Task (ref : Type) where
  | field (object : ObjectType ref) (collected : CollectedField)
  | node (type : TypeRef) (node : Node ref) (collected : CollectedField)
  | value (type : TypeRef) (value : Resolved ref) (collected : CollectedField)
  /-- Picking from a record, or from a list of records. -/
  | record (value : Value) (declared : Option String) (selections : List Selection)
  /-- Picking one field of the record with these entries. -/
  | entry (fields : Fields) (runtime : Option String) (collected : CollectedField)

namespace Context

/-- Does a task at a path. -/
def perform (context : Context ref) (bound : Nat) (path : Path) : Task ref → Job Outcome
  | .field object collected => context.executeField bound object collected path
  | .node type node collected => context.completeNode bound type node collected path
  | .value type value collected => context.completeValue bound type value collected path
  | .record value declared selections =>
    .done (Record.pick (context.scope none) value declared selections path).toOutcome
  | .entry fields runtime collected =>
    .done (Record.pickField (Record.pickers (context.scope none) fields) runtime collected
      path).toOutcome

/-- What a task is made of. -/
inductive Comprises (context : Context ref) : Path × Task ref → Path × Task ref → Prop
  | resolve {path : Path} {object : ObjectType ref} {collected : CollectedField}
      {called : ResolvedField ref} :
      context.Resolves object collected.field called →
      Comprises context (path, .field object collected) (path, .node called.type called.node collected)
  | ready {path : Path} {type : TypeRef} {label : Option String} {value : Resolved ref}
      {collected : CollectedField} :
      Comprises context (path, .node type (.ready label value) collected)
        (path, .value type value collected)
  | effect {path : Path} {type : TypeRef} {label : Option String} {delay : Nat}
      {value : Resolved ref} {collected : CollectedField} :
      Comprises context (path, .node type (.effect label delay (.ok value)) collected)
        (path, .value type value collected)
  | object {path : Path} {type : TypeRef} {reference : ref} {collected inner : CollectedField}
      {key : String} :
      collected.isComposite = true →
      (key, inner) ∈ collect (context.scope (some (context.objects reference).name))
        collected.selections →
      Comprises context (path, .value type (.object reference) collected)
        (path.join (.key key), .field (context.objects reference) inner)
  | item {path : Path} {type : TypeRef} {items : List (Node ref)} {node : Node ref} {i : Nat}
      {collected : CollectedField} :
      items[i]? = some node →
      Comprises context (path, .value type (.list items) collected)
        (path.join (.index i), .node (type.itemType?.getD type) node collected)
  | leaf {path : Path} {type : TypeRef} {value : Value} {collected : CollectedField} :
      collected.isComposite = true →
      Comprises context (path, .value type (.leaf value) collected)
        (path, .record value type.innerName? collected.selections)
  | pick {path : Path} {fields : Fields} {declared : Option String} {selections : List Selection}
      {inner : CollectedField} {key : String} :
      (key, inner) ∈ collect (context.scope (Record.runtime? fields declared)) selections →
      Comprises context (path, .record (.object fields) declared selections)
        (path.join (.key key), .entry fields (Record.runtime? fields declared) inner)
  | entry {path : Path} {fields : Fields} {runtime : Option String} {collected : CollectedField}
      {value : Value} :
      collected.field.name ≠ typenameField →
      Entries.find? fields collected.field.name = some value →
      collected.isComposite = true →
      Comprises context (path, .entry fields runtime collected)
        (path, .record value none collected.selections)
  | pickItem {path : Path} {items : List Value} {declared : Option String}
      {selections : List Selection} {value : Value} {i : Nat} :
      items[i]? = some value →
      Comprises context (path, .record (.list items) declared selections)
        (path.join (.index i), .record value declared selections)

end Context

end GraphQL

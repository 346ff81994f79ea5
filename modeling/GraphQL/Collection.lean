import GraphQL.Operation
import GraphQL.Schema.Types

/-!
# Collected fields

`collect` walks a selection set and groups the fields that it reaches by response key, in the order
in which the keys first come. Skipped selections and fragments for other types contribute nothing,
and each named fragment is entered once.

Spreads nest at most as deep as there are fragments, because each of them is entered once; that
number bounds the recursion.
-/

namespace GraphQL

/-- The fields of one response key: the first one, and the selections below all of them. -/
structure CollectedField where
  field : Field
  selections : List Selection

/-- Model of `has_selection_set`: whether the first field has a selection set in the document, or
    something is left to select below the fields. -/
def CollectedField.isComposite (collected : CollectedField) : Bool :=
  collected.field.composite || !collected.selections.isEmpty

/-- Collected fields by response key. -/
abbrev CollectedFields := Entries CollectedField

namespace Collection

/-- What a walk through selections has seen. -/
structure State where
  /-- The fragments that have been spread, whether they exist or not. -/
  spread : List String := []
  fields : CollectedFields := []

/-- Adds a field to its group. -/
def addField (fields : CollectedFields) (field : Field) : CollectedFields :=
  let key := field.responseKey
  let known := (Entries.find? fields key).getD ⟨field, []⟩
  Entries.put fields key { known with selections := known.selections ++ field.selections }

/-- Model of `does_fragment_type_apply`. Whether a fragment for the type `condition` applies to an
    object of type `runtime`: it is that type or one of its abstract types. Nothing is known of an
    object without a type. -/
def applies (types : Types) (runtime : Option String) (condition : String) : Bool :=
  match runtime with
  | none => false
  | some name => name = condition || types.isSubtype condition name

/-- What decides which selections count. -/
structure Scope where
  types : Types
  fragments : Fragments
  bindings : Variables
  /-- The type of the object, if it is known. -/
  runtime : Option String

mutual

/-- Model of one round of `collect_fields_inner`: walks through a selection, with `enter` for the
    selections of a fragment that is spread for the first time. -/
def visit (scope : Scope) (enter : List Selection → State → State) :
    Selection → State → State
  | .field field, state =>
    if field.guard.skipsWith scope.bindings then state
    else { state with fields := addField state.fields field }
  | .inlineFragment condition guard below, state =>
    if guard.skipsWith scope.bindings || !condition.all (applies scope.types scope.runtime) then
      state
    else walk scope enter below state
  | .spread name guard, state =>
    if guard.skipsWith scope.bindings || state.spread.contains name then state
    else
      let seen := { state with spread := name :: state.spread }
      match Entries.find? scope.fragments name with
      | none => seen
      | some fragment =>
        if applies scope.types scope.runtime fragment.condition then enter fragment.selections seen
        else seen

/-- Walks through selections in order. -/
def walk (scope : Scope) (enter : List Selection → State → State) :
    List Selection → State → State
  | [], state => state
  | selection :: rest, state => walk scope enter rest (visit scope enter selection state)

end

/-- Model of `collect_fields_inner`: walks through selections with spreads up to `depth` deep. -/
def walkTo (scope : Scope) : Nat → List Selection → State → State
  | 0 => walk scope fun _ state => state
  | depth + 1 => walk scope (walkTo scope depth)

end Collection

/-- Model of `collect_fields`: the fields that a selection set selects on an object, by response
    key. -/
def collect (scope : Collection.Scope) (selections : List Selection) : CollectedFields :=
  (Collection.walkTo scope scope.fragments.length selections {}).fields

end GraphQL

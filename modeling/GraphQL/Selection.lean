import GraphQL.InputValue
import GraphQL.Text.Position

/-!
# Selections

Selections as they are executed: values are read, conditions are taken out of the directives, and
what a document skips for good is gone.
-/

namespace GraphQL

/-- The condition of one directive: settled, or left to a variable. -/
inductive Condition where
  | yes
  | no
  | var (name : String)
  deriving Repr, DecidableEq

/-- Model of `eval`: the value of a condition. A variable that is not set, or not to a truth value,
    gives none. -/
def Condition.holds? (bindings : Variables) : Condition → Option Bool
  | .yes => some true
  | .no => some false
  | .var name =>
    match Entries.find? bindings name with
    | some (.boolean b) => some b
    | _ => none

/-- Model of `IncludeSkip`. The conditions on a selection: every one to include it must hold and
    none to skip it. -/
structure Guard where
  includes : List Condition := []
  skips : List Condition := []
  deriving Repr, DecidableEq

namespace Guard

/-- Model of `statically_skipped`: whether a selection is skipped whatever the variables are. -/
def alwaysSkips (guard : Guard) : Bool :=
  guard.skips.contains .yes || guard.includes.contains .no

/-- Model of `should_skip`: whether a selection is skipped. A condition without a value has no
    effect. -/
def skipsWith (guard : Guard) (bindings : Variables) : Bool :=
  guard.skips.any (fun condition => (condition.holds? bindings).getD false) ||
    guard.includes.any fun condition => !(condition.holds? bindings).getD true

end Guard

/-- Model of `Field`: a field with its arguments and, below it, selections of type `σ`. -/
structure FieldSelection (σ : Type) where
  aliasName : Option String
  name : String
  arguments : List (String × InputValue)
  selections : List σ
  /-- Whether the document gives the field a selection set, all of which may be skipped for good. -/
  composite : Bool
  guard : Guard
  location : Location

/-- A selection. -/
inductive Selection where
  | field (field : FieldSelection Selection)
  | inlineFragment (condition : Option String) (guard : Guard) (selections : List Selection)
  | spread (name : String) (guard : Guard)

/-- A selected field. -/
abbrev Field := FieldSelection Selection

/-- Model of `TYPENAME`. The name of the field that every object has: its type. -/
def typenameField : String := "__typename"

namespace FieldSelection

/-- Model of `response_key`: the name under which a field stands in the response. -/
def responseKey {σ : Type} (field : FieldSelection σ) : String := field.aliasName.getD field.name

/-- Model of `argument`: the first argument of a name. -/
def argument? {σ : Type} (field : FieldSelection σ) (name : String) : Option InputValue :=
  List.lookup name field.arguments

end FieldSelection

/-- Model of `include_skip`: the conditions of a selection. -/
def Selection.guard : Selection → Guard
  | .field selected => selected.guard
  | .inlineFragment _ guard _ => guard
  | .spread _ guard => guard

end GraphQL

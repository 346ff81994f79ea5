import GraphQL.Proofs.Grouping
import Mathlib.Logic.Function.Basic

/-!
# New response keys

`ExecutableDocument.relabel` gives every field of a document an alias: the new label for its old
response key. Fields keep their names. As long as different keys get different labels, the same
fields come together under one key, so what is collected are the old fields under their new keys.

Results:
* `Entries.find?_relabel`, `Entries.put_relabel`: look-ups and writes under new labels.
* `collect_relabel`: with new labels, the same fields are collected in the same order.
-/

namespace GraphQL

/-! ## Entries under new labels -/

namespace Entries

variable {α β : Type} {label : String → String}

/-- The entries under new labels, with `f` applied to each of them. -/
def relabel (label : String → String) (f : α → β) (entries : Entries α) : Entries β :=
  List.map (fun entry => (label entry.1, f entry.2)) entries

theorem find?_relabel (h : label.Injective) (f : α → β) (entries : Entries α) (key : String) :
    find? (relabel label f entries) (label key) = (find? entries key).map f := by
  induction entries with
  | nil => rfl
  | cons head rest ih =>
    obtain ⟨k, a⟩ := head
    have ih' : find? (List.map (fun entry => (label entry.1, f entry.2)) rest) (label key) = _ := ih
    rw [relabel, List.map_cons, find?_cons, find?_cons, ih', apply_ite (Option.map f)]
    simp only [h.eq_iff, Option.map_some]

theorem put_relabel (h : label.Injective) (f : α → β) (entries : Entries α) (key : String) (a : α) :
    put (relabel label f entries) (label key) (f a) = relabel label f (put entries key a) := by
  induction entries with
  | nil => rfl
  | cons head rest ih =>
    obtain ⟨k, b⟩ := head
    have ih' : put (List.map (fun entry => (label entry.1, f entry.2)) rest) (label key) (f a) =
        _ := ih
    rw [relabel, List.map_cons, put, put, ih', apply_ite (relabel label f)]
    simp only [h.eq_iff]
    rfl

end Entries

/-! ## Documents with new labels -/

namespace Selection

mutual

/-- Gives new labels to the fields in a selection. -/
def relabel (label : String → String) : Selection → Selection
  | .field ⟨aliasName, name, arguments, below, composite, guard, location⟩ =>
    .field ⟨some (label (aliasName.getD name)), name, arguments, relabelAll label below, composite,
      guard, location⟩
  | .inlineFragment condition guard below =>
    .inlineFragment condition guard (relabelAll label below)
  | .spread name guard => .spread name guard

/-- Gives new labels to the fields in selections. -/
def relabelAll (label : String → String) : List Selection → List Selection
  | [] => []
  | selection :: rest => relabel label selection :: relabelAll label rest

end

theorem relabelAll_eq_map (label : String → String) (selections : List Selection) :
    relabelAll label selections = selections.map (relabel label) := by
  induction selections with
  | nil => rfl
  | cons selection rest ih => rw [relabelAll, ih, List.map_cons]

end Selection

/-- Gives new labels to a field and those below it. -/
def FieldSelection.relabel (label : String → String) (field : Field) : Field :=
  { field with
    aliasName := some (label field.responseKey)
    selections := field.selections.map (Selection.relabel label) }

/-- Gives new labels to the fields in a fragment. -/
def Fragment.relabel (label : String → String) (fragment : Fragment) : Fragment :=
  { fragment with selections := fragment.selections.map (Selection.relabel label) }

/-- Gives new labels to the fields in an operation. -/
def Operation.relabel (label : String → String) (operation : Operation) : Operation :=
  { operation with selections := operation.selections.map (Selection.relabel label) }

/-- Gives new labels to the fields in a document. -/
def ExecutableDocument.relabel (label : String → String) (document : ExecutableDocument) :
    ExecutableDocument where
  fragments := Entries.mapValues (Fragment.relabel label) document.fragments
  operations := document.operations.map (Operation.relabel label)

namespace Selection

theorem relabel_field (label : String → String) (field : Field) :
    relabel label (.field field) = .field (field.relabel label) := by
  obtain ⟨aliasName, name, arguments, below, composite, guard, location⟩ := field
  rw [relabel, relabelAll_eq_map]
  rfl

theorem relabel_inlineFragment (label : String → String) (condition : Option String) (guard : Guard)
    (below : List Selection) :
    relabel label (.inlineFragment condition guard below) =
      .inlineFragment condition guard (below.map (relabel label)) := by
  rw [relabel, relabelAll_eq_map]

end Selection

/-! ## Collecting fields with new labels -/

/-- Gives new labels to the fields of one response key. -/
def CollectedField.relabel (label : String → String) (collected : CollectedField) :
    CollectedField :=
  ⟨collected.field.relabel label, collected.selections.map (Selection.relabel label)⟩

@[simp] theorem CollectedField.isComposite_relabel (label : String → String)
    (collected : CollectedField) :
    (collected.relabel label).isComposite = collected.isComposite := by
  simp [isComposite, relabel, FieldSelection.relabel]

namespace Collection

/-- Gives new labels to the fields of a state. -/
def State.relabel (label : String → String) (state : State) : State :=
  ⟨state.spread, Entries.relabel label (CollectedField.relabel label) state.fields⟩

/-- Gives new labels to the fragments of a scope. -/
def Scope.relabel (label : String → String) (scope : Scope) : Scope :=
  { scope with fragments := Entries.mapValues (Fragment.relabel label) scope.fragments }

variable {label : String → String} {scope : Scope} {enter enter' : List Selection → State → State}

theorem addField_relabel (h : label.Injective) (fields : CollectedFields) (field : Field) :
    addField (Entries.relabel label (CollectedField.relabel label) fields) (field.relabel label) =
      Entries.relabel label (CollectedField.relabel label) (addField fields field) := by
  have hkey : (field.relabel label).responseKey = label field.responseKey := rfl
  have hknown : ((Entries.find? fields field.responseKey).map (CollectedField.relabel label)).getD
      ⟨field.relabel label, []⟩ =
      ((Entries.find? fields field.responseKey).getD ⟨field, []⟩).relabel label := by
    cases Entries.find? fields field.responseKey <;> rfl
  rw [addField, addField, hkey, Entries.find?_relabel h, hknown]
  rw [← Entries.put_relabel h]
  simp only [CollectedField.relabel, FieldSelection.relabel, List.map_append]

mutual

theorem visit_relabel (h : label.Injective)
    (henter : ∀ selections state, enter' (selections.map (Selection.relabel label))
      (state.relabel label) = (enter selections state).relabel label) :
    ∀ (selection : Selection) (state : State),
      visit (scope.relabel label) enter' (selection.relabel label) (state.relabel label) =
        (visit scope enter selection state).relabel label
  | .field field, state => by
    rw [Selection.relabel_field, visit, visit, apply_ite (State.relabel label)]
    simp only [State.relabel, addField_relabel h]
    rfl
  | .inlineFragment condition guard below, state => by
    have hbelow := walk_relabel h henter below state
    rw [Selection.relabel_inlineFragment, visit, visit, apply_ite (State.relabel label), hbelow]
    rfl
  | .spread name guard, state => by
    have hfind : Entries.find? (scope.relabel label).fragments name =
        (Entries.find? scope.fragments name).map (Fragment.relabel label) :=
      Entries.find?_mapValues _ _ _
    rw [Selection.relabel, visit, visit, apply_ite (State.relabel label), hfind]
    cases Entries.find? scope.fragments name with
    | none => rfl
    | some fragment =>
      have hentered := henter fragment.selections { state with spread := name :: state.spread }
      simp only [Option.map_some, apply_ite (State.relabel label), ← hentered]
      rfl

/-- The same of a walk. -/
theorem walk_relabel (h : label.Injective)
    (henter : ∀ selections state, enter' (selections.map (Selection.relabel label))
      (state.relabel label) = (enter selections state).relabel label) :
    ∀ (selections : List Selection) (state : State),
      walk (scope.relabel label) enter' (selections.map (Selection.relabel label))
          (state.relabel label) =
        (walk scope enter selections state).relabel label
  | [], _ => rfl
  | selection :: rest, state => by
    rw [List.map_cons, walk, walk, visit_relabel h henter selection state,
      walk_relabel h henter rest]

end

theorem walkTo_relabel (h : label.Injective) (depth : Nat) (selections : List Selection)
    (state : State) :
    walkTo (scope.relabel label) depth (selections.map (Selection.relabel label))
        (state.relabel label) =
      (walkTo scope depth selections state).relabel label := by
  induction depth generalizing selections state with
  | zero => exact walk_relabel h (fun _ _ => rfl) selections state
  | succ depth ih => exact walk_relabel h ih selections state

end Collection

/-- With new labels, the same fields are collected under their new keys. -/
theorem collect_relabel {label : String → String} (h : label.Injective) (scope : Collection.Scope)
    (selections : List Selection) :
    collect (scope.relabel label) (selections.map (Selection.relabel label)) =
      Entries.relabel label (CollectedField.relabel label) (collect scope selections) := by
  have hdepth : (scope.relabel label).fragments.length = scope.fragments.length :=
    List.length_map _
  rw [collect, hdepth]
  exact congrArg Collection.State.fields (Collection.walkTo_relabel h _ selections {})

end GraphQL

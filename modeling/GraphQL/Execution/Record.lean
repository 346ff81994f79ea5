import GraphQL.Collection
import GraphQL.FieldError

/-!
# Records

A record is an object value that a resolver gives where the document selects fields. `pick` takes
the selected fields out of it, in the order of the selection. The type of a record is its entry
`__typename`, or else the type that the field declares; records inside it only have the type that
they carry. Entries without selections are copied as they are.
-/

namespace GraphQL.Record

/-- What is picked, and the errors on the way. -/
structure Picked where
  value : Value
  errors : List Error := []

/-- How the fields below an entry are picked. -/
abbrev Picker := List Selection → Path → Picked

/-- Model of one round of `project`: picks one field. `entries` holds the entries of the record,
    each with the picker for what lies below. -/
def pickField (entries : Entries (Value × Picker)) (runtime : Option String)
    (collected : CollectedField) (path : Path) : Picked :=
  let field := collected.field
  if field.name = typenameField then ⟨Value.ofOption (runtime.map .string), []⟩
  else
    match Entries.find? entries field.name with
    | none =>
      let error := FieldError.unknownField field.name (runtime.getD "Object")
      ⟨.null, [error.report path field.location]⟩
    | some (value, picker) =>
      if collected.isComposite then picker collected.selections path else ⟨value, []⟩

/-- The type that a record carries. -/
def typeOf? (entries : Entries (Value × Picker)) : Option String :=
  (Entries.find? entries typenameField).bind fun entry => entry.1.word?

/-- Picks the selected fields of a record with the given entries. -/
def pickFields (scope : Collection.Scope) (entries : Entries (Value × Picker))
    (declared : Option String) (selections : List Selection) (path : Path) : Picked :=
  let runtime := (typeOf? entries).or declared
  let picked := (collect { scope with runtime } selections).map fun (key, collected) =>
    (key, pickField entries runtime collected (path.join (.key key)))
  ⟨.object (Entries.mapValues Picked.value picked), picked.flatMap fun entry => entry.2.errors⟩

mutual

/-- Model of `project`: picks the selected fields of a value of the type `declared`, item by item in
    a list. Values that hold no fields stay as they are. -/
def pick (scope : Collection.Scope) : Value → Option String → Picker
  | .object fields, declared, selections, path =>
    pickFields scope (pickers scope fields) declared selections path
  | .list items, declared, selections, path =>
    let picked := pickItems scope items declared selections path 0
    ⟨.list (picked.map Picked.value), picked.flatMap Picked.errors⟩
  | other, _, _, _ => ⟨other, []⟩

/-- The entries of a record, each with its picker. -/
def pickers (scope : Collection.Scope) : List (String × Value) → Entries (Value × Picker)
  | [] => []
  | (name, value) :: rest => (name, value, pick scope value none) :: pickers scope rest

/-- Picks from the items of a list, the first of which stands at `index`. -/
def pickItems (scope : Collection.Scope) :
    List Value → Option String → List Selection → Path → Nat → List Picked
  | [], _, _, _, _ => []
  | item :: rest, declared, selections, path, index =>
    pick scope item declared selections (path.join (.index index)) ::
      pickItems scope rest declared selections path (index + 1)

end

end GraphQL.Record

import GraphQL.Proofs.Tasks

/-!
# Fields left bare

A field counts as one that selects something if its first occurrence has a selection set in the
document, or if anything is left below any of its occurrences (`CollectedField.isComposite`). Where
the first occurrence has no selection set, this also depends on what else has been left out: a field
is bared (`CollectedField.Bared`) if the one of two executions selects something below it and the
other one nothing. An object then fails for want of a selection instead of being empty, and a leaf is
written as it is instead of having its fields picked.

`Context.Bares` follows two executions side by side, task by task, to a bared field whose value shows
which of the two it is.

Results:
* `Record.pick_hollow`: what is picked from a value if nothing is collected on any object.
-/

namespace GraphQL

variable {ref : Type}

/-! ## Nothing is picked -/

namespace Value

mutual

/-- The value without the fields of its objects. -/
def hollow : Value → Value
  | .list items => .list (hollowAll items)
  | .object _ => .object []
  | value => value

/-- The values without the fields of their objects. -/
def hollowAll : List Value → List Value
  | [] => []
  | item :: rest => item.hollow :: hollowAll rest

end

theorem hollowAll_eq_map (items : List Value) : hollowAll items = items.map hollow := by
  induction items with
  | nil => rfl
  | cons item rest ih => rw [hollowAll, ih, List.map_cons]

theorem hollow_scalar {value : Value} (hitems : value.items? = none)
    (hfields : value.fields? = none) : value.hollow = value := by
  cases value <;> simp [items?, fields?] at hitems hfields <;> rfl

end Value

/-- Selections that collect nothing leave the objects in a value empty. -/
theorem Record.pick_hollow {scope : Collection.Scope} {selections : List Selection}
    (h : ∀ runtime, collect { scope with runtime } selections = []) (value : Value)
    (declared : Option String) (path : Path) :
    pick scope value declared selections path = ⟨value.hollow, []⟩ := by
  induction value using Value.induction generalizing path with
  | scalar value hitems hfields =>
    rw [pick_scalar hitems hfields, Value.hollow_scalar hitems hfields]
  | list items ih =>
    have hpicked : (items.zipIdx.map fun entry =>
        pick scope entry.1 declared selections (path.join (.index entry.2))) =
        items.map fun item => ⟨item.hollow, []⟩ := by
      rw [← List.zipIdx_map_fst 0 items, List.map_map, List.zipIdx_map_fst 0 items]
      exact List.map_congr_left fun entry hm => ih entry.1 (List.fst_mem_of_mem_zipIdx hm) _
    rw [pick, pickItems_eq_map, hpicked, Value.hollow, Value.hollowAll_eq_map]
    simp [Function.comp_def]
  | object fields =>
    rw [pick, pickFields, h]
    rfl

/-! ## Bared fields -/

/-- The one selects something and the other one does not. -/
def CollectedField.Bared (one other : CollectedField) : Prop :=
  one.isComposite = true ∧ other.isComposite = false

/-- The field of both tasks is bared, and their value shows it. -/
inductive Task.Bared (types : Types) : Task ref → Task ref → Prop
  | object {type : TypeRef} {reference : ref} {one other : CollectedField} :
    one.Bared other →
    Bared types (.value type (.object reference) one) (.value type (.object reference) other)
  | leaf {type : TypeRef} {value : Value} {one other : CollectedField} :
    one.Bared other → value.hollow ≠ completeLeaf types type value →
    Bared types (.value type (.leaf value) one) (.value type (.leaf value) other)
  | entry {fields : Fields} {runtime : Option String} {value : Value} {one other : CollectedField} :
    one.Bared other → one.field.name ≠ typenameField →
    Entries.find? fields one.field.name = some value → value.hollow ≠ value →
    Bared types (.entry fields runtime one) (.entry fields runtime other)

namespace Context

/-- Two executions come, side by side and at the same path, to a bared field that shows. -/
inductive Bares (left right : Context ref) : Path × Task ref → Path × Task ref → Prop
  | here {path : Path} {task twin : Task ref} :
    task.Bared left.types twin → Bares left right (path, task) (path, twin)
  | step {task twin : Path × Task ref} {path : Path} {inner inner' : Task ref} :
    left.Comprises task (path, inner) → right.Comprises twin (path, inner') →
    Bares left right (path, inner) (path, inner') → Bares left right task twin

/-- They do so below a field that both collect on an object. -/
def BaresFields (left right : Context ref) (path : Path) (object double : ObjectType ref)
    (selections others : List Selection) : Prop :=
  ∃ key one other, (key, one) ∈ collect (left.scope (some object.name)) selections ∧
    (key, other) ∈ collect (right.scope (some double.name)) others ∧
    left.Bares right (path.join (.key key), .field object one)
      (path.join (.key key), .field double other)

end Context

end GraphQL

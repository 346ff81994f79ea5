import GraphQL.Execution.Record

/-!
# Picking from records

`Value.induction` is induction over values by membership: what holds of all items of a list and of
all fields of an object holds of the list and of the object. The equations of `Record.pick` go with
it; the helpers that recurse along lists turn into maps.
-/

namespace GraphQL

/-- Induction over a value, its items and its fields. -/
theorem Value.induction {P : Value → Prop}
    (scalar : ∀ value : Value, value.items? = none → value.fields? = none → P value)
    (list : ∀ items, (∀ item ∈ items, P item) → P (.list items))
    (object : ∀ fields : Fields, (∀ field ∈ fields, P field.2) → P (.object fields)) :
    ∀ value, P value
  | .null | .boolean _ | .int _ | .float _ | .string _ | .enum _ => scalar _ rfl rfl
  | .list items => list items fun item hm =>
    have : sizeOf item < sizeOf items := List.sizeOf_lt_of_mem hm
    Value.induction scalar list object item
  | .object fields => object fields fun field hm =>
    have : sizeOf field.2 < sizeOf fields := by
      have := List.sizeOf_lt_of_mem hm
      obtain ⟨name, value⟩ := field
      simp only [Prod.mk.sizeOf_spec] at this ⊢
      omega
    Value.induction scalar list object field.2

namespace Record

variable {scope : Collection.Scope}

theorem pickers_eq_mapValues (fields : Fields) :
    pickers scope fields =
      Entries.mapValues (fun value => (value, pick scope value none)) fields := by
  induction fields with
  | nil => rfl
  | cons field rest ih =>
    obtain ⟨name, value⟩ := field
    rw [pickers, ih]
    rfl

theorem pickItems_eq_map (items : List Value) (declared : Option String)
    (selections : List Selection) (path : Path) (index : Nat) :
    pickItems scope items declared selections path index =
      (items.zipIdx index).map fun entry =>
        pick scope entry.1 declared selections (path.join (.index entry.2)) := by
  induction items generalizing index with
  | nil => rfl
  | cons item rest ih => rw [pickItems, ih, List.zipIdx_cons, List.map_cons]

/-- The type of a record: the one that it carries, or else the declared one. -/
def runtime? (fields : Fields) (declared : Option String) : Option String :=
  ((Entries.find? fields typenameField).bind Value.word?).or declared

theorem typeOf?_pickers (fields : Fields) :
    typeOf? (pickers scope fields) = (Entries.find? fields typenameField).bind Value.word? := by
  rw [typeOf?, pickers_eq_mapValues, Entries.find?_mapValues]
  cases Entries.find? fields typenameField <;> rfl

theorem pick_scalar {value : Value} (hitems : value.items? = none) (hfields : value.fields? = none)
    (declared : Option String) (selections : List Selection) (path : Path) :
    pick scope value declared selections path = ⟨value, []⟩ := by
  cases value <;> simp [Value.items?, Value.fields?] at hitems hfields <;> rfl

/-- An entry of a record is picked from if the field selects something, and copied otherwise. -/
theorem pickField_of_find? {fields : Fields} {collected : CollectedField} {value : Value}
    (hname : collected.field.name ≠ typenameField)
    (hfind : Entries.find? fields collected.field.name = some value) (runtime : Option String)
    (path : Path) :
    pickField (pickers scope fields) runtime collected path =
      if collected.isComposite then pick scope value none collected.selections path
      else ⟨value, []⟩ := by
  simp only [pickField, pickers_eq_mapValues, Entries.find?_mapValues, hname, hfind, ite_false,
    Option.map_some]

end Record

end GraphQL

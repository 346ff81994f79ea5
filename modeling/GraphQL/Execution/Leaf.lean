import GraphQL.Schema.Types

/-!
# Leaves

A leaf is a value that a resolver gives for a field without a selection set. Custom scalars are
written by their codec and whole numbers of type ID as strings; everything else stays as it is.
-/

namespace GraphQL

/-- Model of `complete_leaf`: writes a leaf of a type. -/
def completeLeaf (types : Types) : TypeRef → Value → Value
  | _, .null => .null
  | .nonNull inner, value => completeLeaf types inner value
  | .list item, .list items => .list (items.map (completeLeaf types item))
  | .id, .int i => .string (toString i.toInt)
  | .named name, value =>
    match Entries.find? types.scalars name with
    | some codec => codec.encode value
    | none => value
  | _, value => value

theorem completeLeaf_null (types : Types) (type : TypeRef) :
    completeLeaf types type .null = .null := by
  cases type <;> rfl

/-- That null is forbidden makes no difference to how a leaf is written. -/
theorem completeLeaf_nonNull (types : Types) (inner : TypeRef) (value : Value) :
    completeLeaf types (.nonNull inner) value = completeLeaf types inner value := by
  cases value with
  | null => rw [completeLeaf_null, completeLeaf_null]
  | _ => rfl

/-- Values of named types are written by their codec if there is one. -/
theorem completeLeaf_named (types : Types) {value : Value} (h : value ≠ .null) (name : String) :
    completeLeaf types (.named name) value =
      match Entries.find? types.scalars name with
      | some codec => codec.encode value
      | none => value := by
  cases value with
  | null => exact absurd rfl h
  | _ => rfl

end GraphQL

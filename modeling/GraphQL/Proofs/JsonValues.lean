import GraphQL.Proofs.Projection

/-!
# Values and JSON values

Values become JSON values and JSON values become values, whole numbers and floats apart, with the
members of objects in their order. JSON has no enum values and no floats that are not finite, so
there and back again leaves a string and null in their places (`Value.plain`) and nothing else is
changed. Variables are read by a function of their own, and texts are written by two: what they give
is the same.

Results:
* `InputValue.ofJson_eq`: reading a variable is reading a value.
* `Value.ofJson_toJson`: there and back again.
* `Value.jsonText_eq`: the text of a value is the text of its JSON value.
* `json_conversions_commute`: all three, for all JSON values and all values.
-/

namespace GraphQL

/-! ## Reading -/

namespace InputValue

mutual

/-- A variable is read as the value is that the same JSON stands for. -/
theorem ofJson_eq : ∀ json : Json, ofJson json = (Value.ofJson json).toInput
  | .null | .bool _ | .string _ | .number (.float _) => rfl
  | .number (.integer i) => by
    rw [ofJson, Value.ofJson]
    split <;> rfl
  | .array items => congrArg list (ofJsons_eq items)
  | .object members => congrArg object (ofMembers_eq members)

theorem ofJsons_eq : ∀ items : List Json, ofJsons items = Value.toInputs (Value.ofJsons items)
  | [] => rfl
  | item :: rest => congrArg₂ List.cons (ofJson_eq item) (ofJsons_eq rest)

theorem ofMembers_eq : ∀ members : List (String × Json),
    ofMembers members = Value.fieldInputs (Value.ofMembers members)
  | [] => rfl
  | (name, json) :: rest =>
    congrArg₂ List.cons (congrArg (Prod.mk name) (ofJson_eq json)) (ofMembers_eq rest)

end

end InputValue

namespace Value

/-! ## There and back again -/

mutual

/-- The value without what JSON does not have: enum values become strings, and floats that are not
    finite become null. -/
def plain : Value → Value
  | .null => .null
  | .boolean b => .boolean b
  | .int i => .int i
  | .float f => if f.isFinite then .float f else .null
  | .string s | .enum s => .string s
  | .list items => .list (plainItems items)
  | .object fields => .object (plainFields fields)

/-- The items of a list without what JSON does not have. -/
def plainItems : List Value → List Value
  | [] => []
  | item :: rest => item.plain :: plainItems rest

/-- The fields of an object without what JSON does not have. -/
def plainFields : List (String × Value) → List (String × Value)
  | [] => []
  | (name, value) :: rest => (name, value.plain) :: plainFields rest

end

/-- A whole number of 64 bits is read as such, not as a float. -/
theorem ofJson_integer (i : Int64) : ofJson (.number (.integer i.toInt)) = .int i := by
  have hfits : fitsInt64 i.toInt = true := by
    rw [fitsInt64, Bool.and_eq_true, decide_eq_true_eq, decide_eq_true_eq]
    exact ⟨Int64.minValue_le_toInt i, Int64.toInt_le i⟩
  rw [ofJson, if_pos hfits, Int64.ofInt_toInt]

mutual

/-- There and back again. -/
theorem ofJson_toJson : ∀ value : Value, ofJson value.toJson = value.plain
  | .null | .boolean _ | .string _ | .enum _ => rfl
  | .int i => ofJson_integer i
  | .float f => by
    rw [toJson, plain]
    split <;> rfl
  | .list items => congrArg list (ofJsons_toJsons items)
  | .object fields => congrArg object (ofMembers_fieldJsons fields)

theorem ofJsons_toJsons : ∀ items : List Value, ofJsons (toJsons items) = plainItems items
  | [] => rfl
  | item :: rest => congrArg₂ List.cons (ofJson_toJson item) (ofJsons_toJsons rest)

theorem ofMembers_fieldJsons : ∀ fields : List (String × Value),
    ofMembers (fieldJsons fields) = plainFields fields
  | [] => rfl
  | (name, value) :: rest =>
    congrArg₂ List.cons (congrArg (Prod.mk name) (ofJson_toJson value)) (ofMembers_fieldJsons rest)

end

/-! ## Writing -/

mutual

/-- The text of a value is the text of its JSON value. -/
theorem jsonText_eq : ∀ value : Value, value.jsonText = value.toJson.text
  | .null | .boolean _ | .int _ | .string _ | .enum _ => rfl
  | .float f => by
    rw [jsonText, toJson, Json.Text.float]
    split
    · next hfinite => exact (if_pos hfinite).symm
    · rfl
  | .list items => congrArg Json.Text.array (jsonTexts_eq items)
  | .object fields => congrArg Json.Text.object (fieldJsonTexts_eq fields)

theorem jsonTexts_eq : ∀ items : List Value, jsonTexts items = Json.texts (toJsons items)
  | [] => rfl
  | item :: rest => congrArg₂ List.cons (jsonText_eq item) (jsonTexts_eq rest)

theorem fieldJsonTexts_eq : ∀ fields : List (String × Value),
    fieldJsonTexts fields = Json.memberTexts (fieldJsons fields)
  | [] => rfl
  | (name, value) :: rest =>
    congrArg₂ List.cons (congrArg (Prod.mk name) (jsonText_eq value)) (fieldJsonTexts_eq rest)

end

end Value

/-- A JSON value that is read as a variable stands, with whatever variables, for the value that it
    is read as directly. A value that becomes JSON and a value again is the same but for enum
    values, which are strings then, and floats that are not finite, which are null. Its text is the
    text of the JSON value. -/
theorem json_conversions_commute :
    (∀ (json : Json) (bindings : Variables) (steps : Nat),
      (InputValue.ofJson json).toValue bindings steps = some (Value.ofJson json)) ∧
    (∀ value : Value, Value.ofJson value.toJson = value.plain) ∧
    ∀ value : Value, value.jsonText = value.toJson.text := by
  refine ⟨fun json bindings steps => ?_, Value.ofJson_toJson, Value.jsonText_eq⟩
  rw [InputValue.ofJson_eq]
  exact Value.toValue_toInput bindings steps _

end GraphQL

import GraphQL.Proofs.Finishing
import Mathlib.Data.List.Nodup

/-!
# Eliminating variables

Variables are read where values are coerced, and what is not set reads differently there: an
argument or a declared field of an input object counts as left out, anything else as null. A field
can be rewritten beforehand so that no variables are left (`FieldSelection.eliminate`): bound
variables are replaced by their values, the others are left out or replaced by null. Which of the
two depends on the type at whose position a value stands, so the rewriting follows the types.

Arguments and the fields of input objects are declared under distinct names; otherwise one value
would stand at two positions.

Results:
* `Resolver.byName_redeclare`: declaring an argument is writing it under its name.
* `Types.DistinctFields.addInput`, `Resolver.nodup_declare`: declaring keeps names distinct.
* `InputValue.references_eliminate`: the rewriting leaves no references.
* `InputValue.find?_eliminateEntries`: what is found under a declared name.
* `InputValue.toValue_eliminate`: where there are no types, raw values stay the same.
-/

namespace GraphQL

/-! ## What is declared -/

variable {types : Types} {bindings : Variables} {arguments : List Argument}

/-- The fields of the input object that a type stands for, lists and non-null wrappers aside. -/
def Types.inputFields (types : Types) (position : Option TypeRef) : Entries InputField :=
  match (position.bind TypeRef.innerName?).bind types.inputType? with
  | some (.object fields) => fields
  | _ => []

/-- No two fields of an input object have the same name. -/
def Types.DistinctFields (types : Types) : Prop :=
  ∀ input ∈ types.inputs, (Entries.keys input.2).Nodup

theorem Types.mem_inputs_of_inputType? {name : String} {fields : Entries InputField}
    (h : types.inputType? name = some (.object fields)) : (name, fields) ∈ types.inputs := by
  unfold inputType? at h
  split at h
  · cases h
  · split at h
    · cases h
    · obtain ⟨_, hfields, ⟨⟩⟩ := Option.map_eq_some_iff.mp h
      exact Entries.mem_of_find? hfields

/-- Declaring an input object keeps the names of fields distinct. -/
theorem Types.DistinctFields.addInput (h : types.DistinctFields) (name : String)
    (fields : List (String × InputField)) : (types.addInput name fields).DistinctFields := by
  intro input hinput
  rw [Types.addInput, Entries.add] at hinput
  split at hinput
  · exact h input hinput
  · rcases List.mem_append.mp hinput with hknown | hnew
    · exact h input hknown
    · rw [List.mem_singleton.mp hnew]
      exact Entries.nodup_keys_ofListFirst fields

/-- Arguments under their names. -/
def Resolver.byName (arguments : List Argument) : Entries Argument :=
  arguments.map fun argument => (argument.name, argument)

theorem Resolver.keys_byName (arguments : List Argument) :
    Entries.keys (byName arguments) = arguments.map Argument.name := by
  rw [Entries.keys, byName, List.map_map]
  rfl

/-- A declaration is written under the name of its argument. -/
theorem Resolver.byName_redeclare (argument : Argument) (known : List Argument) :
    byName ((redeclare argument known).getD (known ++ [argument])) =
      Entries.put (byName known) argument.name argument := by
  induction known with
  | nil => rfl
  | cons first rest ih =>
    rw [redeclare, byName, byName, List.map_cons, Entries.put]
    by_cases h : first.name = argument.name
    · rw [if_pos h, if_pos h, h]
      rfl
    · rw [if_neg h, if_neg h]
      cases hrest : redeclare argument rest with
      | some _ | none =>
        rw [hrest] at ih
        exact congrArg ((first.name, first) :: ·) ih

/-- Declaring an argument keeps the names of arguments distinct. -/
theorem Resolver.nodup_declare {ref : Type} {resolver : Resolver ref}
    (h : (resolver.arguments.map Argument.name).Nodup) (argument : Argument) :
    ((resolver.declare argument).arguments.map Argument.name).Nodup := by
  cases resolver with
  | single known resolve =>
    rw [declare]
    split <;> simp [arguments]
  | named known resolve =>
    have hknown : (Entries.keys (byName known)).Nodup := by
      rw [keys_byName]
      exact h
    rw [declare, arguments, ← keys_byName, byName_redeclare]
    exact Entries.nodup_keys_put hknown _ _

/-- With distinct names, the name of an argument determines its type. -/
theorem type_eq_of_nodup (h : (arguments.map Argument.name).Nodup) :
    ∀ one ∈ arguments, ∀ other ∈ arguments, one.name = other.name → one.type = other.type :=
  fun _ hone _ hother hname =>
    congrArg Argument.type (List.inj_on_of_nodup_map h hone hother hname)

/-! ## Rewriting -/

namespace InputValue

/-- Whether an entry is left out: its name is declared, and it is a variable that is not set or
    stands behind one under the same name, which is the one that counts. -/
def leftOut (bindings : Variables) (declared : String → Bool) (written : Entries InputValue)
    (key : String) (value : InputValue) : Bool :=
  declared key && (Coercion.isUnset bindings value ||
    (Entries.find? written key).any (Coercion.isUnset bindings))

mutual

/-- Rewrites a value that stands at the position of a type, or at one that has no type. -/
def eliminate (types : Types) (bindings : Variables) (position : Option TypeRef) :
    InputValue → InputValue
  | .null => .null
  | .boolean b => .boolean b
  | .int i => .int i
  | .float f => .float f
  | .string s => .string s
  | .enum name => .enum name
  | .list items =>
    .list (eliminateItems types bindings (position.bind TypeRef.itemType?) items)
  | .object fields =>
    .object (eliminateEntries types bindings
      (fun key => (Entries.find? (types.inputFields position) key).map InputField.type)
      (leftOut bindings (Entries.has (types.inputFields position)) fields) fields)
  | .var name => (Entries.find? bindings name).getD .null

/-- Rewrites the items of a list. -/
def eliminateItems (types : Types) (bindings : Variables) (position : Option TypeRef) :
    List InputValue → List InputValue
  | [] => []
  | item :: rest =>
    item.eliminate types bindings position :: eliminateItems types bindings position rest

/-- Rewrites entries, each at the position that its name has, and leaves some of them out. -/
def eliminateEntries (types : Types) (bindings : Variables) (position : String → Option TypeRef)
    (out : String → InputValue → Bool) : List (String × InputValue) → List (String × InputValue)
  | [] => []
  | (key, value) :: rest =>
    if out key value then eliminateEntries types bindings position out rest
    else (key, value.eliminate types bindings (position key)) ::
      eliminateEntries types bindings position out rest

end

end InputValue

/-- Rewrites the arguments of a field at the types of their definitions. -/
def FieldSelection.eliminate {σ : Type} (types : Types) (bindings : Variables)
    (arguments : List Argument) (field : FieldSelection σ) : FieldSelection σ :=
  { field with
    arguments := InputValue.eliminateEntries types bindings
      (fun name => (arguments.find? (·.name = name)).map Argument.type)
      (InputValue.leftOut bindings (fun _ => true) field.arguments) field.arguments }

/-! ## What the rewriting leaves -/

namespace InputValue

variable {position : Option TypeRef}

theorem eliminateItems_eq_map (items : List InputValue) :
    eliminateItems types bindings position items =
      items.map (eliminate types bindings position) := by
  induction items with
  | nil => rfl
  | cons item rest ih => rw [eliminateItems, ih, List.map_cons]

theorem eliminateEntries_eq (position : String → Option TypeRef) (out : String → InputValue → Bool)
    (entries : Entries InputValue) :
    eliminateEntries types bindings position out entries =
      List.map (fun entry => (entry.1, entry.2.eliminate types bindings (position entry.1)))
        (List.filter (fun entry => !out entry.1 entry.2) entries) := by
  induction entries with
  | nil => rfl
  | cons entry rest ih =>
    rw [eliminateEntries, ih]
    cases h : out entry.1 entry.2 <;> simp [h]

/-- The rewriting leaves no references. -/
theorem references_eliminate (hclosed : bindings.Closed) (value : InputValue) :
    (value.eliminate types bindings position).references = [] := by
  induction value using induction generalizing position with
  | atom value hnone hlist hobject =>
    cases value with
    | list items => exact absurd rfl (hlist items)
    | object fields => exact absurd rfl (hobject fields)
    | var name => cases hnone
    | _ => rfl
  | list items ih =>
    simp only [eliminate, references, allReferences_eq_flatMap, eliminateItems_eq_map,
      List.flatMap_map, List.flatMap_eq_nil_iff]
    exact fun item hm => ih item hm
  | object fields ih =>
    simp only [eliminate, references, fieldReferences_eq_flatMap, eliminateEntries_eq,
      List.flatMap_map, List.flatMap_eq_nil_iff]
    exact fun entry hm => ih entry (List.mem_of_mem_filter hm)
  | var name => exact hclosed.references_getD name

theorem ne_var_of_references {value : InputValue} (h : value.references = []) (name : String) :
    value ≠ .var name := by
  rintro rfl
  cases h

theorem isUnset_of_references {value : InputValue} (h : value.references = []) :
    Coercion.isUnset bindings value = false := by
  cases value with
  | var name => cases h
  | _ => rfl

/-- A value without references is left as it is. -/
theorem eliminate_of_references {value : InputValue} (h : value.references = []) :
    value.eliminate types bindings position = value := by
  induction value using induction generalizing position with
  | atom value _ hlist hobject =>
    cases value with
    | list items => exact absurd rfl (hlist items)
    | object fields => exact absurd rfl (hobject fields)
    | var name => cases h
    | _ => rfl
  | list items ih =>
    rw [references, allReferences_eq_flatMap, List.flatMap_eq_nil_iff] at h
    rw [eliminate, eliminateItems_eq_map]
    rw [List.map_congr_left fun item hm => ih item hm (h item hm), List.map_id']
  | object fields ih =>
    rw [references, fieldReferences_eq_flatMap, List.flatMap_eq_nil_iff] at h
    have hstays : ∀ entry ∈ fields, leftOut bindings
        (Entries.has (types.inputFields position)) fields entry.1 entry.2 = false := by
      intro entry hm
      have hfirst : (Entries.find? fields entry.1).any (Coercion.isUnset bindings) = false := by
        cases hfind : Entries.find? fields entry.1 with
        | none => rfl
        | some first => exact isUnset_of_references (h _ (Entries.mem_of_find? hfind))
      simp [leftOut, isUnset_of_references (h entry hm), hfirst]
    rw [eliminate, eliminateEntries_eq, List.filter_eq_self.mpr fun entry hm => by
      rw [hstays entry hm, Bool.not_false]]
    rw [List.map_congr_left fun entry hm => by rw [ih entry hm (h entry hm)], List.map_id']
  | var name => cases h

/-! ## Positions -/

theorem eliminate_nonNull (inner : TypeRef) (value : InputValue) :
    value.eliminate types bindings (some (.nonNull inner)) =
      value.eliminate types bindings (some inner) := by
  cases value <;> rfl

theorem eliminate_list {value : InputValue} (h : ∀ items, value ≠ .list items) (item : TypeRef) :
    value.eliminate types bindings (some (.list item)) =
      value.eliminate types bindings (some item) := by
  cases value with
  | list items => exact absurd rfl (h items)
  | _ => rfl

/-- Where a scalar is read, nothing is left out. -/
theorem eliminate_scalar {name : String} {codec : ScalarCodec}
    (h : types.inputType? name = some (.scalar codec)) (value : InputValue) :
    value.eliminate types bindings (some (.named name)) = value.eliminate types bindings none := by
  have hfields : types.inputFields (some (.named name)) = [] := by
    simp [Types.inputFields, TypeRef.innerName?, h]
  cases value with
  | object fields =>
    rw [eliminate, eliminate, hfields]
    rfl
  | _ => rfl

theorem leftOut_of_not_declared {declared : String → Bool} {written : Entries InputValue}
    {key : String} (h : declared key = false) (value : InputValue) :
    leftOut bindings declared written key value = false := by
  rw [leftOut, h, Bool.false_and]

/-- A declared name is left out if its first value is a variable that is not set; all else is
    rewritten at its position. -/
theorem find?_eliminateEntries (position : String → Option TypeRef) {declared : String → Bool}
    (written : Entries InputValue) {key : String} (h : declared key = true) :
    Entries.find? (eliminateEntries types bindings position (leftOut bindings declared written)
        written) key =
      ((Entries.find? written key).filter fun value => !Coercion.isUnset bindings value).map
        (eliminate types bindings (position key)) := by
  rw [eliminateEntries_eq]
  refine (Entries.find?_map (fun key => eliminate types bindings (position key))
    _ key).trans (congrArg _ ?_)
  cases hfind : Entries.find? written key with
  | none =>
    rw [Entries.find?_filter (by simp [hfind]), hfind]
    rfl
  | some value =>
    cases hunset : Coercion.isUnset bindings value with
    | true =>
      rw [Entries.find?_filter_eq_none _ (by simp [leftOut, h, hfind, hunset])]
      simp [Option.filter, hunset]
    | false =>
      rw [Entries.find?_filter (by simp [leftOut, hfind, hunset]), hfind]
      simp [Option.filter, hunset]

/-- The first name that is not declared stays the first one. -/
theorem find?_keys_eliminateEntries (position : String → Option TypeRef) (declared : String → Bool)
    (written entries : Entries InputValue) :
    (Entries.keys (eliminateEntries types bindings position (leftOut bindings declared written)
        entries)).find? (fun key => !declared key) =
      (Entries.keys entries).find? fun key => !declared key := by
  induction entries with
  | nil => rfl
  | cons entry rest ih =>
    obtain ⟨key, value⟩ := entry
    rw [eliminateEntries]
    cases hdeclared : declared key with
    | false =>
      rw [leftOut_of_not_declared hdeclared value]
      simp [Entries.keys, hdeclared]
    | true =>
      split
      · simpa [Entries.keys, hdeclared] using ih
      · simpa [Entries.keys, hdeclared] using ih

/-! ## Raw values -/

/-- A value without references is filled in alike whatever variables hold. -/
theorem exists_fill {value : InputValue} (h : value.references = []) :
    ∃ raw, ∀ read, value.fill read = some raw := by
  have hfinishes : Finishes fun _ => value.fill fun _ => none := fill_finishes (by simp [h])
  obtain ⟨bound, raw, hraw⟩ := hfinishes
  exact ⟨raw, fun read =>
    fill_approximates (fun _ => .none _) value raw (hraw bound (Nat.le_refl bound))⟩

/-- What is filled in for a value is filled in for its rewriting where there are no types. -/
theorem fill_eliminate {read wider : String → Option Value}
    (h : ∀ name, Approximates (read name)
      (((Entries.find? bindings name).getD .null).fill wider)) (value : InputValue) :
    Approximates (value.fill read) ((value.eliminate types bindings none).fill wider) := by
  induction value using induction with
  | atom value hnone hlist hobject =>
    cases value with
    | list items => exact absurd rfl (hlist items)
    | object fields => exact absurd rfl (hobject fields)
    | var name => cases hnone
    | _ => exact .refl _
  | list items ih =>
    simp only [eliminate, Option.bind_none, eliminateItems_eq_map, fill, fillAll_eq_mapM,
      List.mapM_map]
    exact (Approximates.mapM ih).map _
  | object fields ih =>
    have hall : ∀ entry ∈ fields,
        (!leftOut bindings (Entries.has (types.inputFields none)) fields entry.1 entry.2) = true :=
      fun entry _ => by rw [leftOut_of_not_declared rfl]; rfl
    simp only [eliminate, eliminateEntries_eq, List.filter_eq_self.mpr hall, fill,
      fillFields_eq_mapM, List.mapM_map]
    exact (Approximates.mapM fun entry hm => (ih entry hm).map _).map _
  | var name => exact h name

/-- The raw value of a rewriting where there are no types is that of the value. -/
theorem toValue_eliminate (hclosed : bindings.Closed) (steps more : Nat) (value : InputValue) :
    Approximates (value.toValue bindings steps)
      ((value.eliminate types bindings none).toValue [] more) := by
  have hfill : ∀ wider, Approximates (value.toValue bindings steps)
      ((value.eliminate types bindings none).fill wider) := by
    intro wider
    cases steps with
    | zero => exact fill_eliminate (fun _ => .none _) value
    | succ steps =>
      refine fill_eliminate (fun name => ?_) value
      cases hbound : Entries.find? bindings name with
      | none => exact .refl _
      | some bound =>
        obtain ⟨raw, hraw⟩ := exists_fill (hclosed name bound hbound)
        cases bound with
        | var nested => cases hclosed name _ hbound
        | _ =>
          dsimp only
          rw [Option.getD_some, hraw]
          cases steps <;> rw [toValue, hraw] <;> exact .refl _
  cases more <;> exact hfill _

end InputValue

end GraphQL

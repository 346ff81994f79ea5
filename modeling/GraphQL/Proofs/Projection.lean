import GraphQL.Execution.Leaf
import GraphQL.Proofs.Conformance
import GraphQL.Proofs.NestedReferences
import GraphQL.Proofs.Record
import GraphQL.Proofs.UuidForms

/-!
# Coercion is a projection

Coercion brings a value into the form of its type: a single value becomes a list of one, a whole
number a float or an ID, a string the name of an enum value, and what was left out its default. All
of this happens at most once. A value in the form of its type is `Fixed`: coercing it again gives
the same value, and so does writing it as a leaf.

Coercion gives values that conform to their types, and those are fixed, by induction on conformance.
Two kinds of values are not made by coercion itself and have to be fixed beforehand: what codecs
read (`ScalarCodec.Projects`) and the defaults of input objects (`Types.DefaultsStay`).

Results:
* `ScalarCodec.projects_uuid`, `ScalarCodec.projects_json`: two codecs of this kind.
* `Conforms.fixed`: what conforms to its type is fixed.
* `coercion_projects`: coercing what has been coerced, and writing it, changes nothing.
-/

namespace GraphQL

/-! ## Codecs and defaults -/

/-- A codec never reads null out of a value, and what it reads it takes as it is: read again it
    stays the same, and it is written as it stands. -/
structure ScalarCodec.Projects (codec : ScalarCodec) : Prop where
  keeps : ∀ raw, raw ≠ .null → codec.decode raw ≠ .ok .null
  decoded : ∀ raw value, codec.decode raw = .ok value → codec.decode value = .ok value
  encoded : ∀ raw value, codec.decode raw = .ok value → codec.encode value = value

/-- All codecs are such. -/
def Scalars.Project (scalars : Scalars) : Prop :=
  ∀ name codec, Entries.find? scalars name = some codec → codec.Projects

/-- The defaults of input objects are coerced to themselves at the types of their fields. -/
def Types.DefaultsStay (types : Types) : Prop :=
  ∀ input ∈ types.inputs, ∀ field ∈ input.2, ∀ value, field.2.defaultValue = some value →
    Coercion.Ends (fun bound => coerce types [] bound field.2.type value.toInput) (.ok value)

namespace ScalarCodec

theorem projects_uuid : uuid.Projects where
  keeps _ _ := uuid_decode_ne_null _
  decoded _ _ h := by
    obtain ⟨_, id, -, -, rfl⟩ := uuid_decode_eq_ok_iff.mp h
    exact uuid_decode_of_denotes id.denotes_text
  encoded _ _ h := by
    obtain ⟨_, id, -, -, rfl⟩ := uuid_decode_eq_ok_iff.mp h
    exact uuid_encode_of_denotes id.denotes_text

theorem projects_json : json.Projects where
  keeps _ hnull h := hnull (Except.ok.inj h)
  decoded _ _ _ := rfl
  encoded _ _ _ := rfl

end ScalarCodec

theorem Scalars.Project.keepValues {scalars : Scalars} (h : scalars.Project) :
    scalars.KeepValues :=
  fun name codec hcodec => (h name codec hcodec).keeps

/-! ## Values that are read back -/

namespace Value

theorem toInputs_eq_map (items : List Value) : toInputs items = items.map toInput := by
  induction items with
  | nil => rfl
  | cons item rest ih => rw [toInputs, ih, List.map_cons]

theorem fieldInputs_eq_mapValues (fields : Fields) :
    fieldInputs fields = Entries.mapValues toInput fields := by
  induction fields with
  | nil => rfl
  | cons field rest ih =>
    rw [fieldInputs, ih]
    rfl

theorem keys_fieldInputs (fields : Fields) :
    Entries.keys (fieldInputs fields) = Entries.keys fields := by
  rw [fieldInputs_eq_mapValues, Entries.keys, Entries.mapValues, List.map_map]
  rfl

theorem toInput_ne_var (value : Value) (name : String) : value.toInput ≠ .var name := by
  cases value <;> simp [toInput]

theorem toInput_ne_null {value : Value} (h : value ≠ .null) : value.toInput ≠ .null := by
  cases value <;> simp_all [toInput]

/-- A value has no references. -/
theorem references_toInput (value : Value) : value.toInput.references = [] := by
  induction value using Value.induction with
  | scalar value hitems hfields =>
    cases value with
    | list items => cases hitems
    | object fields => cases hfields
    | _ => rfl
  | list items ih =>
    rw [toInput, InputValue.references, InputValue.allReferences_eq_flatMap, toInputs_eq_map,
      List.flatMap_map]
    exact List.flatMap_eq_nil_iff.mpr ih
  | object fields ih =>
    rw [toInput, InputValue.references, InputValue.fieldReferences_eq_flatMap,
      fieldInputs_eq_mapValues, Entries.mapValues, List.flatMap_map]
    exact List.flatMap_eq_nil_iff.mpr ih

/-- Without references there is nothing to fill in. -/
theorem fill_toInput (read : String → Option Value) (value : Value) :
    value.toInput.fill read = some value := by
  induction value using Value.induction with
  | scalar value hitems hfields =>
    cases value with
    | list items => cases hitems
    | object fields => cases hfields
    | _ => rfl
  | list items ih =>
    have hsame : ∀ item ∈ items, (InputValue.fill read ∘ toInput) item = some item := ih
    have hitems : (items.map toInput).mapM (InputValue.fill read) = some items := by
      rw [List.mapM_map, mapM_congr hsame]
      exact List.mapM_pure.trans (congrArg some (List.map_id items))
    rw [toInput, InputValue.fill, InputValue.fillAll_eq_mapM, toInputs_eq_map, hitems]
    rfl
  | object fields ih =>
    have hsame : ∀ field ∈ fields, (field.2.toInput.fill read).map (fun value => (field.1, value)) =
        some field := by
      intro field hm
      rw [ih field hm]
      rfl
    have hfields : (Entries.mapValues toInput fields).mapM
        (fun entry => (entry.2.fill read).map fun value => (entry.1, value)) = some fields := by
      rw [Entries.mapValues, List.mapM_map]
      refine (mapM_congr hsame).trans ?_
      exact List.mapM_pure.trans (congrArg some (List.map_id fields))
    rw [toInput, InputValue.fill, InputValue.fillFields_eq_mapM, fieldInputs_eq_mapValues, hfields]
    rfl

/-- A value that is read back is its own raw value. -/
theorem toValue_toInput (bindings : Variables) (steps : Nat) (value : Value) :
    value.toInput.toValue bindings steps = some value := by
  cases steps <;> exact fill_toInput _ value

end Value

/-! ## Leaves -/

/-- The codec that writes the values of a named type is the one that reads them. -/
theorem completeLeaf_inputType (types : Types) {value : Value} (h : value ≠ .null)
    (name : String) :
    completeLeaf types (.named name) value =
      match types.inputType? name with
      | some (.scalar codec) => codec.encode value
      | _ => value := by
  rw [completeLeaf_named types h, Types.inputType?]
  cases Entries.find? types.scalars name with
  | some codec => rfl
  | none =>
    cases Entries.find? types.enums name with
    | some values => rfl
    | none => cases Entries.find? types.inputs name <;> rfl

namespace Coercion

/-! ## Coercions that succeed together -/

section Results

variable {ε α β : Type}

theorem Ends.bind_ok {coercion : Nat → Result ε α} {next : Nat → α → Result ε β} {a : α} {b : β}
    (h : Ends coercion (.ok a)) (hnext : Ends (fun bound => next bound a) (.ok b)) :
    Ends (fun bound => coercion bound >>= next bound) (.ok b) := by
  obtain ⟨first, hfirst⟩ := h
  obtain ⟨second, hsecond⟩ := hnext
  refine ⟨max first second, fun more hle => bind_eq_ok_iff.mpr ?_⟩
  exact ⟨a, hfirst more (by omega), hsecond more (by omega)⟩

theorem Ends.pure (a : α) : Ends (fun _ => (Pure.pure a : Result ε α)) (.ok a) :=
  ⟨0, fun _ _ => rfl⟩

/-- Along a list, the results of items that succeed are the result. -/
theorem Ends.mapM_ok {coercion : Nat → α → Result ε β} {items : List α} {results : List β}
    (h : List.Forall₂ (fun item result => Ends (fun bound => coercion bound item) (.ok result))
      items results) :
    Ends (fun bound => items.mapM (coercion bound)) (.ok results) := by
  induction h with
  | nil => exact .pure []
  | cons hfirst _ ih =>
    simp only [List.mapM_cons]
    exact hfirst.bind_ok (ih.bind_ok (.pure _))

end Results

/-! ## Fixed values -/

/-- Coercing the value again gives the same value, and so does writing it. -/
structure Fixed (types : Types) (type : TypeRef) (value : Value) : Prop where
  coerced : Ends (fun bound => coerce types [] bound type value.toInput) (.ok value)
  written : completeLeaf types type value = value

variable {types : Types}

theorem fixed_null {type : TypeRef} (h : type.isNonNull = false) : Fixed types type .null where
  coerced := by
    refine .succ ⟨0, fun bound _ => ?_⟩
    cases type with
    | nonNull inner => cases h
    | _ => rfl
  written := completeLeaf_null types type

theorem Fixed.nonNull {inner : TypeRef} {value : Value} (hnull : value ≠ .null)
    (h : Fixed types inner value) : Fixed types (.nonNull inner) value where
  coerced := by
    refine .succ ?_
    simp only [coerce_nonNull value.toInput_ne_var (Value.toInput_ne_null hnull)]
    exact h.coerced
  written := by rw [completeLeaf_nonNull, h.written]

/-- A list is fixed if its items are. No single value is put in place of a list any more. -/
theorem fixed_list {item : TypeRef} {items : List Value}
    (h : ∀ value ∈ items, Fixed types item value) : Fixed types (.list item) (.list items) where
  coerced := by
    refine .succ ?_
    simp only [Value.toInput, Value.toInputs_eq_map, coerce_list]
    refine (Ends.mapM_ok ?_).bind_ok (.pure _)
    exact List.forall₂_map_left_iff.mpr (List.forall₂_same.mpr fun value hm => (h value hm).coerced)
  written := by
    have hitems : items.map (completeLeaf types item) = items.map id :=
      List.map_congr_left fun value hm => (h value hm).written
    show Value.list (items.map (completeLeaf types item)) = .list items
    rw [hitems, List.map_id]

/-- A value of a built-in scalar is fixed if that scalar takes it. -/
theorem fixed_builtin {type : TypeRef} {value : Value} (hbuiltin : type.isBuiltin = true)
    (hnull : value ≠ .null) (hcoerced : coerceBuiltin type value.toInput = .ok value)
    (hwritten : completeLeaf types type value = value) : Fixed types type value where
  coerced := by
    refine .succ ⟨0, fun bound _ => ?_⟩
    show (coerce types [] (bound + 1) type value.toInput).run = _
    rw [coerce_builtin value.toInput_ne_var (Value.toInput_ne_null hnull) hbuiltin, hcoerced]
    rfl
  written := hwritten

/-- A value of a named type is fixed if what the name stands for takes it. -/
theorem fixed_named {name : String} {value : Value} (hnull : value ≠ .null)
    (hcoerced : Ends (fun bound =>
      coerceNamed types [] bound (coerce types [] bound) name value.toInput) (.ok value))
    (hwritten : ∀ codec, types.inputType? name = some (.scalar codec) →
      codec.encode value = value) : Fixed types (.named name) value where
  coerced := by
    refine .succ ?_
    simp only [coerce_named value.toInput_ne_var (Value.toInput_ne_null hnull)]
    exact hcoerced
  written := by
    rw [completeLeaf_inputType types hnull]
    split
    · next codec htype => exact hwritten codec htype
    · rfl

theorem fixed_enum {name member : String} {values : List String}
    (htype : types.inputType? name = some (.enum values)) (hmember : member ∈ values) :
    Fixed types (.named name) (.enum member) := by
  have hcontains : values.contains member = true := List.contains_iff_mem.mpr hmember
  refine fixed_named (by simp) ⟨0, fun bound _ => ?_⟩ fun codec hcodec => ?_
  · show (coerceNamed types [] bound (coerce types [] bound) name (.enum member)).run = _
    rw [coerceNamed_eq, htype]
    show some (coerceEnum name values (.enum member)) = _
    rw [coerceEnum, if_pos hcontains]
  · rw [htype] at hcodec
    cases hcodec

/-- What a codec has read is fixed if the codec takes it as it is. -/
theorem fixed_scalar {name : String} {codec : ScalarCodec} {raw value : Value}
    (htype : types.inputType? name = some (.scalar codec)) (hcodec : codec.Projects)
    (hdecode : codec.decode raw = .ok value) : Fixed types (.named name) value := by
  by_cases hnull : value = .null
  · rw [hnull]
    exact fixed_null rfl
  refine fixed_named hnull ⟨0, fun bound _ => ?_⟩ fun other hother => ?_
  · show (coerceNamed types [] bound (coerce types [] bound) name value.toInput).run = _
    rw [coerceNamed_eq, htype]
    show (coerceScalar [] bound name codec value.toInput).run = _
    simp only [coerceScalar, Value.toValue_toInput, hcodec.decoded raw value hdecode]
    rfl
  · rw [htype] at hother
    cases hother
    exact hcodec.encoded raw value hdecode

/-- In an object that has been coerced each field finds the value of its own entry, which is set. -/
theorem coerceField_entry {name : String} {entries : Fields} (hnodup : (Entries.keys entries).Nodup)
    {entry : String × Value} (hm : entry ∈ entries) (field : InputField)
    (coerceValue : TypeRef → InputValue → Result CoercionError Value) :
    coerceField [] coerceValue name (Value.fieldInputs entries) entry.1 field =
      coerceValue field.type entry.2.toInput := by
  have hvalue : Entries.find? (Value.fieldInputs entries) entry.1 = some entry.2.toInput := by
    rw [Value.fieldInputs_eq_mapValues, Entries.find?_mapValues, Entries.find?_of_mem hnodup hm]
    rfl
  have hset : isUnset [] entry.2.toInput = false := by
    cases hinput : entry.2.toInput with
    | var reference => exact absurd hinput (entry.2.toInput_ne_var reference)
    | _ => rfl
  rw [coerceField, hvalue, Option.filter_some, hset]
  rfl

/-- An input object is fixed if its entries stand as they are declared and each of them is coerced
    to itself. -/
theorem fixed_object {name : String} {fields : Entries InputField} {entries : Fields}
    (htype : types.inputType? name = some (.object fields)) (hnodup : (Entries.keys fields).Nodup)
    (hkeys : Entries.keys entries = Entries.keys fields)
    (hentries : ∀ pair ∈ fields.zip entries, Ends (fun bound =>
      coerce types [] bound pair.1.2.type pair.2.2.toInput) (.ok pair.2.2)) :
    Fixed types (.named name) (.object entries) := by
  have hknown : (Entries.keys (Value.fieldInputs entries)).find?
      (fun key => !Entries.has fields key) = none := by
    refine List.find?_eq_none.mpr fun key hm => ?_
    rw [Value.keys_fieldInputs, hkeys] at hm
    rw [(Entries.has_iff_mem_keys fields key).mpr hm]
    decide
  have hnames : List.Forall₂ (fun field entry => field.1 = entry.1) fields entries :=
    Entries.map_eq_keys_iff.mp hkeys.symm
  obtain ⟨hlength, hnames⟩ := List.forall₂_iff_zip.mp hnames
  have hpairs : List.Forall₂ (fun (field : String × InputField) (entry : String × Value) =>
      Ends (fun bound => coerceField [] (coerce types [] bound) name (Value.fieldInputs entries)
        field.1 field.2 >>= fun value => (Pure.pure (field.1, value) : Result CoercionError _))
        (.ok entry)) fields entries := by
    refine List.forall₂_iff_zip.mpr ⟨hlength, @fun field entry hpair => ?_⟩
    have hname : field.1 = entry.1 := hnames hpair
    simp only [hname, coerceField_entry (hkeys ▸ hnodup) (List.of_mem_zip hpair).2]
    exact (hentries (field, entry) hpair).bind_ok (.pure _)
  refine fixed_named (by simp) ?_ fun codec hcodec => ?_
  · simp only [coerceNamed_eq, htype, Value.toInput, coerceObject, hknown]
    exact (Ends.mapM_ok hpairs).bind_ok (.pure _)
  · rw [htype] at hcodec
    cases hcodec

end Coercion

open Coercion

/-- What conforms to its type is fixed. -/
theorem Conforms.fixed {types : Types} (hdistinct : types.DistinctFields)
    (hdefaults : types.DefaultsStay) (hscalars : types.scalars.Project) {type : TypeRef}
    {value : Value} (h : Conforms types type value) : Fixed types type value := by
  induction h with
  | null hnullable => exact fixed_null hnullable
  | nonNull hnull _ ih => exact ih.nonNull hnull
  | list _ ih => exact fixed_list ih
  | string s => exact fixed_builtin rfl (by simp) rfl rfl
  | boolean b => exact fixed_builtin rfl (by simp) rfl rfl
  | id s => exact fixed_builtin rfl (by simp) rfl rfl
  | @int i hmin hmax =>
    have hfits : fitsInt32 i = true := by
      have hleast : Int32.minValue.toInt = -2 ^ 31 := by decide
      have hgreatest : Int32.maxValue.toInt = 2 ^ 31 - 1 := by decide
      simp only [fitsInt32, Bool.and_eq_true, decide_eq_true_eq]
      omega
    exact fixed_builtin rfl (by simp) (if_pos hfits) rfl
  | float hfinite => exact fixed_builtin rfl (by simp) (if_pos hfinite) rfl
  | enum htype hmember => exact fixed_enum htype hmember
  | @object name fields entries htype hkeys _ ih =>
    have hinput : (name, fields) ∈ types.inputs := Types.mem_inputs_of_inputType? htype
    refine fixed_object htype (hdistinct _ hinput) hkeys fun pair hpair => ?_
    by_cases hdefault : pair.1.2.defaultValue = some pair.2.2
    · exact hdefaults _ hinput pair.1 (List.of_mem_zip hpair).1 _ hdefault
    · exact (ih pair hpair hdefault).coerced
  | scalar htype hdecode =>
    have hcodec := hscalars _ _ (Types.inputType?_eq_scalar_iff.mp htype)
    exact fixed_scalar htype hcodec hdecode

/-- The codecs of UUIDs and of arbitrary values take what they read as it is. In every schema whose
    codecs do so, and in which defaults are coerced to themselves at the types of their fields,
    coercing what coercion gave changes nothing, whatever the variables are, and neither does
    writing it as a leaf of the type. -/
theorem coercion_projects :
    ScalarCodec.uuid.Projects ∧ ScalarCodec.json.Projects ∧
    ∀ types : Types, types.DistinctFields → types.DefaultsStay → types.scalars.Project →
      ∀ bindings bound type written value,
        (coerce types bindings bound type written).run = some (.ok value) →
        (∀ other, Ends (fun more => coerce types other more type value.toInput) (.ok value)) ∧
        completeLeaf types type value = value := by
  refine ⟨ScalarCodec.projects_uuid, ScalarCodec.projects_json, ?_⟩
  intro types hdistinct hdefaults hscalars bindings bound type written value h
  have hconforms : Conforms types type value := (sound hscalars.keepValues bound _ _ _ h).1
  have hfixed : Fixed types type value := hconforms.fixed hdistinct hdefaults hscalars
  refine ⟨fun other => ?_, hfixed.written⟩
  -- What is read back has no references, so the variables do not matter.
  have hflat : Variables.Flat [] := fun name value hbound => nomatch hbound
  have hsame : ∀ more, coerce types other more type value.toInput =
      coerce types [] more type value.toInput := fun more =>
    coerce_congr hflat more type value.toInput (.of_references value.references_toInput)
  simp only [hsame]
  exact hfixed.coerced

namespace Sample

/-- A filter for ships: some of them by name, ranks in watches, a load, a dock and what else to
    look at. -/
def filterTypes : Types where
  enums := [("Rank", ["CAPTAIN", "PILOT"])]
  inputs := [("Filter",
    [("ids", { type := .list (.nonNull .id) }),
      ("watches", ⟨.list (.list (.named "Rank")), some (.list [.list [.enum "PILOT"]])⟩),
      ("load", { type := .float, defaultValue := some (.float (floatOfInt 1)) }),
      ("dock", { type := .named "Uuid" }),
      ("within", { type := .named "Filter" })])]
  scalars := [("Uuid", .uuid), ("Json", .json)]

/-- A filter within a filter, with a number for a list of names, a single rank for the watches and a
    whole number for the load. -/
def filter : InputValue :=
  .object [("within", .object []), ("load", .int 3), ("watches", .var "rank"), ("ids", .int 7),
    ("dock", .string "urn:uuid:00000000-0000-0000-0000-00000000000A")]

def coercedFilter : Value :=
  .object [("ids", .list [.string "7"]), ("watches", .list [.list [.enum "CAPTAIN"]]),
    ("load", .float (floatOfInt 3)), ("dock", .string "00000000-0000-0000-0000-00000000000a"),
    ("within", .object [("ids", .null), ("watches", .list [.list [.enum "PILOT"]]),
      ("load", .float (floatOfInt 1)), ("dock", .null), ("within", .null)])]

theorem defaultsStay_filterTypes : filterTypes.DefaultsStay := by
  intro input hinput field hfield value hdefault
  obtain rfl := List.mem_singleton.mp hinput
  simp only [List.mem_cons, List.not_mem_nil, or_false] at hfield
  rcases hfield with rfl | rfl | rfl | rfl | rfl
  · cases hdefault
  · cases hdefault
    have hrun : (coerce filterTypes [] 4 (.list (.list (.named "Rank")))
      (.list [.list [.enum "PILOT"]])).run = some (.ok _) := rfl
    exact .of_run hrun
  · cases hdefault
    have hrun : (coerce filterTypes [] 1 .float (.float (floatOfInt 1))).run = some (.ok _) := rfl
    exact .of_run hrun
  · cases hdefault
  · cases hdefault

theorem project_filterTypes : filterTypes.scalars.Project := by
  intro name codec hcodec
  simp only [filterTypes, Entries.find?_cons, Entries.find?_nil] at hcodec
  split at hcodec
  · cases hcodec
    exact ScalarCodec.projects_uuid
  · split at hcodec
    · cases hcodec
      exact ScalarCodec.projects_json
    · cases hcodec

end Sample

/-- Everything that coercion does to a value is done to this filter, and it is done once. -/
theorem coercion_projects_filter :
    (coerce Sample.filterTypes [("rank", .string "CAPTAIN")] 9 (.named "Filter")
      Sample.filter).run = some (.ok Sample.coercedFilter) ∧
    Ends (fun more => coerce Sample.filterTypes [] more (.named "Filter")
      Sample.coercedFilter.toInput) (.ok Sample.coercedFilter) ∧
    completeLeaf Sample.filterTypes (.named "Filter") Sample.coercedFilter =
      Sample.coercedFilter := by
  have hrun : (coerce Sample.filterTypes [("rank", .string "CAPTAIN")] 9 (.named "Filter")
    Sample.filter).run = some (.ok Sample.coercedFilter) := rfl
  have hdistinct : Sample.filterTypes.DistinctFields := by
    intro input hinput
    obtain rfl := List.mem_singleton.mp hinput
    decide
  obtain ⟨-, -, hprojects⟩ := coercion_projects
  obtain ⟨hends, hwritten⟩ := hprojects Sample.filterTypes hdistinct
    Sample.defaultsStay_filterTypes Sample.project_filterTypes _ _ _ _ _ hrun
  exact ⟨hrun, hends [], hwritten⟩

end GraphQL

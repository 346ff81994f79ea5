import GraphQL.Proofs.Coercion
import GraphQL.Proofs.WholeFloats

/-!
# Coerced values conform to their types

What coercion hands to a resolver has the form its type promises (`Conforms`), whatever was written
and whatever the variables hold. Non-null types carry the argument: coercion forbids null before it
looks at the type inside, so nothing may turn a value into null later. Only a codec could, and the
statements suppose that none does (`Scalars.KeepValues`).

Results:
* `coerced_conforms`: a coercion that succeeds gives a value that conforms to the type.
-/

namespace GraphQL

/-! ## Conformance -/

/-- A value has the form that an input type promises. -/
inductive Conforms (types : Types) : TypeRef → Value → Prop
  | null {type : TypeRef} : type.isNonNull = false → Conforms types type .null
  | nonNull {inner : TypeRef} {value : Value} :
    value ≠ .null → Conforms types inner value → Conforms types (.nonNull inner) value
  | list {item : TypeRef} {items : List Value} :
    (∀ value ∈ items, Conforms types item value) → Conforms types (.list item) (.list items)
  | string (s : String) : Conforms types .string (.string s)
  | boolean (b : Bool) : Conforms types .boolean (.boolean b)
  | id (s : String) : Conforms types .id (.string s)
  | int {i : Int64} : -2 ^ 31 ≤ i.toInt → i.toInt < 2 ^ 31 → Conforms types .int (.int i)
  | float {f : Float} : f.isFinite = true → Conforms types .float (.float f)
  | enum {name : String} {values : List String} {member : String} :
    types.inputType? name = some (.enum values) → member ∈ values →
    Conforms types (.named name) (.enum member)
  /-- The fields stand as they are declared; what is no default conforms to its field's type. -/
  | object {name : String} {fields : Entries InputField} {entries : Fields} :
    types.inputType? name = some (.object fields) → Entries.keys entries = Entries.keys fields →
    (∀ pair ∈ fields.zip entries,
      pair.1.2.defaultValue ≠ some pair.2.2 → Conforms types pair.1.2.type pair.2.2) →
    Conforms types (.named name) (.object entries)
  | scalar {name : String} {codec : ScalarCodec} {raw value : Value} :
    types.inputType? name = some (.scalar codec) → codec.decode raw = .ok value →
    Conforms types (.named name) value

/-- No codec reads null out of a value. -/
def Scalars.KeepValues (scalars : Scalars) : Prop :=
  ∀ name codec, Entries.find? scalars name = some codec →
    ∀ raw, raw ≠ .null → codec.decode raw ≠ .ok .null

theorem Types.inputType?_eq_scalar_iff {types : Types} {name : String} {codec : ScalarCodec} :
    types.inputType? name = some (.scalar codec) ↔
      Entries.find? types.scalars name = some codec := by
  unfold inputType?
  cases Entries.find? types.scalars name with
  | some registered => simp
  | none => cases Entries.find? types.enums name <;> simp

/-! ## Values that are not null -/

/-- Filling in variables makes no value null but null itself and references. -/
theorem InputValue.toValue_ne_null {bindings : Variables} {steps : Nat} {value : InputValue}
    (hnull : value ≠ .null) (hvar : ∀ name, value ≠ .var name) :
    value.toValue bindings steps ≠ some .null := by
  intro h
  cases steps <;> cases value with
  | null => exact hnull rfl
  | var name => exact hvar name rfl
  | list items =>
    obtain ⟨_, _, ⟨⟩⟩ := Option.map_eq_some_iff.mp h
  | object fields =>
    obtain ⟨_, _, ⟨⟩⟩ := Option.map_eq_some_iff.mp h
  | boolean | int | float | string | enum => cases h

namespace Coercion

variable {types : Types} {bindings : Variables} {bound : Nat}

/-! ## Steps -/

/-- What coercion within the bound keeps: results conform, and only null becomes null. -/
def Sound (types : Types) (bindings : Variables) (bound : Nat) : Prop :=
  ∀ type written result, (coerce types bindings bound type written).run = some (.ok result) →
    Conforms types type result ∧
      ∀ value, resolve bindings written = .ok value → value ≠ .null → result ≠ .null

/-- The values of the built-in scalars. -/
theorem conforms_of_coerceBuiltin {type : TypeRef} {value : InputValue} {result : Value}
    (h : coerceBuiltin type value = .ok result) :
    Conforms types type result ∧ result ≠ .null := by
  unfold coerceBuiltin at h
  split at h
  · cases h
    exact ⟨.string _, nofun⟩
  · next i =>
    split at h
    · next hfits =>
      cases h
      simp only [fitsInt32, Bool.and_eq_true, decide_eq_true_eq] at hfits
      have hmin : Int32.minValue.toInt = -2 ^ 31 := by decide
      have hmax : Int32.maxValue.toInt = 2 ^ 31 - 1 := by decide
      exact ⟨.int (by omega) (by omega), nofun⟩
    · cases h
  · split at h
    · next hfinite =>
      cases h
      exact ⟨.float hfinite, nofun⟩
    · cases h
  · next i =>
    cases h
    have hbound : i.toInt.natAbs < 2 ^ 64 := by
      have hmin := i.le_toInt
      have hmax := i.toInt_lt
      omega
    exact ⟨.float (isFinite_floatOfInt hbound), nofun⟩
  · cases h
    exact ⟨.boolean _, nofun⟩
  · cases h
    exact ⟨.id _, nofun⟩
  · cases h
    exact ⟨.id _, nofun⟩
  · cases h

theorem conforms_of_coerceScalar {name : String} {codec : ScalarCodec}
    (hcodecs : types.scalars.KeepValues) (htype : types.inputType? name = some (.scalar codec))
    {value : InputValue} (hnull : value ≠ .null) (hvar : ∀ reference, value ≠ .var reference)
    {result : Value}
    (h : (coerceScalar bindings bound name codec value).run = some (.ok result)) :
    Conforms types (.named name) result ∧ result ≠ .null := by
  unfold coerceScalar at h
  split at h
  · cases h
  · next raw hraw =>
    have hne : raw ≠ .null := by
      rintro rfl
      exact InputValue.toValue_ne_null hnull hvar hraw
    split at h
    · next decoded hdecoded =>
      cases h
      refine ⟨.scalar htype hdecoded, ?_⟩
      rintro rfl
      exact hcodecs name codec (Types.inputType?_eq_scalar_iff.mp htype) raw hne hdecoded
    · cases h

theorem conforms_of_coerceEnum {name : String} {values : List String}
    (htype : types.inputType? name = some (.enum values)) {value : InputValue} {result : Value}
    (h : coerceEnum name values value = .ok result) :
    Conforms types (.named name) result ∧ result ≠ .null := by
  unfold coerceEnum at h
  split at h
  all_goals try cases h
  all_goals
    split at h
    · next hmember =>
      cases h
      exact ⟨.enum htype (by simpa using hmember), nofun⟩
    · cases h

/-- One field of an input object. -/
theorem conforms_of_coerceField (ih : Sound types bindings bound) {inputType name : String}
    {supplied : Entries InputValue} {field : InputField} {result : Value}
    (h : (coerceField bindings (coerce types bindings bound) inputType supplied name field).run =
      some (.ok result)) :
    field.defaultValue ≠ some result → Conforms types field.type result := by
  intro hdefault
  unfold coerceField at h
  split at h
  · exact (ih _ _ _ h).1
  · split at h
    · next value hvalue =>
      cases h
      exact absurd hvalue hdefault
    · split at h
      · cases h
      · next hnullable =>
        cases h
        exact .null (by simpa using hnullable)

theorem conforms_of_coerceObject (ih : Sound types bindings bound) {name : String}
    {fields : Entries InputField} (htype : types.inputType? name = some (.object fields))
    {value : InputValue} {result : Value}
    (h : (coerceObject bindings (coerce types bindings bound) name fields value).run =
      some (.ok result)) :
    Conforms types (.named name) result ∧ result ≠ .null := by
  unfold coerceObject at h
  split at h
  · next supplied =>
    split at h
    · cases h
    · obtain ⟨entries, hentries, ⟨⟩⟩ := bind_eq_ok_iff.mp h
      refine ⟨?_, nofun⟩
      have hpairs : List.Forall₂ (fun (field : String × InputField) (entry : String × Value) =>
          entry.1 = field.1 ∧ (field.2.defaultValue ≠ some entry.2 →
            Conforms types field.2.type entry.2)) fields entries := by
        refine (mapM_eq_ok_iff.mp hentries).imp fun field entry hentry => ?_
        obtain ⟨coerced, hcoerced, ⟨⟩⟩ := bind_eq_ok_iff.mp hentry
        exact ⟨rfl, conforms_of_coerceField ih hcoerced⟩
      have hkeys : Entries.keys fields = Entries.keys entries :=
        Entries.map_eq_keys_iff.mpr (hpairs.imp fun _ _ hpair => hpair.1.symm)
      exact .object htype hkeys.symm fun pair hpair => ((List.forall₂_iff_zip.mp hpairs).2 hpair).2
  · cases h

/-- One step keeps soundness. -/
theorem Gives.conforms (hcodecs : types.scalars.KeepValues) (ih : Sound types bindings bound)
    {type : TypeRef} {value : InputValue} {result : Value}
    (hvar : ∀ name, value ≠ .var name) (h : Gives types bindings bound type value result) :
    Conforms types type result ∧ (value ≠ .null → result ≠ .null) := by
  cases h with
  | null hnullable => exact ⟨.null hnullable, fun hnull => absurd rfl hnull⟩
  | required hnull hinner =>
    obtain ⟨hconforms, hkeeps⟩ := ih _ _ _ hinner
    have hne := hkeeps value (resolve_of_ne_var hvar) hnull
    exact ⟨.nonNull hne hconforms, fun _ => hne⟩
  | items hitems =>
    have hconforms := hitems.flip.imp fun _ _ hitem => And.intro (ih _ _ _ hitem).1 hitem
    exact ⟨.list ((List.forall₂_and_left _ _).mp hconforms).1, nofun⟩
  | single hnull hlist hsingle =>
    refine ⟨.list fun result hresult => ?_, nofun⟩
    rw [List.mem_singleton.mp hresult]
    exact (ih _ _ _ hsingle).1
  | named hnull hnamed =>
    rw [coerceNamed_eq] at hnamed
    split at hnamed
    · next codec htype =>
      have h := conforms_of_coerceScalar hcodecs htype hnull hvar hnamed
      exact ⟨h.1, fun _ => h.2⟩
    · next values htype =>
      have h := conforms_of_coerceEnum htype (Option.some.inj hnamed)
      exact ⟨h.1, fun _ => h.2⟩
    · next fields htype =>
      have h := conforms_of_coerceObject ih htype hnamed
      exact ⟨h.1, fun _ => h.2⟩
    · cases hnamed
  | builtin hnull _ hbuiltin =>
    have h : Conforms types type result ∧ result ≠ .null := conforms_of_coerceBuiltin hbuiltin
    exact ⟨h.1, fun _ => h.2⟩

/-- Coercion is sound, however deep it goes. -/
theorem sound (hcodecs : types.scalars.KeepValues) (bound : Nat) : Sound types bindings bound := by
  induction bound with
  | zero => exact fun _ _ _ h => nomatch h
  | succ bound ih =>
    intro type written result h
    obtain ⟨value, hresolve, hgives⟩ := coerce_eq_ok h
    obtain ⟨hconforms, hkeeps⟩ := hgives.conforms hcodecs ih (ne_var_of_resolve hresolve)
    refine ⟨hconforms, fun other hother hnull => hkeeps ?_⟩
    rw [hresolve] at hother
    cases hother
    exact hnull

end Coercion

/-- Whatever the schema, the variables and the written value are: a coercion that succeeds gives a
    value that conforms to the type. -/
theorem coerced_conforms {types : Types} (hcodecs : types.scalars.KeepValues)
    {bindings : Variables} {bound : Nat} {type : TypeRef} {written : InputValue} {value : Value}
    (h : (coerce types bindings bound type written).run = some (.ok value)) :
    Conforms types type value :=
  (Coercion.sound hcodecs bound _ _ _ h).1

/-! ## A search -/

namespace Sample

/-- A search for ships: what it is about, ranks in any number and how many to find at most. -/
def searchTypes : Types where
  enums := [("Rank", ["CAPTAIN", "PILOT"])]
  inputs := [("Search",
    [("about", { type := .nonNull (.named "Id") }),
      ("ranks", { type := .list (.nonNull (.named "Rank")) }),
      ("range", { type := .float, defaultValue := some (.string "any") }),
      ("within", { type := .named "Search" })])]
  scalars := [("Id", .uuid)]

/-- A search within a search. Its ranks are a single one, from a variable. -/
def search : InputValue :=
  .object [("within", .object [("ranks", .list []), ("about", .var "id"), ("range", .int 7)]),
    ("about", .string "00000000000000000000000000000001"), ("ranks", .var "rank")]

def searchVariables : Variables :=
  [("id", .string "00000000-0000-0000-0000-00000000000A"), ("rank", .string "PILOT")]

end Sample

/-- UUIDs are read as strings. -/
theorem ScalarCodec.uuid_decode_ne_null (raw : Value) : uuid.decode raw ≠ .ok .null := by
  simp only [uuid]
  split
  · split <;> simp
  · simp

theorem Sample.keepValues_searchTypes : Sample.searchTypes.scalars.KeepValues := by
  intro name codec hcodec raw _
  simp only [Sample.searchTypes, Entries.find?_cons, Entries.find?_nil] at hcodec
  split at hcodec
  · cases hcodec
    exact ScalarCodec.uuid_decode_ne_null raw
  · cases hcodec

/-- A search is brought into the form of its type, ids and ranks included. Defaults are taken as
    they are. -/
theorem coerced_conforms_search :
    Conforms Sample.searchTypes (.nonNull (.named "Search")) (.object
      [("about", .string "00000000-0000-0000-0000-000000000001"), ("ranks", .list [.enum "PILOT"]),
        ("range", .string "any"),
        ("within", .object
          [("about", .string "00000000-0000-0000-0000-00000000000a"), ("ranks", .list []),
            ("range", .float (floatOfInt 7)), ("within", .null)])]) :=
  have h : (coerce Sample.searchTypes Sample.searchVariables 9 (.nonNull (.named "Search"))
    Sample.search).run = some (.ok _) := rfl
  coerced_conforms Sample.keepValues_searchTypes h

end GraphQL

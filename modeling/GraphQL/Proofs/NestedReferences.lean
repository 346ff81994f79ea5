import GraphQL.Proofs.EliminatedVariables
import GraphQL.Proofs.WrittenVariables

/-!
# References from values of variables

A value may refer to variables, and the value of a variable may itself be a reference. Coercion does
not follow such a reference from the second level: it fails where it comes to read the variable.
`Coercion.Reads` says which variables a coercion comes to read. It reads them in the order of
coercion, so a variable further on is read only if everything before it could be coerced.

What a custom scalar is given is filled in and not coerced, so it is no part of this relation.

Results:
* `Coercion.Reads.ends`: reading a variable whose value is a reference, coercion fails.
* `Coercion.exists_reads`: this is the only way in which it fails so.
* `coerce_congr`: if no value of a variable has references in its lists and objects, coercion
  depends on the variables that are written and on no others.
* `nested_references`: the three together.
* `nested_reference_followed`: references in lists and objects of such values are followed.
-/

namespace GraphQL

namespace Coercion

/-- From some bound on, a coercion has the outcome. -/
def Ends {ε α : Type} (coercion : Nat → Result ε α) (outcome : Except ε α) : Prop :=
  ∃ bound, ∀ more ≥ bound, (coercion more).run = some outcome

/-- A coercion ends with a value. -/
def Succeeds {ε α : Type} (coercion : Nat → Result ε α) : Prop :=
  ∃ value, Ends coercion (.ok value)

/-- Coercing a value to a type comes to read the variable. -/
inductive Reads (types : Types) (bindings : Variables) : TypeRef → InputValue → String → Prop
  /-- A reference is read first of all. -/
  | reference {type : TypeRef} {name : String} : Reads types bindings type (.var name) name
  /-- What it stands for is coerced in its place, unless this is a reference again. -/
  | referenced {type : TypeRef} {name other : String} {value : InputValue} :
    Entries.find? bindings name = some value → (∀ nested, value ≠ .var nested) →
    Reads types bindings type value other → Reads types bindings type (.var name) other
  | required {inner : TypeRef} {value : InputValue} {name : String} :
    (∀ reference, value ≠ .var reference) → value ≠ .null →
    Reads types bindings inner value name → Reads types bindings (.nonNull inner) value name
  | item {item : TypeRef} {before after : List InputValue} {value : InputValue} {name : String} :
    (∀ earlier ∈ before, Succeeds fun bound => coerce types bindings bound item earlier) →
    Reads types bindings item value name →
    Reads types bindings (.list item) (.list (before ++ value :: after)) name
  | single {item : TypeRef} {value : InputValue} {name : String} :
    (∀ reference, value ≠ .var reference) → value ≠ .null → (∀ items, value ≠ .list items) →
    Reads types bindings item value name → Reads types bindings (.list item) value name
  /-- The fields of an input object are coerced in the order in which they are declared. -/
  | field {type key name : String} {before after : Entries InputField} {field : InputField}
    {supplied : Entries InputValue} {value : InputValue} :
    types.inputType? type = some (.object (before ++ (key, field) :: after)) →
    (∀ written ∈ Entries.keys supplied, Entries.has (before ++ (key, field) :: after) written) →
    (∀ earlier ∈ before, Succeeds fun bound =>
      coerceField bindings (coerce types bindings bound) type supplied earlier.1 earlier.2) →
    Entries.find? supplied key = some value → isUnset bindings value = false →
    Reads types bindings field.type value name →
    Reads types bindings (.named type) (.object supplied) name

variable {types : Types} {bindings : Variables} {bound more : Nat} {ε α β : Type}

/-! ## How coercions end -/

theorem Ends.of_run {type : TypeRef} {written : InputValue} {outcome : Except CoercionError Value}
    (h : (coerce types bindings bound type written).run = some outcome) :
    Ends (fun bound => coerce types bindings bound type written) outcome :=
  ⟨bound, fun _ hle => coerce_le type written hle outcome h⟩

theorem Ends.succ {coercion : Nat → Result ε α} {outcome : Except ε α}
    (h : Ends (fun bound => coercion (bound + 1)) outcome) : Ends coercion outcome := by
  obtain ⟨bound, h⟩ := h
  refine ⟨bound + 1, fun more hle => ?_⟩
  obtain ⟨less, rfl⟩ : ∃ less, more = less + 1 := ⟨more - 1, by omega⟩
  exact h less (by omega)

theorem Ends.shift {coercion : Nat → Result ε α} {outcome : Except ε α}
    (h : Ends coercion outcome) : Ends (fun bound => coercion (bound + 1)) outcome := by
  obtain ⟨bound, h⟩ := h
  exact ⟨bound, fun more hle => h (more + 1) (by omega)⟩

theorem Ends.bind_error {coercion : Nat → Result ε α} {next : Nat → α → Result ε β} {error : ε}
    (h : Ends coercion (.error error)) :
    Ends (fun bound => coercion bound >>= next bound) (.error error) := by
  obtain ⟨bound, h⟩ := h
  exact ⟨bound, fun more hle => bind_eq_error_iff.mpr (.inl (h more hle))⟩

/-- Coercions that succeed one by one succeed from a common bound on. -/
theorem exists_bound_of_succeeds {coercion : Nat → α → Result ε β} {items : List α}
    (h : ∀ item ∈ items, Succeeds fun bound => coercion bound item) :
    ∃ bound, ∀ more ≥ bound, ∀ item ∈ items,
      ∃ result, (coercion more item).run = some (.ok result) := by
  refine exists_bound_forall fun item hm => ?_
  obtain ⟨result, bound, hends⟩ := h item hm
  exact ⟨bound, fun more hle => ⟨result, hends more hle⟩⟩

/-- Along a list, an error behind items that succeed is the outcome. -/
theorem Ends.mapM_error {coercion : Nat → α → Result ε β} {before after : List α} {item : α}
    {error : ε} (hbefore : ∀ earlier ∈ before, Succeeds fun bound => coercion bound earlier)
    (hitem : Ends (fun bound => coercion bound item) (.error error)) :
    Ends (fun bound => (before ++ item :: after).mapM (coercion bound)) (.error error) := by
  obtain ⟨first, hfirst⟩ := exists_bound_of_succeeds hbefore
  obtain ⟨second, hsecond⟩ := hitem
  refine ⟨max first second, fun more hle => mapM_eq_error_iff.mpr ?_⟩
  have hall := hfirst more (by omega)
  exact ⟨before, item, after, rfl, hall, hsecond more (by omega)⟩

/-! ## Reading fails -/

/-- In an input object, an error behind fields that succeed is the outcome. -/
theorem Ends.coerceObject_error {type key : String} {before after : Entries InputField}
    {field : InputField} {supplied : Entries InputValue} {value : InputValue}
    {error : CoercionError}
    (hknown : ∀ written ∈ Entries.keys supplied,
      Entries.has (before ++ (key, field) :: after) written)
    (hbefore : ∀ earlier ∈ before, Succeeds fun bound =>
      coerceField bindings (coerce types bindings bound) type supplied earlier.1 earlier.2)
    (hvalue : Entries.find? supplied key = some value) (hset : isUnset bindings value = false)
    (h : Ends (fun bound => coerce types bindings bound field.type value) (.error error)) :
    Ends (fun bound => coerceObject bindings (coerce types bindings bound) type
      (before ++ (key, field) :: after) (.object supplied)) (.error error) := by
  have hnone : (Entries.keys supplied).find?
      (fun written => !Entries.has (before ++ (key, field) :: after) written) = none := by
    refine List.find?_eq_none.mpr fun written hm => ?_
    rw [hknown written hm]
    decide
  have hfield : ∀ bound,
      coerceField bindings (coerce types bindings bound) type supplied key field =
        coerce types bindings bound field.type value := by
    intro bound
    rw [coerceField, hvalue, Option.filter_some, hset]
    rfl
  simp only [coerceObject, hnone]
  refine Ends.bind_error (Ends.mapM_error (fun earlier hm => ?_) ?_)
  · obtain ⟨result, bound, hresult⟩ := hbefore earlier hm
    exact ⟨(earlier.1, result), bound, fun more hle =>
      bind_eq_ok_iff.mpr ⟨result, hresult more hle, rfl⟩⟩
  · simp only [hfield]
    exact h.bind_error

/-- Coercion fails when it reads a variable whose value is a reference. -/
theorem Reads.ends {type : TypeRef} {written : InputValue} {name nested : String}
    (h : Reads types bindings type written name)
    (hnested : Entries.find? bindings name = some (.var nested)) :
    Ends (fun bound => coerce types bindings bound type written)
      (.error (.nestedVariable nested)) := by
  induction h with
  | @reference type name =>
    refine .succ ⟨0, fun more _ => ?_⟩
    show (coerce types bindings (more + 1) type (.var name)).run = _
    rw [coerce, resolve_of_reference hnested]
    rfl
  | @referenced type name _ value hvalue hvar _ ih =>
    refine .succ ?_
    simp only [coerce_of_resolve (resolve_of_bound hvalue hvar)]
    exact (ih hnested).shift
  | required hvar hnull _ ih =>
    refine .succ ?_
    simp only [coerce_nonNull hvar hnull]
    exact ih hnested
  | item hbefore _ ih =>
    refine .succ ?_
    simp only [coerce_list]
    exact (Ends.mapM_error hbefore (ih hnested)).bind_error
  | single hvar hnull hlist _ ih =>
    refine .succ ?_
    simp only [coerce_single hvar hnull hlist]
    exact (ih hnested).bind_error
  | @field type key name before after field supplied value htype hknown hbefore hvalue hset _ ih =>
    have hvar : ∀ reference, InputValue.object supplied ≠ .var reference := by
      rintro reference ⟨⟩
    have hnull : InputValue.object supplied ≠ .null := by
      rintro ⟨⟩
    refine .succ ?_
    simp only [coerce_named hvar hnull, coerceNamed_eq, htype]
    exact .coerceObject_error hknown hbefore hvalue hset (ih hnested)

/-! ## Nothing else fails so -/

/-- Nothing is read where nothing is written. -/
theorem not_reads_null {type : TypeRef} {name : String} :
    ¬ Reads types bindings type .null name := by
  intro h
  cases h with
  | required _ hnull _ => exact hnull rfl
  | single _ hnull _ _ => exact hnull rfl

/-- Within the bound, coercion reads a variable whose value is a reference if it fails so. -/
def ReadsWithin (types : Types) (bindings : Variables) (nested : String) (bound : Nat) : Prop :=
  ∀ type written,
    (coerce types bindings bound type written).run = some (.error (.nestedVariable nested)) →
    ∃ name, Reads types bindings type written name ∧
      Entries.find? bindings name = some (.var nested)

theorem coerceField_eq_error {inputType key : String} {supplied : Entries InputValue}
    {field : InputField} {nested : String}
    (h : (coerceField bindings (coerce types bindings bound) inputType supplied key field).run =
      some (.error (.nestedVariable nested))) :
    ∃ value, Entries.find? supplied key = some value ∧ isUnset bindings value = false ∧
      (coerce types bindings bound field.type value).run =
        some (.error (.nestedVariable nested)) := by
  unfold coerceField at h
  split at h
  · next value hvalue =>
    obtain ⟨hfind, hset⟩ := Option.filter_eq_some_iff.mp hvalue
    rw [Bool.not_eq_true'] at hset
    exact ⟨value, hfind, hset, h⟩
  · split at h
    · cases h
    · split at h <;> cases h

theorem coerceField_ends {inputType key : String} {supplied : Entries InputValue}
    {field : InputField} {value : Value}
    (h : (coerceField bindings (coerce types bindings bound) inputType supplied key field).run =
      some (.ok value)) :
    Succeeds fun bound =>
      coerceField bindings (coerce types bindings bound) inputType supplied key field :=
  ⟨value, bound, fun _ hle => coerceField_approximates
    (fun type written => coerce_le type written hle) inputType supplied key field _ h⟩

theorem exists_reads_object {nested type : String} {fields : Entries InputField}
    {value : InputValue} (ih : ReadsWithin types bindings nested bound)
    (htype : types.inputType? type = some (.object fields))
    (h : (coerceObject bindings (coerce types bindings bound) type fields value).run =
      some (.error (.nestedVariable nested))) :
    ∃ name, Reads types bindings (.named type) value name ∧
      Entries.find? bindings name = some (.var nested) := by
  unfold coerceObject at h
  split at h
  · next supplied =>
    split at h
    · cases h
    · next hnone =>
      obtain hfields | ⟨_, _, ⟨⟩⟩ := bind_eq_error_iff.mp h
      obtain ⟨before, ⟨key, field⟩, after, rfl, hbefore, hfield⟩ := mapM_eq_error_iff.mp hfields
      obtain hfield | ⟨_, _, ⟨⟩⟩ := bind_eq_error_iff.mp hfield
      obtain ⟨written, hwritten, hset, hfailed⟩ := coerceField_eq_error hfield
      obtain ⟨name, hreads, hname⟩ := ih field.type written hfailed
      refine ⟨name, .field htype ?_ ?_ hwritten hset hreads, hname⟩
      · intro key hm
        have hknown := List.find?_eq_none.mp hnone key hm
        rwa [Bool.not_eq_true, Bool.not_eq_false'] at hknown
      · intro earlier hm
        obtain ⟨entry, hentry⟩ := hbefore earlier hm
        obtain ⟨result, hresult, -⟩ := bind_eq_ok_iff.mp hentry
        exact coerceField_ends hresult
  · cases h

theorem exists_reads_named {nested type : String} {value : InputValue}
    (ih : ReadsWithin types bindings nested bound)
    (h : (coerceNamed types bindings bound (coerce types bindings bound) type value).run =
      some (.error (.nestedVariable nested))) :
    ∃ name, Reads types bindings (.named type) value name ∧
      Entries.find? bindings name = some (.var nested) := by
  rw [coerceNamed_eq] at h
  split at h
  · -- a codec fails in its own way only
    unfold coerceScalar at h
    split at h
    · cases h
    · split at h <;> cases h
  · unfold coerceEnum at h
    split at h
    · split at h <;> cases h
    · split at h <;> cases h
    · cases h
  · next fields htype => exact exists_reads_object ih htype h
  · cases h

/-- One step, once the value has been resolved. -/
theorem exists_reads_succ {nested : String} (ih : ReadsWithin types bindings nested bound)
    (type : TypeRef) {value : InputValue} (hvar : ∀ name, value ≠ .var name)
    (h : (coerce types bindings (bound + 1) type value).run =
      some (.error (.nestedVariable nested))) :
    ∃ name, Reads types bindings type value name ∧
      Entries.find? bindings name = some (.var nested) := by
  revert h
  refine step_induction ?null ?nonNull ?list ?single ?named ?builtin type value hvar
  case null =>
    intro type h
    cases type <;> cases h
  case nonNull =>
    intro inner value hvar hnull _ h
    rw [coerce_nonNull hvar hnull] at h
    obtain ⟨name, hreads, hname⟩ := ih inner value h
    exact ⟨name, .required hvar hnull hreads, hname⟩
  case list =>
    intro item items h
    rw [coerce_list] at h
    obtain hitems | ⟨_, _, ⟨⟩⟩ := bind_eq_error_iff.mp h
    obtain ⟨before, failed, after, rfl, hbefore, hfailed⟩ := mapM_eq_error_iff.mp hitems
    obtain ⟨name, hreads, hname⟩ := ih item failed hfailed
    refine ⟨name, .item (fun earlier hm => ?_) hreads, hname⟩
    obtain ⟨result, hresult⟩ := hbefore earlier hm
    exact ⟨result, .of_run hresult⟩
  case single =>
    intro item value hvar hnull hlist _ h
    rw [coerce_single hvar hnull hlist] at h
    obtain hsingle | ⟨_, _, ⟨⟩⟩ := bind_eq_error_iff.mp h
    obtain ⟨name, hreads, hname⟩ := ih item value hsingle
    exact ⟨name, .single hvar hnull hlist hreads, hname⟩
  case named =>
    intro type value hvar hnull h
    rw [coerce_named hvar hnull] at h
    exact exists_reads_named ih h
  case builtin =>
    intro type value hvar hnull hbuiltin h
    rw [coerce_builtin hvar hnull hbuiltin] at h
    have herror : coerceBuiltin type value = .error (.nestedVariable nested) := Option.some.inj h
    unfold coerceBuiltin at herror
    repeat' split at herror
    all_goals cases herror

/-- Coercion fails so only where it reads a variable whose value is a reference. -/
theorem exists_reads (nested : String) (bound : Nat) :
    ReadsWithin types bindings nested bound := by
  induction bound with
  | zero =>
    intro type written h
    cases h
  | succ bound ih =>
    intro type written h
    by_cases hvar : ∃ name, written = .var name
    · obtain ⟨name, rfl⟩ := hvar
      cases hvalue : Entries.find? bindings name with
      | none =>
        rw [coerce_of_resolve (resolve_of_unset hvalue)] at h
        have hvar : ∀ reference, InputValue.null ≠ .var reference := by
          rintro reference ⟨⟩
        obtain ⟨other, hreads, -⟩ := exists_reads_succ ih type hvar h
        exact (not_reads_null hreads).elim
      | some value =>
        by_cases hreference : ∃ reference, value = .var reference
        · obtain ⟨reference, rfl⟩ := hreference
          rw [coerce, resolve_of_reference hvalue] at h
          cases h
          exact ⟨name, .reference, hvalue⟩
        · have hvar : ∀ reference, value ≠ .var reference :=
            fun reference he => hreference ⟨reference, he⟩
          rw [coerce_of_resolve (resolve_of_bound hvalue hvar)] at h
          obtain ⟨other, hreads, hother⟩ := exists_reads_succ ih type hvar h
          exact ⟨other, .referenced hvalue hvar hreads, hother⟩
    · exact exists_reads_succ ih type (fun name he => hvar ⟨name, he⟩) h

end Coercion

open Coercion

/-- Coercion fails for a reference from the value of a variable if and only if it comes to read a
    variable whose value is that reference. If no value of a variable has references further inside,
    whatever is read without failing has none at all, and coercion depends on the variables that are
    written: no reference from the second level is followed, for custom scalars neither. -/
theorem nested_references (types : Types) (bindings : Variables) (type : TypeRef)
    (written : InputValue) :
    (∀ nested, Ends (fun bound => coerce types bindings bound type written)
        (.error (.nestedVariable nested)) ↔
      ∃ name, Reads types bindings type written name ∧
        Entries.find? bindings name = some (.var nested)) ∧
    (bindings.Flat →
      (∀ name value, Reads types bindings type written name →
        Entries.find? bindings name = some value → value.references ≠ [] →
        ∃ nested, value = .var nested ∧
          Ends (fun bound => coerce types bindings bound type written)
            (.error (.nestedVariable nested))) ∧
      ∀ other, bindings.AgreeOn other written → ∀ bound,
        coerce types other bound type written = coerce types bindings bound type written) := by
  constructor
  · intro nested
    constructor
    · rintro ⟨bound, hends⟩
      exact exists_reads nested bound type written (hends bound (Nat.le_refl bound))
    · rintro ⟨name, hreads, hnested⟩
      exact hreads.ends hnested
  · intro hflat
    constructor
    · intro name value hreads hvalue hreferences
      obtain hnone | ⟨nested, rfl⟩ := hflat name value hvalue
      · exact absurd hnone hreferences
      · exact ⟨nested, rfl, hreads.ends hvalue⟩
    · intro other hagree bound
      exact coerce_congr hflat bound type written hagree

namespace Sample

/-- The upper end of a range, by way of another variable. -/
def cappedVariables : Variables := [("high", .var "top"), ("top", .int 9)]

/-- A range with that end. -/
def cappedRange : InputValue := .object [("high", .var "high")]

theorem flat_cappedVariables : cappedVariables.Flat := by
  intro name value hfind
  simp only [cappedVariables, Entries.find?_cons, Entries.find?_nil] at hfind
  split at hfind
  · cases hfind
    exact .inr ⟨"top", rfl⟩
  · split at hfind
    · cases hfind
      exact .inl rfl
    · cases hfind

/-- The lower end has a default, so the upper end is come to. -/
theorem reads_cappedRange :
    Reads rangeTypes cappedVariables (.list (.named "Range")) cappedRange "high" := by
  have htype : rangeTypes.inputType? "Range" = some (.object
      ([("low", { type := .int, defaultValue := some (.int 1) })] ++
        ("high", { type := .nonNull .int }) :: [])) := rfl
  refine .single nofun nofun nofun (.field htype (by decide) ?_ rfl rfl .reference)
  intro earlier hm
  rw [List.mem_singleton.mp hm]
  exact ⟨.int 1, 0, fun _ _ => rfl⟩

end Sample

/-- The range is refused, and would be refused without the variable on the second level. -/
theorem nested_references_range :
    Ends (fun bound => coerce Sample.rangeTypes Sample.cappedVariables bound
      (.list (.named "Range")) Sample.cappedRange) (.error (.nestedVariable "top")) ∧
    ∀ bound, coerce Sample.rangeTypes [("high", .var "top")] bound (.list (.named "Range"))
        Sample.cappedRange =
      coerce Sample.rangeTypes Sample.cappedVariables bound (.list (.named "Range"))
        Sample.cappedRange := by
  obtain ⟨hends, hwritten⟩ := nested_references Sample.rangeTypes Sample.cappedVariables
    (.list (.named "Range")) Sample.cappedRange
  obtain ⟨-, hdepends⟩ := hwritten Sample.flat_cappedVariables
  refine ⟨(hends "top").mpr ⟨"high", Sample.reads_cappedRange, rfl⟩, hdepends _ ?_⟩
  intro name hm
  obtain rfl : name = "high" := List.mem_singleton.mp hm
  rfl

/-- References inside a value of a variable are followed, by coercion and for custom scalars, and a
    custom scalar reads null where the value is a reference as a whole. -/
theorem nested_reference_followed :
    let bindings : Variables := [("ids", .list [.var "id"]), ("alias", .var "id"), ("id", .int 1)]
    Reads Sample.rangeTypes bindings (.list .int) (.var "ids") "ids" ∧
    Ends (fun bound => coerce Sample.rangeTypes bindings bound (.list .int) (.var "ids"))
      (.ok (.list [.int 1])) ∧
    Ends (fun bound => coerce Sample.rangeTypes bindings bound (.named "JSON") (.var "ids"))
      (.ok (.list [.int 1])) ∧
    Ends (fun bound => coerce Sample.rangeTypes bindings bound (.named "JSON")
      (.list [.var "alias"])) (.ok (.list [.null])) := by
  intro bindings
  refine ⟨.reference, ?_, ?_, ?_⟩
  · have h : (coerce Sample.rangeTypes bindings 2 (.list .int) (.var "ids")).run = some _ := rfl
    exact .of_run h
  · have h : (coerce Sample.rangeTypes bindings 3 (.named "JSON") (.var "ids")).run = some _ := rfl
    exact .of_run h
  · have h : (coerce Sample.rangeTypes bindings 3 (.named "JSON") (.list [.var "alias"])).run =
      some _ := rfl
    exact .of_run h

end GraphQL

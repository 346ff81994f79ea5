import GraphQL.Proofs.Finishing

/-!
# Variables that are written

The value of a variable may refer to other variables. If it is such a reference as a whole, coercion
refuses to follow it, and a custom scalar reads null in its place. So the variables that are written
are the only ones that matter, as long as no value has references further inside
(`Variables.Flat`).

Results:
* `InputValue.toValue_congr`: the raw value depends on the variables that are written.
* `coerce_congr`: so does what a value is coerced to.
-/

namespace GraphQL

/-- No value of a variable has references within its lists and objects. It may be one itself. -/
def Variables.Flat (bindings : Variables) : Prop :=
  ∀ name value, Entries.find? bindings name = some value →
    value.references = [] ∨ ∃ nested, value = .var nested

/-- The variables to which a value refers have the same values in both maps. -/
def Variables.AgreeOn (bindings other : Variables) (value : InputValue) : Prop :=
  ∀ name ∈ value.references, Entries.find? other name = Entries.find? bindings name

namespace Variables.AgreeOn

variable {bindings other : Variables} {value : InputValue}

theorem of_references (h : value.references = []) : bindings.AgreeOn other value := by
  intro name hm
  rw [h] at hm
  exact absurd hm List.not_mem_nil

theorem item {items : List InputValue} (h : bindings.AgreeOn other (.list items))
    (hm : value ∈ items) : bindings.AgreeOn other value := by
  intro name hname
  refine h name ?_
  rw [InputValue.references, InputValue.allReferences_eq_flatMap]
  exact List.mem_flatMap.mpr ⟨value, hm, hname⟩

theorem entry {fields : List (String × InputValue)} {key : String}
    (h : bindings.AgreeOn other (.object fields)) (hm : (key, value) ∈ fields) :
    bindings.AgreeOn other value := by
  intro name hname
  refine h name ?_
  rw [InputValue.references, InputValue.fieldReferences_eq_flatMap]
  exact List.mem_flatMap.mpr ⟨(key, value), hm, hname⟩

theorem isUnset_eq (h : bindings.AgreeOn other value) :
    Coercion.isUnset other value = Coercion.isUnset bindings value := by
  cases value with
  | var name =>
    have hname := h name (List.mem_singleton_self name)
    rw [Coercion.isUnset, Coercion.isUnset, Entries.has, Entries.has, hname]
  | _ => rfl

end Variables.AgreeOn

/-- Steps along a list that are the same for its members are the same together. -/
theorem mapM_congr {m : Type → Type} [Monad m] [LawfulMonad m] {α β : Type} {f g : α → m β}
    {items : List α} (h : ∀ item ∈ items, f item = g item) : items.mapM f = items.mapM g := by
  induction items with
  | nil => rfl
  | cons item rest ih =>
    have hrest : rest.mapM f = rest.mapM g := ih fun other hm => h other (List.mem_cons_of_mem _ hm)
    rw [List.mapM_cons, List.mapM_cons, h item List.mem_cons_self, hrest]

/-! ## Raw values -/

namespace InputValue

variable {bindings other : Variables}

/-- Filling in depends on what is read for the variables that are written. -/
theorem fill_congr {read reread : String → Option Value} {value : InputValue}
    (h : ∀ name ∈ value.references, reread name = read name) :
    value.fill reread = value.fill read := by
  induction value using induction with
  | atom value hnone hlist hobject =>
    cases value with
    | list items => exact absurd rfl (hlist items)
    | object fields => exact absurd rfl (hobject fields)
    | var name => cases hnone
    | _ => rfl
  | list items ih =>
    rw [references, allReferences_eq_flatMap] at h
    have hitems : ∀ item ∈ items, item.fill reread = item.fill read := by
      intro item hm
      exact ih item hm fun name hname => h name (List.mem_flatMap.mpr ⟨item, hm, hname⟩)
    rw [fill, fill, fillAll_eq_mapM, fillAll_eq_mapM, mapM_congr hitems]
  | object fields ih =>
    rw [references, fieldReferences_eq_flatMap] at h
    have hfields : ∀ entry ∈ fields, entry.2.fill reread = entry.2.fill read := by
      intro entry hm
      exact ih entry hm fun name hname => h name (List.mem_flatMap.mpr ⟨entry, hm, hname⟩)
    rw [fill, fill, fillFields_eq_mapM, fillFields_eq_mapM]
    rw [mapM_congr fun entry hm => by rw [hfields entry hm]]
  | var name => exact h name (List.mem_singleton_self name)

/-- A value without references is its own raw value, whatever the variables are. -/
theorem toValue_of_references {value : InputValue} (h : value.references = []) (steps : Nat) :
    value.toValue other steps = value.toValue bindings steps := by
  cases steps with
  | zero => rfl
  | succ steps =>
    rw [toValue, toValue]
    refine fill_congr fun name hm => ?_
    rw [h] at hm
    exact absurd hm List.not_mem_nil

/-- The raw value depends on the variables that are written. -/
theorem toValue_congr (hflat : bindings.Flat) {value : InputValue}
    (h : bindings.AgreeOn other value) (steps : Nat) :
    value.toValue other steps = value.toValue bindings steps := by
  cases steps with
  | zero => rfl
  | succ steps =>
    rw [toValue, toValue]
    refine fill_congr fun name hm => ?_
    rw [h name hm]
    cases hbound : Entries.find? bindings name with
    | none => rfl
    | some bound =>
      obtain hnone | ⟨nested, rfl⟩ := hflat name bound hbound
      · cases bound with
        | var nested => rfl
        | _ => exact toValue_of_references hnone steps
      · rfl

end InputValue

/-! ## Coercions -/

namespace Coercion

variable {types : Types} {bindings other : Variables} {bound : Nat}

/-- Within the bound, coercion depends on the variables that are written. -/
def DependsOnWritten (types : Types) (bindings other : Variables) (bound : Nat) : Prop :=
  ∀ type written, bindings.AgreeOn other written →
    coerce types other bound type written = coerce types bindings bound type written

theorem resolve_congr {written : InputValue} (h : bindings.AgreeOn other written) :
    resolve other written = resolve bindings written := by
  cases written with
  | var name => rw [resolve, resolve, h name (List.mem_singleton_self name)]
  | _ => rfl

/-- What a value is resolved to refers to no variables but those that are written. -/
theorem agreeOn_of_resolve (hflat : bindings.Flat) {written value : InputValue}
    (h : bindings.AgreeOn other written) (hresolve : resolve bindings written = .ok value) :
    bindings.AgreeOn other value := by
  cases written with
  | var name =>
    cases hbound : Entries.find? bindings name with
    | none =>
      rw [resolve_of_unset hbound] at hresolve
      cases hresolve
      exact .of_references rfl
    | some bound =>
      obtain hnone | ⟨nested, rfl⟩ := hflat name bound hbound
      · have hvar : ∀ nested, bound ≠ .var nested := by
          rintro nested rfl
          cases hnone
        rw [resolve_of_bound hbound hvar] at hresolve
        cases hresolve
        exact .of_references hnone
      · rw [resolve_of_reference hbound] at hresolve
        cases hresolve
  | _ =>
    cases hresolve
    exact h

theorem coerceField_congr (ih : DependsOnWritten types bindings other bound) {inputType : String}
    {supplied : Entries InputValue} (h : bindings.AgreeOn other (.object supplied)) (key : String)
    (field : InputField) :
    coerceField other (coerce types other bound) inputType supplied key field =
      coerceField bindings (coerce types bindings bound) inputType supplied key field := by
  rw [coerceField, coerceField]
  cases hvalue : Entries.find? supplied key with
  | none => rfl
  | some value =>
    have hagree : bindings.AgreeOn other value := h.entry (Entries.mem_of_find? hvalue)
    rw [Option.filter_some, Option.filter_some, hagree.isUnset_eq]
    cases isUnset bindings value with
    | true => rfl
    | false => exact ih field.type value hagree

theorem coerceNamed_congr (hflat : bindings.Flat) (ih : DependsOnWritten types bindings other bound)
    {value : InputValue} (h : bindings.AgreeOn other value) (name : String) :
    coerceNamed types other bound (coerce types other bound) name value =
      coerceNamed types bindings bound (coerce types bindings bound) name value := by
  rw [coerceNamed_eq, coerceNamed_eq]
  cases types.inputType? name with
  | none => rfl
  | some inputType =>
    cases inputType with
    | scalar codec =>
      show coerceScalar other bound name codec value = coerceScalar bindings bound name codec value
      rw [coerceScalar, coerceScalar, InputValue.toValue_congr hflat h]
    | enum values => rfl
    | object fields =>
      show coerceObject other _ name fields value = coerceObject bindings _ name fields value
      cases value with
      | object supplied =>
        rw [coerceObject, coerceObject]
        split
        · rfl
        · refine congrArg (· >>= _) (mapM_congr fun entry _ => ?_)
          show (coerceField other _ name supplied entry.1 entry.2 >>= _) = _
          rw [coerceField_congr ih h entry.1 entry.2]
      | _ => rw [coerceObject, coerceObject] <;> rintro _ ⟨⟩

/-- One step, once the value has been resolved. -/
theorem coerce_congr_succ (hflat : bindings.Flat) (ih : DependsOnWritten types bindings other bound)
    (type : TypeRef) {value : InputValue} (hvar : ∀ name, value ≠ .var name)
    (h : bindings.AgreeOn other value) :
    coerce types other (bound + 1) type value = coerce types bindings (bound + 1) type value := by
  revert h
  refine step_induction ?null ?nonNull ?list ?single ?named ?builtin type value hvar
  case null =>
    intro type _
    cases type <;> rfl
  case nonNull =>
    intro inner value hvar hnull _ h
    rw [coerce_nonNull hvar hnull, coerce_nonNull hvar hnull]
    exact ih inner value h
  case list =>
    intro item items h
    rw [coerce_list, coerce_list, mapM_congr fun value hm => ih item value (h.item hm)]
  case single =>
    intro item value hvar hnull hlist _ h
    rw [coerce_single hvar hnull hlist, coerce_single hvar hnull hlist, ih item value h]
  case named =>
    intro name value hvar hnull h
    rw [coerce_named hvar hnull, coerce_named hvar hnull]
    exact coerceNamed_congr hflat ih h name
  case builtin =>
    intro type value hvar hnull hbuiltin _
    rw [coerce_builtin hvar hnull hbuiltin, coerce_builtin hvar hnull hbuiltin]

end Coercion

open Coercion

/-- What a value is coerced to depends on the variables that are written. -/
theorem coerce_congr {types : Types} {bindings other : Variables} (hflat : bindings.Flat)
    (bound : Nat) : DependsOnWritten types bindings other bound := by
  induction bound with
  | zero =>
    intro type written _
    rfl
  | succ bound ih =>
    intro type written h
    have hsame : resolve other written = resolve bindings written := resolve_congr h
    cases hresolve : resolve bindings written with
    | error error =>
      rw [coerce, coerce, hsame, hresolve]
    | ok value =>
      rw [coerce_of_resolve (hsame.trans hresolve), coerce_of_resolve hresolve]
      have hvar : ∀ name, value ≠ .var name := ne_var_of_resolve hresolve
      exact coerce_congr_succ hflat ih type hvar (agreeOn_of_resolve hflat h hresolve)

end GraphQL

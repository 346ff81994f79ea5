import GraphQL.Proofs.Agreement
import GraphQL.Proofs.Coercion

/-!
# Work that finishes

A function with a bound on its recursion finishes if it answers from some bound on, always the same
(`Finishes`). Steps that finish make up work that finishes, step by step and along lists.

Coercion finishes as long as the values of variables refer to no variables themselves
(`Variables.Closed`): a value is resolved once, and from there on either the value or the type gets
smaller.

Results:
* `coerce_finishes`: with such variables, coercing a value to a type finishes.
* `coerceArguments_finishes`: so does coercing the arguments of a field.
-/

namespace GraphQL

/-- What holds of each item from some bound on holds of all items from some bound on. -/
theorem exists_bound_forall {α : Type} {P : Nat → α → Prop} {items : List α}
    (h : ∀ item ∈ items, ∃ bound, ∀ more ≥ bound, P more item) :
    ∃ bound, ∀ more ≥ bound, ∀ item ∈ items, P more item := by
  induction items with
  | nil => exact ⟨0, fun _ _ _ hm => absurd hm List.not_mem_nil⟩
  | cons item rest ih =>
    obtain ⟨⟨first, hfirst⟩, hrest⟩ := List.forall_mem_cons.mp h
    obtain ⟨others, hothers⟩ := ih hrest
    refine ⟨max first others, fun more hle => ?_⟩
    exact List.forall_mem_cons.mpr ⟨hfirst more (by omega), hothers more (by omega)⟩

/-- From some bound on there is an answer, always the same. -/
def Finishes {α : Type} (f : Nat → Option α) : Prop :=
  ∃ bound a, ∀ more ≥ bound, f more = some a

namespace Finishes

variable {α β γ : Type}

theorem const (a : α) : Finishes fun _ => some a := ⟨0, a, fun _ _ => rfl⟩

/-- A first step that takes one level away. -/
theorem succ {f : Nat → Option α} (h : Finishes fun bound => f (bound + 1)) : Finishes f := by
  obtain ⟨bound, a, h⟩ := h
  refine ⟨bound + 1, a, fun more hle => ?_⟩
  obtain ⟨more, rfl⟩ : ∃ less, more = less + 1 := ⟨more - 1, by omega⟩
  exact h more (by omega)

theorem shift {f : Nat → Option α} (h : Finishes f) : Finishes fun bound => f (bound + 1) := by
  obtain ⟨bound, a, h⟩ := h
  exact ⟨bound, a, fun more hle => h (more + 1) (by omega)⟩

theorem map {f : Nat → Option α} (h : Finishes f) (g : α → β) :
    Finishes fun bound => (f bound).map g := by
  obtain ⟨bound, a, h⟩ := h
  exact ⟨bound, g a, fun more hle => congrArg (Option.map g) (h more hle)⟩

theorem bind {f : Nat → Option α} {g : Nat → α → Option β} (h : Finishes f)
    (hg : ∀ a, Finishes fun bound => g bound a) :
    Finishes fun bound => (f bound).bind (g bound) := by
  obtain ⟨first, a, hfirst⟩ := h
  obtain ⟨second, b, hsecond⟩ := hg a
  refine ⟨max first second, b, fun more hle => ?_⟩
  show (f more).bind (g more) = some b
  rw [hfirst more (by omega)]
  exact hsecond more (by omega)

theorem mapM {f : Nat → α → Option β} {items : List α}
    (h : ∀ item ∈ items, Finishes fun bound => f bound item) :
    Finishes fun bound => items.mapM (f bound) := by
  induction items with
  | nil => exact const []
  | cons item rest ih =>
    simp only [List.mapM_cons]
    refine (h item List.mem_cons_self).bind fun first => ?_
    exact (ih fun item hm => h item (List.mem_cons_of_mem _ hm)).bind fun others => const _

end Finishes

/-! ## References -/

namespace InputValue

mutual

/-- The variables that a value refers to. -/
def references : InputValue → List String
  | .null | .boolean _ | .int _ | .float _ | .string _ | .enum _ => []
  | .list items => allReferences items
  | .object fields => fieldReferences fields
  | .var name => [name]

/-- The variables that the items of a list refer to. -/
def allReferences : List InputValue → List String
  | [] => []
  | item :: rest => item.references ++ allReferences rest

/-- The variables that the fields of an object refer to. -/
def fieldReferences : List (String × InputValue) → List String
  | [] => []
  | (_, value) :: rest => value.references ++ fieldReferences rest

end

theorem allReferences_eq_flatMap (items : List InputValue) :
    allReferences items = items.flatMap references := by
  induction items with
  | nil => rfl
  | cons item rest ih => rw [allReferences, ih, List.flatMap_cons]

theorem fieldReferences_eq_flatMap (fields : List (String × InputValue)) :
    fieldReferences fields = fields.flatMap fun entry => entry.2.references := by
  induction fields with
  | nil => rfl
  | cons entry rest ih => rw [fieldReferences, ih, List.flatMap_cons]

/-- Induction over a value: it is an atom, is made up of values, or refers to a variable. -/
theorem induction {P : InputValue → Prop}
    (atom : ∀ value : InputValue, value.references = [] → (∀ items, value ≠ .list items) →
      (∀ fields, value ≠ .object fields) → P value)
    (list : ∀ items, (∀ item ∈ items, P item) → P (.list items))
    (object : ∀ fields : List (String × InputValue), (∀ entry ∈ fields, P entry.2) →
      P (.object fields))
    (var : ∀ name, P (.var name)) (value : InputValue) : P value := by
  cases value with
  | list items =>
    refine list items fun item hm => ?_
    have : sizeOf item < sizeOf items := List.sizeOf_lt_of_mem hm
    exact induction atom list object var item
  | object fields =>
    refine object fields fun entry hm => ?_
    have : sizeOf entry < sizeOf fields := List.sizeOf_lt_of_mem hm
    have : sizeOf entry.2 < sizeOf entry := by
      cases entry
      simp only [Prod.mk.sizeOf_spec]
      omega
    exact induction atom list object var entry.2
  | var name => exact var name
  | _ => exact atom _ rfl (fun _ he => by cases he) (fun _ he => by cases he)
termination_by sizeOf value

/-! ## Filling in -/

theorem fillAll_eq_mapM (read : String → Option Value) (items : List InputValue) :
    fillAll read items = items.mapM (fill read) := by
  induction items with
  | nil => rfl
  | cons item rest ih =>
    rw [fillAll, ih, List.mapM_cons]
    cases item.fill read <;> cases rest.mapM (fill read) <;> rfl

theorem fillFields_eq_mapM (read : String → Option Value) (fields : List (String × InputValue)) :
    fillFields read fields =
      fields.mapM fun entry => (entry.2.fill read).map fun value => (entry.1, value) := by
  induction fields with
  | nil => rfl
  | cons entry rest ih =>
    rw [fillFields, ih, List.mapM_cons]
    cases entry.2.fill read with
    | none => rfl
    | some value =>
      simp only [Option.map_some]
      cases rest.mapM fun entry => (entry.2.fill read).map fun value => (entry.1, value) <;> rfl

/-- Filling in finishes if reading the variables does. -/
theorem fill_finishes {read : Nat → String → Option Value} {value : InputValue}
    (h : ∀ name ∈ value.references, Finishes fun bound => read bound name) :
    Finishes fun bound => value.fill (read bound) := by
  induction value using induction with
  | atom value hnone hlist hobject =>
    cases value with
    | list items => exact absurd rfl (hlist items)
    | object fields => exact absurd rfl (hobject fields)
    | var name => cases hnone
    | _ => exact .const _
  | list items ih =>
    rw [references, allReferences_eq_flatMap] at h
    simp only [fill, fillAll_eq_mapM]
    exact (Finishes.mapM fun item hm => ih item hm fun name hname =>
      h name (List.mem_flatMap.mpr ⟨item, hm, hname⟩)).map _
  | object fields ih =>
    rw [references, fieldReferences_eq_flatMap] at h
    simp only [fill, fillFields_eq_mapM]
    exact (Finishes.mapM fun entry hm => (ih entry hm fun name hname =>
      h name (List.mem_flatMap.mpr ⟨entry, hm, hname⟩)).map _).map _
  | var name => exact h name (List.mem_singleton_self name)

end InputValue

/-- The values of variables refer to no variables themselves. -/
def Variables.Closed (bindings : Variables) : Prop :=
  ∀ name value, Entries.find? bindings name = some value → value.references = []

variable {types : Types} {bindings : Variables}

theorem Variables.Closed.references_getD (hclosed : bindings.Closed) (name : String) :
    ((Entries.find? bindings name).getD .null).references = [] := by
  cases hbound : Entries.find? bindings name with
  | none => rfl
  | some value => exact hclosed name value hbound

/-- Replacing references by their values finishes. -/
theorem InputValue.toValue_finishes (hclosed : bindings.Closed) (value : InputValue) :
    Finishes fun bound => value.toValue bindings bound := by
  refine .succ (fill_finishes fun name _ => ?_)
  cases hbound : Entries.find? bindings name with
  | none => exact .const _
  | some value =>
    have hnone := hclosed name value hbound
    cases value with
    | var nested => exact .const _
    | _ => exact .succ (fill_finishes (by simp [hnone]))

namespace Coercion

/-! ## Coercions that finish -/

section Results

variable {ε α β : Type}

theorem bind_finishes {x : Nat → Result ε α} {f : Nat → α → Result ε β}
    (h : Finishes fun bound => (x bound).run) (hf : ∀ a, Finishes fun bound => (f bound a).run) :
    Finishes fun bound => (x bound >>= f bound).run := by
  refine h.bind fun outcome => ?_
  cases outcome with
  | ok a => exact hf a
  | error error => exact .const _

theorem mapM_finishes {f : Nat → α → Result ε β} {items : List α}
    (h : ∀ item ∈ items, Finishes fun bound => (f bound item).run) :
    Finishes fun bound => (items.mapM (f bound)).run := by
  induction items with
  | nil => exact .const _
  | cons item rest ih =>
    simp only [List.mapM_cons]
    refine bind_finishes (h item List.mem_cons_self) fun first => ?_
    exact bind_finishes (ih fun item hm => h item (List.mem_cons_of_mem _ hm)) fun _ => .const _

end Results

/-- Whatever the type is, coercing the value finishes. -/
def Coercible (types : Types) (bindings : Variables) (value : InputValue) : Prop :=
  ∀ type, Finishes fun bound => (coerce types bindings bound type value).run

theorem coerceField_finishes {inputType name : String} {supplied : Entries InputValue}
    {field : InputField} (h : ∀ value, Entries.find? supplied name = some value →
      Coercible types bindings value) :
    Finishes fun bound => (coerceField bindings (coerce types bindings bound) inputType supplied
      name field).run := by
  unfold coerceField
  cases hvalue : (Entries.find? supplied name).filter fun value => !isUnset bindings value with
  | some value => exact h value (Option.eq_some_of_filter_eq_some hvalue) field.type
  | none =>
    dsimp only
    split
    · exact .const _
    · split <;> exact .const _

theorem coerceNamed_finishes (hclosed : bindings.Closed) {value : InputValue} (name : String)
    (h : ∀ fields, value = .object fields → ∀ entry ∈ fields, Coercible types bindings entry.2) :
    Finishes fun bound =>
      (coerceNamed types bindings bound (coerce types bindings bound) name value).run := by
  simp only [coerceNamed_eq]
  cases types.inputType? name with
  | none => exact .const _
  | some inputType =>
    cases inputType with
    | scalar codec =>
      obtain ⟨bound, raw, hraw⟩ := InputValue.toValue_finishes hclosed value
      refine ⟨bound, (codec.decode raw).mapError (.invalidScalar name), fun more hle => ?_⟩
      simp only [coerceScalar, hraw more hle]
      cases codec.decode raw <;> rfl
    | enum values => exact .const _
    | object fields =>
      simp only [coerceObject]
      split
      · next supplied =>
        split
        · exact .const _
        · refine bind_finishes (mapM_finishes fun entry _ => ?_) fun _ => .const _
          refine bind_finishes (coerceField_finishes fun value hvalue => ?_) fun _ => .const _
          exact h supplied rfl _ (Entries.mem_of_find? hvalue)
      · exact .const _

/-- Coercing a value finishes if that is so of its items and fields. -/
theorem coercible_of_parts (hclosed : bindings.Closed) {value : InputValue}
    (hvar : ∀ name, value ≠ .var name)
    (hitems : ∀ items, value = .list items → ∀ item ∈ items, Coercible types bindings item)
    (hfields : ∀ fields, value = .object fields →
      ∀ entry ∈ fields, Coercible types bindings entry.2) :
    Coercible types bindings value := by
  intro type
  refine .succ ?_
  revert hitems hfields
  refine step_induction ?null ?nonNull ?list ?single ?named ?builtin type value hvar
  case null =>
    intro type _ _
    cases type <;> exact .const _
  case nonNull =>
    intro inner value hvar hnull ih hitems hfields
    simp only [coerce_nonNull hvar hnull]
    exact .succ (ih hitems hfields)
  case list =>
    intro item items hitems _
    simp only [coerce_list]
    exact bind_finishes (mapM_finishes fun value hm => hitems items rfl value hm item)
      fun _ => .const _
  case single =>
    intro item value hvar hnull hlist ih hitems hfields
    simp only [coerce_single hvar hnull hlist]
    exact bind_finishes (.succ (ih hitems hfields)) fun _ => .const _
  case named =>
    intro name value hvar hnull _ hfields
    simp only [coerce_named hvar hnull]
    exact coerceNamed_finishes hclosed name hfields
  case builtin =>
    intro type value hvar hnull hbuiltin _ _
    simp only [coerce_builtin hvar hnull hbuiltin]
    exact .const _

/-- Coercing a value finishes if coercing the variables does that it refers to. -/
theorem coercible_of_references (hclosed : bindings.Closed) {value : InputValue}
    (h : ∀ name ∈ value.references, Coercible types bindings (.var name)) :
    Coercible types bindings value := by
  induction value using InputValue.induction with
  | atom value hnone hlist hobject =>
    refine coercible_of_parts hclosed ?_ (fun items he => absurd he (hlist items))
      (fun fields he => absurd he (hobject fields))
    rintro name rfl
    cases hnone
  | list items ih =>
    rw [InputValue.references, InputValue.allReferences_eq_flatMap] at h
    refine coercible_of_parts hclosed nofun ?_ nofun
    rintro _ ⟨⟩ item hm
    exact ih item hm fun name hname => h name (List.mem_flatMap.mpr ⟨item, hm, hname⟩)
  | object fields ih =>
    rw [InputValue.references, InputValue.fieldReferences_eq_flatMap] at h
    refine coercible_of_parts hclosed nofun nofun ?_
    rintro _ ⟨⟩ entry hm
    exact ih entry hm fun name hname => h name (List.mem_flatMap.mpr ⟨entry, hm, hname⟩)
  | var name => exact h name (List.mem_singleton_self name)

/-- A reference stands for its value, or for null. -/
theorem resolve_var (hclosed : bindings.Closed) (name : String) :
    resolve bindings (.var name) = .ok ((Entries.find? bindings name).getD .null) := by
  cases hbound : Entries.find? bindings name with
  | none => exact resolve_of_unset hbound
  | some value =>
    refine resolve_of_bound hbound ?_
    rintro nested rfl
    cases hclosed name _ hbound

end Coercion

open Coercion

/-- Coercing a value to a type finishes. -/
theorem coerce_finishes (hclosed : bindings.Closed) (type : TypeRef) (written : InputValue) :
    Finishes fun bound => (coerce types bindings bound type written).run := by
  refine coercible_of_references hclosed (fun name _ => ?_) type
  have hvalue : Coercible types bindings ((Entries.find? bindings name).getD .null) :=
    coercible_of_references hclosed (by simp [hclosed.references_getD name])
  intro type
  refine .succ ?_
  simp only [coerce_of_resolve (resolve_var hclosed name)]
  exact (hvalue type).shift

/-- Coercing the arguments of a field finishes. -/
theorem coerceArguments_finishes (hclosed : bindings.Closed) (arguments : List Argument)
    (field : Field) :
    Finishes fun bound => (coerceArguments types bindings bound arguments field).run := by
  unfold coerceArguments
  refine bind_finishes (mapM_finishes fun argument _ => ?_) fun _ => .const _
  refine bind_finishes (Finishes.map ?_ _) fun _ => .const _
  unfold coerceArgument
  split
  · exact coerce_finishes hclosed _ _
  · split
    · exact .const _
    · exact coerce_finishes hclosed _ _

end GraphQL

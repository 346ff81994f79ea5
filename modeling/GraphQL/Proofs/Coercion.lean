import GraphQL.Coercion
import Mathlib.Data.List.Forall2

/-!
# Rules of coercion

What a coercion that succeeded can have done (`Coercion.Gives`). A value is resolved first: a
reference is read, and what is left is no reference. Then the type says what comes next, as long as
there is a value at all.

Results:
* `Coercion.bind_eq_ok_iff`, `mapM_eq_ok_iff`, `named_eq_ok_iff` and their partners for errors: how
  steps succeed and fail together.
* `Entries.map_eq_keys_iff`: entries that go with a list, one for each member.
* `coerceNamed_eq`: what a name stands for decides how values of the type are coerced.
* `coerce_of_resolve`, `coerce_nonNull`, `coerce_list`, `coerce_single`, `coerce_named`,
  `coerce_builtin`: the next step of a coercion, for each form of the type and the value.
* `step_induction`: induction over these steps.
* `coerce_eq_ok`: a coercion that succeeded has resolved the value and taken one of these steps.
-/

namespace GraphQL

/-- Entries are named for the members of a list if they go together one by one. -/
theorem Entries.map_eq_keys_iff {α β : Type} {name : α → String} {xs : List α}
    {entries : Entries β} :
    xs.map name = keys entries ↔ List.Forall₂ (fun x entry => name x = entry.1) xs entries := by
  rw [keys, ← List.forall₂_eq_eq_eq, List.forall₂_map_left_iff, List.forall₂_map_right_iff]

/-! ## Input types -/

/-- What the name of an input type stands for. -/
inductive InputType where
  | scalar (codec : ScalarCodec)
  | enum (values : List String)
  | object (fields : Entries InputField)

/-- What a name stands for: a custom scalar, an enum or an input object, in this order. -/
def Types.inputType? (types : Types) (name : String) : Option InputType :=
  match Entries.find? types.scalars name with
  | some codec => some (.scalar codec)
  | none =>
    match Entries.find? types.enums name with
    | some values => some (.enum values)
    | none => (Entries.find? types.inputs name).map .object

namespace Coercion

variable {types : Types} {bindings : Variables} {bound : Nat}

/-- What the name of a type stands for decides how a value is coerced to it. -/
theorem coerceNamed_eq (coerceTo : TypeRef → InputValue → Result CoercionError Value)
    (name : String) (value : InputValue) :
    coerceNamed types bindings bound coerceTo name value =
      match types.inputType? name with
      | some (.scalar codec) => coerceScalar bindings bound name codec value
      | some (.enum values) => settled (coerceEnum name values value)
      | some (.object fields) => coerceObject bindings coerceTo name fields value
      | none => throw (.unknownType name) := by
  unfold coerceNamed Types.inputType?
  cases Entries.find? types.scalars name with
  | some codec => rfl
  | none =>
    cases Entries.find? types.enums name with
    | some values => rfl
    | none => cases Entries.find? types.inputs name <;> rfl

/-! ## Results -/

section Results

variable {ε α β : Type}

theorem bind_eq_ok_iff {x : Result ε α} {f : α → Result ε β} {b : β} :
    (x >>= f).run = some (.ok b) ↔ ∃ a, x.run = some (.ok a) ∧ (f a).run = some (.ok b) := by
  constructor
  · intro h
    obtain ⟨outcome, hx, h⟩ := Option.bind_eq_some_iff.mp h
    cases outcome with
    | error error => cases h
    | ok a => exact ⟨a, hx, h⟩
  · rintro ⟨a, hx, h⟩
    exact Option.bind_eq_some_iff.mpr ⟨.ok a, hx, h⟩

theorem mapM_eq_ok_iff {f : α → Result ε β} {items : List α} {results : List β} :
    (items.mapM f).run = some (.ok results) ↔
      List.Forall₂ (fun item result => (f item).run = some (.ok result)) items results := by
  induction items generalizing results with
  | nil =>
    constructor
    · rintro ⟨⟩
      exact .nil
    · rintro ⟨⟩
      rfl
  | cons item rest ih =>
    rw [List.mapM_cons, bind_eq_ok_iff]
    constructor
    · rintro ⟨first, hfirst, h⟩
      obtain ⟨others, hothers, ⟨⟩⟩ := bind_eq_ok_iff.mp h
      exact .cons hfirst (ih.mp hothers)
    · rintro (_ | ⟨hfirst, hrest⟩)
      exact ⟨_, hfirst, bind_eq_ok_iff.mpr ⟨_, ih.mpr hrest, rfl⟩⟩

theorem bind_eq_error_iff {x : Result ε α} {f : α → Result ε β} {error : ε} :
    (x >>= f).run = some (.error error) ↔
      x.run = some (.error error) ∨ ∃ a, x.run = some (.ok a) ∧ (f a).run = some (.error error) := by
  constructor
  · intro h
    obtain ⟨outcome, hx, h⟩ := Option.bind_eq_some_iff.mp h
    cases outcome with
    | error _ =>
      cases h
      exact .inl hx
    | ok a => exact .inr ⟨a, hx, h⟩
  · rintro (hx | ⟨a, hx, h⟩)
    · exact Option.bind_eq_some_iff.mpr ⟨.error error, hx, rfl⟩
    · exact Option.bind_eq_some_iff.mpr ⟨.ok a, hx, h⟩

/-- Along a list, the error is that of the first item that does not succeed. -/
theorem mapM_eq_error_iff {f : α → Result ε β} {items : List α} {error : ε} :
    (items.mapM f).run = some (.error error) ↔
      ∃ before item after, items = before ++ item :: after ∧
        (∀ earlier ∈ before, ∃ result, (f earlier).run = some (.ok result)) ∧
        (f item).run = some (.error error) := by
  induction items with
  | nil =>
    constructor
    · rintro ⟨⟩
    · rintro ⟨before, item, after, heq, -⟩
      exact absurd heq.symm (List.append_ne_nil_of_right_ne_nil _ (List.cons_ne_nil _ _))
  | cons item rest ih =>
    rw [List.mapM_cons, bind_eq_error_iff]
    constructor
    · rintro (hitem | ⟨first, hfirst, h⟩)
      · exact ⟨[], item, rest, rfl, by simp, hitem⟩
      · obtain hrest | ⟨_, _, ⟨⟩⟩ := bind_eq_error_iff.mp h
        obtain ⟨before, failed, after, rfl, hbefore, hfailed⟩ := ih.mp hrest
        refine ⟨item :: before, failed, after, rfl, ?_, hfailed⟩
        exact List.forall_mem_cons.mpr ⟨⟨first, hfirst⟩, hbefore⟩
    · rintro ⟨_ | ⟨first, before⟩, failed, after, heq, hbefore, hfailed⟩
      · obtain ⟨rfl, rfl⟩ := List.cons.inj heq
        exact .inl hfailed
      · obtain ⟨rfl, hrest⟩ := List.cons.inj heq
        obtain ⟨⟨result, hfirst⟩, hbefore⟩ := List.forall_mem_cons.mp hbefore
        refine .inr ⟨result, hfirst, bind_eq_error_iff.mpr (.inl (ih.mpr ?_))⟩
        exact ⟨before, failed, after, hrest, hbefore, hfailed⟩

theorem named_eq_ok_iff {name : String} {x : Result CoercionError α} {a : α} :
    (named name x).run = some (.ok a) ↔ x.run = some (.ok a) := by
  constructor
  · intro h
    obtain ⟨outcome, hx, h⟩ := Option.map_eq_some_iff.mp h
    cases outcome with
    | error error => cases h
    | ok _ =>
      cases h
      exact hx
  · intro hx
    exact Option.map_eq_some_iff.mpr ⟨.ok a, hx, rfl⟩

theorem named_eq_error_iff {name other : String} {x : Result CoercionError α}
    {error : CoercionError} :
    (named name x).run = some (.error (other, error)) ↔
      other = name ∧ x.run = some (.error error) := by
  constructor
  · intro h
    obtain ⟨outcome, hx, h⟩ := Option.map_eq_some_iff.mp h
    cases outcome with
    | error _ =>
      cases h
      exact ⟨rfl, hx⟩
    | ok _ => cases h
  · rintro ⟨rfl, hx⟩
    exact Option.map_eq_some_iff.mpr ⟨.error error, hx, rfl⟩

end Results

/-! ## Steps -/

/-- What has been resolved is no reference. -/
theorem ne_var_of_resolve {written value : InputValue} (h : resolve bindings written = .ok value)
    (name : String) : value ≠ .var name := by
  rintro rfl
  cases written with
  | var reference =>
    rw [resolve] at h
    split at h <;> simp_all
  | _ => cases h

theorem resolve_of_ne_var {value : InputValue} (h : ∀ name, value ≠ .var name) :
    resolve bindings value = .ok value := by
  cases value with
  | var name => exact absurd rfl (h name)
  | _ => rfl

section Reference

variable {name : String}

theorem resolve_of_unset (h : Entries.find? bindings name = none) :
    resolve bindings (.var name) = .ok .null := by
  rw [resolve, h]

theorem resolve_of_reference {nested : String}
    (h : Entries.find? bindings name = some (.var nested)) :
    resolve bindings (.var name) = .error (.nestedVariable nested) := by
  rw [resolve, h]

theorem resolve_of_bound {value : InputValue} (h : Entries.find? bindings name = some value)
    (hvar : ∀ nested, value ≠ .var nested) : resolve bindings (.var name) = .ok value := by
  rw [resolve, h]
  cases value with
  | var nested => exact absurd rfl (hvar nested)
  | _ => rfl

end Reference

/-- A reference is coerced like what it stands for. -/
theorem coerce_of_resolve {written value : InputValue} (h : resolve bindings written = .ok value)
    (type : TypeRef) :
    coerce types bindings (bound + 1) type written =
      coerce types bindings (bound + 1) type value := by
  rw [coerce, coerce, h, resolve_of_ne_var (ne_var_of_resolve h)]

section Equations

variable {value : InputValue} (hvar : ∀ name, value ≠ .var name) (hnull : value ≠ .null)

include hvar hnull

theorem coerce_nonNull (inner : TypeRef) :
    coerce types bindings (bound + 1) (.nonNull inner) value =
      coerce types bindings bound inner value := by
  cases value with
  | null => exact absurd rfl hnull
  | var name => exact absurd rfl (hvar name)
  | _ => rfl

/-- A single value in place of a list stands for a list of one. -/
theorem coerce_single (hlist : ∀ items, value ≠ .list items) (item : TypeRef) :
    coerce types bindings (bound + 1) (.list item) value =
      do return .list [← coerce types bindings bound item value] := by
  cases value with
  | null => exact absurd rfl hnull
  | var name => exact absurd rfl (hvar name)
  | list items => exact absurd rfl (hlist items)
  | _ => rfl

theorem coerce_named (name : String) :
    coerce types bindings (bound + 1) (.named name) value =
      coerceNamed types bindings bound (coerce types bindings bound) name value := by
  cases value with
  | null => exact absurd rfl hnull
  | var name => exact absurd rfl (hvar name)
  | _ => rfl

theorem coerce_builtin {type : TypeRef} (h : type.isBuiltin = true) :
    coerce types bindings (bound + 1) type value = settled (coerceBuiltin type value) := by
  cases value with
  | null => exact absurd rfl hnull
  | var name => exact absurd rfl (hvar name)
  | _ => cases type <;> first | rfl | cases h

end Equations

theorem coerce_list (item : TypeRef) (items : List InputValue) :
    coerce types bindings (bound + 1) (.list item) (.list items) =
      do return .list (← items.mapM (coerce types bindings bound item)) :=
  rfl

/-- Induction over the steps for a value that has been resolved. Two of them lead to the same value
    with a smaller type, the others to what the value is made up of. -/
@[elab_as_elim]
theorem step_induction {P : TypeRef → InputValue → Prop}
    (null : ∀ type, P type .null)
    (nonNull : ∀ inner value, (∀ name, value ≠ .var name) → value ≠ .null → P inner value →
      P (.nonNull inner) value)
    (list : ∀ item items, P (.list item) (.list items))
    (single : ∀ item value, (∀ name, value ≠ .var name) → value ≠ .null →
      (∀ items, value ≠ .list items) → P item value → P (.list item) value)
    (named : ∀ name value, (∀ reference, value ≠ .var reference) → value ≠ .null →
      P (.named name) value)
    (builtin : ∀ (type : TypeRef) value, (∀ name, value ≠ .var name) → value ≠ .null →
      type.isBuiltin = true → P type value)
    (type : TypeRef) (value : InputValue) (hvar : ∀ name, value ≠ .var name) : P type value := by
  by_cases hnull : value = .null
  · subst hnull
    exact null type
  induction type with
  | nonNull inner ih => exact nonNull inner value hvar hnull ih
  | list item ih =>
    by_cases hlist : ∃ items, value = .list items
    · obtain ⟨items, rfl⟩ := hlist
      exact list item items
    · have hlist : ∀ items, value ≠ .list items := fun items he => hlist ⟨items, he⟩
      exact single item value hvar hnull hlist ih
  | named name => exact named name value hvar hnull
  | string | int | float | id | boolean => exact builtin _ value hvar hnull rfl

/-- How a value that has been resolved is coerced to a type with the given result. -/
inductive Gives (types : Types) (bindings : Variables) (bound : Nat) :
    TypeRef → InputValue → Value → Prop
  | null {type : TypeRef} : type.isNonNull = false → Gives types bindings bound type .null .null
  | required {inner : TypeRef} {value : InputValue} {result : Value} :
    value ≠ .null → (coerce types bindings bound inner value).run = some (.ok result) →
    Gives types bindings bound (.nonNull inner) value result
  | items {item : TypeRef} {values : List InputValue} {results : List Value} :
    List.Forall₂ (fun value result =>
      (coerce types bindings bound item value).run = some (.ok result)) values results →
    Gives types bindings bound (.list item) (.list values) (.list results)
  | single {item : TypeRef} {value : InputValue} {result : Value} :
    value ≠ .null → (∀ items, value ≠ .list items) →
    (coerce types bindings bound item value).run = some (.ok result) →
    Gives types bindings bound (.list item) value (.list [result])
  | named {name : String} {value : InputValue} {result : Value} :
    value ≠ .null →
    (coerceNamed types bindings bound (coerce types bindings bound) name value).run =
      some (.ok result) →
    Gives types bindings bound (.named name) value result
  | builtin {type : TypeRef} {value : InputValue} {result : Value} :
    value ≠ .null → type.isBuiltin = true → coerceBuiltin type value = .ok result →
    Gives types bindings bound type value result

/-- A coercion that succeeded has resolved the value and taken a step. -/
theorem coerce_eq_ok {type : TypeRef} {written : InputValue} {result : Value}
    (h : (coerce types bindings (bound + 1) type written).run = some (.ok result)) :
    ∃ value, resolve bindings written = .ok value ∧
      Gives types bindings bound type value result := by
  rw [coerce] at h
  split at h
  · cases h
  · next value hresolve =>
    refine ⟨value, hresolve, ?_⟩
    split at h
    · cases h
    · next hnull => exact .required (fun he => hnull he) h
    · next hnonNull =>
      cases h
      exact .null (by cases type <;> simp_all [TypeRef.isNonNull])
    · obtain ⟨results, hresults, ⟨⟩⟩ := bind_eq_ok_iff.mp h
      exact .items (mapM_eq_ok_iff.mp hresults)
    · next hnull hlist =>
      obtain ⟨single, hsingle, ⟨⟩⟩ := bind_eq_ok_iff.mp h
      exact .single (fun he => hnull he) (fun items he => hlist items he) hsingle
    · next hnull => exact .named (fun he => hnull he) h
    · next hrequired hlist hnamed hnull _ _ =>
      have hbuiltin : type.isBuiltin = true := by
        cases type with
        | named name => exact absurd rfl (hnamed name)
        | list item => exact absurd rfl (hlist item)
        | nonNull inner => exact absurd rfl (hrequired inner)
        | string | int | float | id | boolean => rfl
      exact .builtin (fun he => hnull he) hbuiltin (Option.some.inj h)

end Coercion

end GraphQL

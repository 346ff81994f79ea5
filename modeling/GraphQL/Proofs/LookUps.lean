import GraphQL.Coercion
import GraphQL.Collection
import GraphQL.Execution.Leaf
import GraphQL.Schema
import Mathlib.Data.Option.Basic

/-!
# Schemas that answer alike

An execution only looks names up: fields in objects, enums, input objects and scalars among the
types, and whether an object type belongs to an abstract type. The order in which a schema holds
them cannot be seen, and neither can entries that no look-up finds. Schemas are alike
(`Schema.Alike`) if they answer every look-up in the same way.

Results:
* `Types.Alike.coerce`, `Types.Alike.coerceArguments`: alike types coerce values in the same way.
* `Types.Alike.completeLeaf`: they write leaves in the same way.
* `Types.Alike.collect`: they collect the same fields.
-/

namespace GraphQL

/-- Both answer every look-up in the same way. -/
structure Types.Alike (one other : Types) : Prop where
  enum (name : String) : Entries.find? other.enums name = Entries.find? one.enums name
  input (name : String) : Entries.find? other.inputs name = Entries.find? one.inputs name
  scalar (name : String) : Entries.find? other.scalars name = Entries.find? one.scalars name
  subtype (abstract object : String) :
    other.isSubtype abstract object = one.isSubtype abstract object

/-- Both have the same name, and the same field under every name. -/
structure ObjectType.Alike {ref : Type} (one other : ObjectType ref) : Prop where
  name : other.name = one.name
  field (name : String) : other.field? name = one.field? name

/-- Both serve the same kinds of operations, with root objects and types that are alike. -/
structure Schema.Alike {ref : Type} (one other : Schema ref) : Prop where
  root (kind : OperationKind) : Option.Rel ObjectType.Alike (one.root kind) (other.root kind)
  types : one.types.Alike other.types

theorem Types.Alike.refl (types : Types) : types.Alike types :=
  ⟨fun _ => rfl, fun _ => rfl, fun _ => rfl, fun _ _ => rfl⟩

theorem ObjectType.Alike.refl {ref : Type} (object : ObjectType ref) : object.Alike object :=
  ⟨rfl, fun _ => rfl⟩

theorem Schema.Alike.refl {ref : Type} (schema : Schema ref) : schema.Alike schema where
  root kind := by
    cases schema.root kind with
    | none => exact .none
    | some root => exact .some (.refl root)
  types := .refl _

namespace Types.Alike

variable {one other : Types}

/-! ## Coercion -/

section Coercion

variable (h : one.Alike other) (bindings : Variables) (bound : Nat)

include h

theorem coerceNamed (coerceTo : TypeRef → InputValue → Coercion.Result CoercionError Value)
    (name : String) (value : InputValue) :
    Coercion.coerceNamed other bindings bound coerceTo name value =
      Coercion.coerceNamed one bindings bound coerceTo name value := by
  simp only [Coercion.coerceNamed, h.enum, h.input, h.scalar]

/-- Alike types coerce values in the same way. -/
theorem coerce : GraphQL.coerce other bindings bound = GraphQL.coerce one bindings bound := by
  induction bound with
  | zero => rfl
  | succ bound ih =>
    funext type written
    simp only [GraphQL.coerce, ih, h.coerceNamed]

theorem coerceArgument (field : Field) (argument : Argument) :
    GraphQL.coerceArgument other bindings bound field argument =
      GraphQL.coerceArgument one bindings bound field argument := by
  simp only [GraphQL.coerceArgument, h.coerce]

/-- Alike types coerce arguments in the same way. -/
theorem coerceArguments (arguments : List Argument) (field : Field) :
    GraphQL.coerceArguments other bindings bound arguments field =
      GraphQL.coerceArguments one bindings bound arguments field := by
  simp only [GraphQL.coerceArguments, h.coerceArgument]

end Coercion

/-! ## Leaves -/

/-- Alike types write leaves in the same way. -/
theorem completeLeaf (h : one.Alike other) (type : TypeRef) :
    GraphQL.completeLeaf other type = GraphQL.completeLeaf one type := by
  induction type with
  | named name =>
    funext value
    cases value <;> simp only [GraphQL.completeLeaf, h.scalar]
  | list item ih =>
    funext value
    cases value <;> simp only [GraphQL.completeLeaf, ih]
  | nonNull inner ih =>
    funext value
    cases value <;> simp only [GraphQL.completeLeaf, ih]
  | _ =>
    funext value
    cases value <;> rfl

/-! ## Collected fields -/

section Collection

open GraphQL.Collection

variable {scope : Scope}

theorem applies (h : scope.types.Alike other) (runtime : Option String) (condition : String) :
    Collection.applies other runtime condition =
      Collection.applies scope.types runtime condition := by
  simp only [Collection.applies, h.subtype]

mutual

theorem visit (h : scope.types.Alike other) (enter : List Selection → State → State) :
    ∀ (selection : Selection) (state : State),
      Collection.visit { scope with types := other } enter selection state =
        Collection.visit scope enter selection state
  | .field _, _ => rfl
  | .inlineFragment condition guard below, state => by
    have hcondition : condition.all (Collection.applies other scope.runtime) =
        condition.all (Collection.applies scope.types scope.runtime) :=
      congrArg condition.all (funext (h.applies scope.runtime))
    simp only [Collection.visit, hcondition, walk h enter below]
  | .spread name guard, state => by
    simp only [Collection.visit, h.applies]

theorem walk (h : scope.types.Alike other) (enter : List Selection → State → State) :
    ∀ (selections : List Selection) (state : State),
      Collection.walk { scope with types := other } enter selections state =
        Collection.walk scope enter selections state
  | [], _ => rfl
  | selection :: rest, state => by
    simp only [Collection.walk, visit h enter selection, walk h enter rest]

end

theorem walkTo (h : scope.types.Alike other) (depth : Nat) :
    Collection.walkTo { scope with types := other } depth = Collection.walkTo scope depth := by
  induction depth with
  | zero =>
    funext selections state
    exact h.walk _ selections state
  | succ depth ih =>
    funext selections state
    rw [Collection.walkTo, Collection.walkTo, ih]
    exact h.walk _ selections state

/-- Alike types let the same fields be collected. -/
theorem collect (h : scope.types.Alike other) (selections : List Selection) :
    GraphQL.collect { scope with types := other } selections = GraphQL.collect scope selections :=
  congrArg (fun walked => (walked selections {}).fields) (h.walkTo scope.fragments.length)

end Collection

end Types.Alike

end GraphQL

import GraphQL.Proofs.Pruning

/-!
# Settling conditions

The condition of a directive may be a variable. A document settles such conditions for another one
if it writes a truth value for the variable in some of its directives, wherever they stand. The two
documents have the same shape; `Document.places` lists what stands opposite to each other, with the
level at which it is read. `Place.Spared` are the places that only the settled document leaves out
for good.

Results:
* `Guard.agrees_ofDirectives`: with the variable bound to the value, settled conditions skip the same.
* `Guard.alwaysSkips_ofDirectives`: what is left out for good without settling them still is.
-/

namespace GraphQL

/-! ## Settling conditions -/

namespace Document

/-- Writes the truth value `b` for the variable `name` in the condition of a directive, or leaves the
    directive as it is. -/
inductive Directive.Settles (name : String) (b : Bool) : Directive → Directive → Prop where
  | same (directive : Directive) : Settles name b directive directive
  | settled {directive other : Directive} : other.name = directive.name →
    List.lookup "if" directive.arguments = some (.var name) →
    List.lookup "if" other.arguments = some (.boolean b) → Settles name b directive other

namespace Selection

/-- Settles some of the conditions in a selection, at any depth. -/
inductive Settles (name : String) (b : Bool) : Selection → Selection → Prop where
  | field (aliasName : Option String) (fieldName : String) (arguments : Arguments)
      (location : Location) {directives directives' : List Directive}
      {below below' : List Selection} :
    List.Forall₂ (Directive.Settles name b) directives directives' →
    List.Forall₂ (Settles name b) below below' →
    Settles name b (.field aliasName fieldName arguments directives below location)
      (.field aliasName fieldName arguments directives' below' location)
  | inlineFragment (condition : Option String) {directives directives' : List Directive}
      {below below' : List Selection} :
    List.Forall₂ (Directive.Settles name b) directives directives' →
    List.Forall₂ (Settles name b) below below' →
    Settles name b (.inlineFragment condition directives below)
      (.inlineFragment condition directives' below')
  | spread (fragment : String) {directives directives' : List Directive} :
    List.Forall₂ (Directive.Settles name b) directives directives' →
    Settles name b (.spread fragment directives) (.spread fragment directives')

mutual

/-- A selection may be left as it is. -/
theorem Settles.refl {name : String} {b : Bool} :
    ∀ selection : Selection, Settles name b selection selection
  | .field aliasName fieldName arguments _ below location =>
    .field aliasName fieldName arguments location
      (List.forall₂_same.mpr fun directive _ => .same directive) (Settles.refl_all below)
  | .inlineFragment condition _ below =>
    .inlineFragment condition (List.forall₂_same.mpr fun directive _ => .same directive)
      (Settles.refl_all below)
  | .spread fragment _ =>
    .spread fragment (List.forall₂_same.mpr fun directive _ => .same directive)

/-- And so may selections. -/
theorem Settles.refl_all {name : String} {b : Bool} :
    ∀ selections : List Selection, List.Forall₂ (Settles name b) selections selections
  | [] => .nil
  | selection :: rest => .cons (Settles.refl selection) (Settles.refl_all rest)

end

/-- The conditions of a selection. -/
def guard : Selection → Guard
  | .field _ _ _ directives _ _ | .inlineFragment _ directives _ | .spread _ directives =>
    Guard.ofDirectives directives

end Selection

/-- Settles some of the conditions in a definition. -/
inductive Definition.Settles (name : String) (b : Bool) : Definition → Definition → Prop where
  | operation (kind : OperationKind) (operationName : Option String)
      (declared : List VariableDefinition) {selections selections' : List Selection} :
    List.Forall₂ (Selection.Settles name b) selections selections' →
    Settles name b (.operation kind operationName declared selections)
      (.operation kind operationName declared selections')
  | fragment (fragmentName condition : String) {selections selections' : List Selection} :
    List.Forall₂ (Selection.Settles name b) selections selections' →
    Settles name b (.fragment fragmentName condition selections)
      (.fragment fragmentName condition selections')

/-- The selections of a definition. -/
def Definition.selections : Definition → List Selection
  | .operation _ _ _ selections | .fragment _ _ selections => selections

/-! ## Places -/

/-- A selection, its level, and what has become of it with settled conditions. -/
structure Place where
  level : Nat
  selection : Selection
  settled : Selection

mutual

/-- The places in a selection, down to where the settled one is left out for good. -/
def Selection.places (level : Nat) : Selection → Selection → List Place
  | selection@(.field _ _ _ _ below _), settled@(.field _ _ _ _ below' _)
  | selection@(.inlineFragment _ _ below), settled@(.inlineFragment _ _ below') =>
    ⟨level, selection, settled⟩ ::
      if settled.guard.alwaysSkips then [] else Selection.allPlaces (level + 1) below below'
  | selection, settled => [⟨level, selection, settled⟩]

/-- The places in selections. -/
def Selection.allPlaces (level : Nat) : List Selection → List Selection → List Place
  | selection :: rest, settled :: others =>
    Selection.places level selection settled ++ Selection.allPlaces level rest others
  | _, _ => []

end

/-- A selection that is not too deep and not left out for good, but would be with settled
    conditions. -/
def Place.Spared (place : Place) : Prop :=
  place.level ≤ maxSelectionDepth ∧ place.selection.guard.alwaysSkips = false ∧
    place.settled.guard.alwaysSkips = true

/-- The places of a document. -/
def places (document settled : Document) : List Place :=
  (document.zip settled).flatMap fun entry =>
    Selection.allPlaces 0 entry.1.selections entry.2.selections

end Document

/-! ## Guards -/

/-- The variables bind `name` to a truth value. -/
def Binds (name : String) (b : Bool) (bindings : Variables) : Prop :=
  Entries.find? bindings name = some (.boolean b)

/-- What is skipped for good is skipped with all variables. -/
theorem Guard.skipsWith_of_alwaysSkips {guard : Guard} (h : guard.alwaysSkips = true)
    (bindings : Variables) : guard.skipsWith bindings = true := by
  rw [alwaysSkips, Bool.or_eq_true, List.contains_iff_mem, List.contains_iff_mem] at h
  rw [skipsWith, Bool.or_eq_true, List.any_eq_true, List.any_eq_true]
  exact h.imp (fun hm => ⟨.yes, hm, rfl⟩) fun hm => ⟨.no, hm, rfl⟩

theorem any_eq_of_forall₂ {α β : Type} {R : α → β → Prop} {xs : List α} {ys : List β}
    {p : α → Bool} {q : β → Bool} (h : List.Forall₂ R xs ys) (hpq : ∀ x y, R x y → q y = p x) :
    ys.any q = xs.any p := by
  induction h with
  | nil => rfl
  | cons hhead _ ih => rw [List.any_cons, List.any_cons, hpq _ _ hhead, ih]

theorem exists_of_mem_of_forall₂ {α β : Type} {R : α → β → Prop} {xs : List α} {ys : List β} {x : α}
    (h : List.Forall₂ R xs ys) (hm : x ∈ xs) : ∃ y ∈ ys, R x y := by
  induction h with
  | nil => cases hm
  | @cons head other _ _ hhead _ ih =>
    rcases List.mem_cons.mp hm with rfl | hm
    · exact ⟨other, List.mem_cons_self, hhead⟩
    · obtain ⟨y, hy, hxy⟩ := ih hm
      exact ⟨y, List.mem_cons_of_mem _ hy, hxy⟩

open Document (Directive)

variable {name : String} {b : Bool}

/-- With the variable bound, a settled condition has the same value. -/
theorem Document.Directive.Settles.holds? {directive other : Directive}
    (h : directive.Settles name b other) {bindings : Variables} (hbound : Binds name b bindings)
    (neutral : Condition) :
    ((Condition.ofDirective? other).getD neutral).holds? bindings =
      ((Condition.ofDirective? directive).getD neutral).holds? bindings := by
  cases h with
  | same => rfl
  | settled _ hvar hboolean =>
    have hbound' : Entries.find? bindings name = some (.boolean b) := hbound
    cases b <;> simp [Condition.ofDirective?, hvar, hboolean, Condition.holds?, hbound']

theorem Guard.agrees_ofDirectives {directives others : List Directive}
    (h : List.Forall₂ (Directive.Settles name b) directives others) :
    (ofDirectives directives).Agrees (Binds name b) (ofDirectives others) := by
  intro bindings hbound
  have hname : ∀ directive other, Directive.Settles name b directive other →
      other.name = directive.name := by
    intro directive other hsettles
    cases hsettles with
    | same => rfl
    | settled hname => exact hname
  simp only [skipsWith, ofDirectives, List.any_map, List.any_filter]
  refine congrArg₂ _ (any_eq_of_forall₂ h ?_) (any_eq_of_forall₂ h ?_)
  · intro directive other hsettles
    simp only [Function.comp_apply, hname _ _ hsettles, hsettles.holds? hbound]
  · intro directive other hsettles
    simp only [Function.comp_apply, hname _ _ hsettles, hsettles.holds? hbound]

/-- What is left out for good still is with settled conditions. -/
theorem Guard.alwaysSkips_ofDirectives {directives others : List Directive}
    (h : List.Forall₂ (Directive.Settles name b) directives others)
    (hskips : (ofDirectives directives).alwaysSkips = true) :
    (ofDirectives others).alwaysSkips = true := by
  -- A condition that is settled was a variable before, so it decided nothing.
  have hstays : ∀ directive other (neutral : Condition), Directive.Settles name b directive other →
      ∀ known ∈ [Condition.yes, .no], (Condition.ofDirective? directive).getD neutral = known →
        other = directive := by
    intro directive other neutral hsettles known hknown hvalue
    cases hsettles with
    | same => rfl
    | settled _ hvar =>
      rw [Condition.ofDirective?, hvar] at hvalue
      subst hvalue
      simp at hknown
  rw [alwaysSkips, Bool.or_eq_true, List.contains_iff_mem, List.contains_iff_mem] at hskips ⊢
  simp only [ofDirectives, List.mem_map, List.mem_filter] at hskips ⊢
  refine hskips.imp ?_ ?_
  · rintro ⟨directive, ⟨hm, hname⟩, hvalue⟩
    obtain ⟨other, hm', hsettles⟩ := exists_of_mem_of_forall₂ h hm
    obtain rfl := hstays directive other .no hsettles .yes (by simp) hvalue
    exact ⟨other, ⟨hm', hname⟩, hvalue⟩
  · rintro ⟨directive, ⟨hm, hname⟩, hvalue⟩
    obtain ⟨other, hm', hsettles⟩ := exists_of_mem_of_forall₂ h hm
    obtain rfl := hstays directive other .yes hsettles .no (by simp) hvalue
    exact ⟨other, ⟨hm', hname⟩, hvalue⟩

theorem Guard.alwaysSkips_eq_false {directives others : List Directive}
    (h : List.Forall₂ (Directive.Settles name b) directives others)
    (hkept : (ofDirectives others).alwaysSkips = false) :
    (ofDirectives directives).alwaysSkips = false := by
  rw [← Bool.not_eq_true] at hkept ⊢
  exact mt (alwaysSkips_ofDirectives h) hkept

end GraphQL

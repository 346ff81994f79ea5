import GraphQL.Collection

/-!
# Walks through selections

A walk changes its state in two ways only: it adds a field to its group and it notes a fragment as
spread. What both keep, a whole walk keeps (`walkTo_induction`).

Results:
* `nodup_keys_collect`: every response key is collected once.
* `responseKey_of_find?_collect`: fields are collected under their response key.
-/

namespace GraphQL

namespace Collection

variable {scope : Scope} {enter : List Selection → State → State} {P : State → Prop}

mutual

/-- What adding a field, noting a spread and entering a fragment keep, a visit keeps. -/
theorem visit_induction
    (field : ∀ state field, P state → P { state with fields := addField state.fields field })
    (spread : ∀ state name, P state → P { state with spread := name :: state.spread })
    (entered : ∀ selections state, P state → P (enter selections state)) :
    ∀ (selection : Selection) (state : State), P state → P (visit scope enter selection state)
  | .field selected, state, h => by
    rw [visit]
    split
    · exact h
    · exact field state selected h
  | .inlineFragment condition guard below, state, h => by
    rw [visit]
    split
    · exact h
    · exact walk_induction field spread entered below state h
  | .spread name guard, state, h => by
    rw [visit]
    split
    · exact h
    · have hseen := spread state name h
      dsimp only
      split
      · exact hseen
      · split
        · exact entered _ _ hseen
        · exact hseen

/-- The same of a walk. -/
theorem walk_induction
    (field : ∀ state field, P state → P { state with fields := addField state.fields field })
    (spread : ∀ state name, P state → P { state with spread := name :: state.spread })
    (entered : ∀ selections state, P state → P (enter selections state)) :
    ∀ (selections : List Selection) (state : State), P state → P (walk scope enter selections state)
  | [], _, h => h
  | selection :: rest, state, h =>
    walk_induction field spread entered rest _
      (visit_induction field spread entered selection state h)

end

/-- What adding a field and noting a spread keep, a walk with spreads keeps. -/
theorem walkTo_induction
    (field : ∀ state field, P state → P { state with fields := addField state.fields field })
    (spread : ∀ state name, P state → P { state with spread := name :: state.spread })
    (depth : Nat) (selections : List Selection) (state : State) (h : P state) :
    P (walkTo scope depth selections state) := by
  induction depth generalizing selections state with
  | zero => exact walk_induction field spread (fun _ _ h => h) selections state h
  | succ depth ih => exact walk_induction field spread ih selections state h

theorem nodup_keys_addField {fields : CollectedFields} (h : (Entries.keys fields).Nodup)
    (field : Field) : (Entries.keys (addField fields field)).Nodup :=
  Entries.nodup_keys_put h _ _

theorem find?_addField {fields : CollectedFields} {field : Field} {key : String}
    {collected : CollectedField}
    (h : ∀ key collected, Entries.find? fields key = some collected →
      collected.field.responseKey = key)
    (hcollected : Entries.find? (addField fields field) key = some collected) :
    collected.field.responseKey = key := by
  rw [addField, Entries.find?_put] at hcollected
  split at hcollected
  · next hkey =>
    cases hcollected
    cases hknown : Entries.find? fields field.responseKey with
    | none => exact hkey.symm
    | some known => exact (h _ known hknown).trans hkey.symm
  · exact h key collected hcollected

end Collection

open Collection

/-- Every response key is collected once. -/
theorem nodup_keys_collect (scope : Scope) (selections : List Selection) :
    (Entries.keys (collect scope selections)).Nodup :=
  walkTo_induction (P := fun state => (Entries.keys state.fields).Nodup)
    (fun _ field h => nodup_keys_addField h field) (fun _ _ h => h) _ _ _ List.nodup_nil

/-- Fields are collected under their response key. -/
theorem responseKey_of_find?_collect {scope : Scope} {selections : List Selection} {key : String}
    {collected : CollectedField}
    (h : Entries.find? (collect scope selections) key = some collected) :
    collected.field.responseKey = key :=
  walkTo_induction (P := fun state => ∀ key collected,
      Entries.find? state.fields key = some collected → collected.field.responseKey = key)
    (fun _ _ h _ _ hcollected => find?_addField h hcollected) (fun _ _ h => h) _ _ _
    (by simp) key collected h

end GraphQL

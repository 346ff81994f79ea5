import GraphQL.Proofs.Collection
import GraphQL.Proofs.Echoes
import Mathlib.Data.List.Forall2

/-!
# Grouped fields

Collecting amounts to two things: the fields that a selection set reaches, and the groups that they
form by response key. `Collection.group` is the second one: the keys in the order in which they
first come, and under each key the first field and the selections of all. `Collection.reached` is
the first one for selections without fragments to enter; `collect_eq_group` says that collecting
them groups what they reach.

Results:
* `keys_group`, `find?_group`: the keys of groups, and the group under a key.
* `Entries.forall₂_of_find?`: entries with the same keys are related if those under each key are.
-/

namespace GraphQL

/-- Entries with the same names are related one by one if those under each name are. -/
theorem Entries.forall₂_of_find? {α β : Type} {R : α → β → Prop} {xs : Entries α} {ys : Entries β}
    (hnodup : (keys xs).Nodup) (hkeys : keys ys = keys xs)
    (h : ∀ key a b, find? xs key = some a → find? ys key = some b → R a b) :
    List.Forall₂ (fun x y => y.1 = x.1 ∧ R x.2 y.2) xs ys := by
  induction xs generalizing ys with
  | nil =>
    cases ys with
    | nil => exact .nil
    | cons y ys => cases hkeys
  | cons x xs ih =>
    cases ys with
    | nil => cases hkeys
    | cons y ys =>
      obtain ⟨key, a⟩ := x
      obtain ⟨key', b⟩ := y
      obtain ⟨rfl, htail⟩ := List.cons.inj hkeys
      obtain ⟨hnew, hnodup⟩ := List.nodup_cons.mp hnodup
      refine .cons ⟨rfl, h key' a b (by simp [find?_cons]) (by simp [find?_cons])⟩
        (ih hnodup htail fun key a b ha hb => ?_)
      have hne : key ≠ key' := fun he =>
        hnew (he ▸ List.mem_map.mpr ⟨_, mem_of_find? ha, rfl⟩)
      exact h key a b (by simpa [find?_cons, hne] using ha) (by simpa [find?_cons, hne] using hb)

namespace Selection

/-- Induction over a selection and the selections in it. -/
theorem induction {P : Selection → Prop}
    (field : ∀ field : Field, (∀ selection ∈ field.selections, P selection) → P (.field field))
    (inlineFragment : ∀ condition guard below, (∀ selection ∈ below, P selection) →
      P (.inlineFragment condition guard below))
    (spread : ∀ name guard, P (.spread name guard)) : ∀ selection, P selection
  | .field ⟨aliasName, name, arguments, below, composite, guard, location⟩ =>
    field _ fun selection hm =>
      have : sizeOf selection < sizeOf below := List.sizeOf_lt_of_mem hm
      induction field inlineFragment spread selection
  | .inlineFragment condition guard below =>
    inlineFragment condition guard below fun selection hm =>
      have : sizeOf selection < sizeOf below := List.sizeOf_lt_of_mem hm
      induction field inlineFragment spread selection
  | .spread name guard => spread name guard

mutual

/-- The names of the fragments that a selection spreads, at any depth. -/
def spreads : Selection → List String
  | .field ⟨_, _, _, below, _, _, _⟩ => allSpreads below
  | .inlineFragment _ _ below => allSpreads below
  | .spread name _ => [name]

/-- The names of the fragments that selections spread, at any depth. -/
def allSpreads : List Selection → List String
  | [] => []
  | selection :: rest => spreads selection ++ allSpreads rest

end

theorem allSpreads_eq_flatMap (selections : List Selection) :
    allSpreads selections = selections.flatMap spreads := by
  induction selections with
  | nil => rfl
  | cons selection rest ih => rw [allSpreads, ih, List.flatMap_cons]

theorem mem_allSpreads {selections : List Selection} {name : String} :
    name ∈ allSpreads selections ↔ ∃ selection ∈ selections, name ∈ spreads selection := by
  rw [allSpreads_eq_flatMap, List.mem_flatMap]

end Selection

namespace Collection

/-- The groups of fields by response key. -/
def group (fields : List Field) : CollectedFields := fields.foldl addField []

theorem group_concat (fields : List Field) (field : Field) :
    group (fields ++ [field]) = addField (group fields) field := List.foldl_append

/-- The fields of one response key. -/
def underKey (key : String) (fields : List Field) : List Field :=
  fields.filter fun field => field.responseKey = key

theorem underKey_concat (key : String) (fields : List Field) (field : Field) :
    underKey key (fields ++ [field]) =
      if field.responseKey = key then underKey key fields ++ [field] else underKey key fields := by
  rw [underKey, List.filter_append]
  split <;> next h => simp [underKey, h]

/-- The keys are those of the fields, each at its first place. -/
theorem keys_group (fields : List Field) :
    Entries.keys (group fields) = (fields.map FieldSelection.responseKey).eraseDups := by
  induction fields using List.reverseRecOn with
  | nil => rfl
  | append_singleton fields field ih =>
    rw [group_concat, addField, Entries.keys_put, ih,
      List.map_append, List.map_singleton, eraseDups_concat]
    simp only [List.mem_eraseDups]

theorem nodup_keys_group (fields : List Field) : (Entries.keys (group fields)).Nodup := by
  induction fields using List.reverseRecOn with
  | nil => exact List.nodup_nil
  | append_singleton fields field ih =>
    rw [group_concat]
    exact nodup_keys_addField ih field

/-- Under a key stand its first field and the selections of all its fields. -/
theorem find?_group (fields : List Field) (key : String) :
    Entries.find? (group fields) key =
      (underKey key fields).head?.map fun first =>
        ⟨first, (underKey key fields).flatMap FieldSelection.selections⟩ := by
  induction fields using List.reverseRecOn with
  | nil => rfl
  | append_singleton fields field ih =>
    rw [group_concat, addField, Entries.find?_put,
      underKey_concat]
    by_cases hkey : key = field.responseKey
    · subst hkey
      rw [ih]
      cases underKey field.responseKey fields <;> simp
    · have hkey' : ¬ field.responseKey = key := fun h => hkey h.symm
      simp only [hkey, hkey', ite_false, ih]

/-! ## Fields that are reached -/

mutual

/-- The fields that a selection reaches without entering a named fragment, in order. -/
def reached (scope : Scope) : Selection → List Field
  | .field field => if field.guard.skipsWith scope.bindings then [] else [field]
  | .inlineFragment condition guard below =>
    if guard.skipsWith scope.bindings || !condition.all (applies scope.types scope.runtime) then []
    else reachedAll scope below
  | .spread _ _ => []

/-- The fields that selections reach without entering a named fragment, in order. -/
def reachedAll (scope : Scope) : List Selection → List Field
  | [] => []
  | selection :: rest => reached scope selection ++ reachedAll scope rest

end

variable {scope : Scope} {enter : List Selection → State → State}

theorem reachedAll_eq_flatMap (selections : List Selection) :
    reachedAll scope selections = selections.flatMap (reached scope) := by
  induction selections with
  | nil => rfl
  | cons selection rest ih => rw [reachedAll, ih, List.flatMap_cons]

/-- What is reached without entering fragments does not depend on them. -/
theorem reachedAll_fragments (fragments : Fragments) (selections : List Selection) :
    reachedAll { scope with fragments } selections = reachedAll scope selections := by
  have hone : ∀ selection, reached { scope with fragments } selection = reached scope selection := by
    intro selection
    induction selection using Selection.induction with
    | field field ih => rfl
    | inlineFragment condition guard below ih =>
      rw [reached, reached, reachedAll_eq_flatMap, reachedAll_eq_flatMap,
        List.flatMap_congr ih]
    | spread name guard => rfl
  rw [reachedAll_eq_flatMap, reachedAll_eq_flatMap, funext hone]

mutual

/-- A visit adds the fields that are reached if there is no fragment to enter. -/
theorem visit_fields : ∀ (selection : Selection) (state : State),
    (∀ name ∈ selection.spreads, Entries.find? scope.fragments name = none) →
    (visit scope enter selection state).fields =
      (reached scope selection).foldl addField state.fields
  | .field field, state, _ => by
    rw [visit, reached]
    split <;> rfl
  | .inlineFragment condition guard below, state, h => by
    rw [visit, reached]
    split
    · rfl
    · exact walk_fields below state h
  | .spread name guard, state, h => by
    rw [visit, reached, h name (List.mem_singleton_self name)]
    split <;> rfl

/-- The same of a walk. -/
theorem walk_fields : ∀ (selections : List Selection) (state : State),
    (∀ name ∈ Selection.allSpreads selections, Entries.find? scope.fragments name = none) →
    (walk scope enter selections state).fields =
      (reachedAll scope selections).foldl addField state.fields
  | [], _, _ => rfl
  | selection :: rest, state, h => by
    rw [walk, reachedAll, List.foldl_append,
      walk_fields rest _ fun name hm => h name (List.mem_append_right _ hm),
      visit_fields selection state fun name hm => h name (List.mem_append_left _ hm)]

end

/-- Without a fragment to enter, what is collected are the groups of the fields that are reached. -/
theorem collect_eq_group {selections : List Selection}
    (h : ∀ name ∈ Selection.allSpreads selections, Entries.find? scope.fragments name = none) :
    collect scope selections = group (reachedAll scope selections) := by
  rw [collect]
  cases scope.fragments.length with
  | zero => exact walk_fields selections {} h
  | succ depth => exact walk_fields selections {} h

end Collection

end GraphQL

import GraphQL.Proofs.Correspondence
import GraphQL.Proofs.Grouping

/-!
# Selections left out

Selections that the variables skip can be left out beforehand, and with them inline fragments that
hold nothing else. `Selection.PrunedAll` relates selections to what remains of them; the guards
of those that remain may be others as long as they skip the same. Whatever is pruned adds no field
and visits no fragment, so a walk does the same without it.

One thing can tell the difference: a field whose selections have all been left out is not taken for
one that selects something if the first field of its response key is without a selection set. It is
bared then (`CollectedField.Bared`).

Results:
* `walk_of_prunedAll_nil`: what is pruned has no effect.
* `walkTo_pruned`: a walk does the same without it.
* `corresponds_pruned`: the same fields are collected.
-/

namespace GraphQL

/-- Two guards that skip the same under all `known` variables. -/
def Guard.Agrees (known : Variables → Prop) (one other : Guard) : Prop :=
  ∀ bindings, known bindings → other.skipsWith bindings = one.skipsWith bindings

namespace Selection

variable {known : Variables → Prop}

mutual

/-- What remains of a selection that stays. -/
inductive Pruned (known : Variables → Prop) : Selection → Selection → Prop where
  | field (field : Field) {guard : Guard} {below : List Selection} :
    field.guard.Agrees known guard → PrunedAll known field.selections below →
    Pruned known (.field field) (.field { field with guard, selections := below })
  | inlineFragment (condition : Option String) {guard guard' : Guard}
      {below below' : List Selection} :
    guard.Agrees known guard' → PrunedAll known below below' →
    Pruned known (.inlineFragment condition guard below) (.inlineFragment condition guard' below')
  | spread (name : String) {guard guard' : Guard} :
    guard.Agrees known guard' → Pruned known (.spread name guard) (.spread name guard')

/-- What remains of selections, of which some are left out. -/
inductive PrunedAll (known : Variables → Prop) :
    List Selection → List Selection → Prop where
  | nil : PrunedAll known [] []
  | keep {one other : Selection} {rest others : List Selection} :
    Pruned known one other → PrunedAll known rest others →
    PrunedAll known (one :: rest) (other :: others)
  /-- A selection that is skipped. -/
  | skipped {selection : Selection} {rest others : List Selection} :
    (∀ bindings, known bindings → selection.guard.skipsWith bindings = true) →
    PrunedAll known rest others → PrunedAll known (selection :: rest) others
  /-- An inline fragment of which nothing remains. -/
  | emptied {condition : Option String} {guard : Guard} {below rest others : List Selection} :
    PrunedAll known below [] → PrunedAll known rest others →
    PrunedAll known (.inlineFragment condition guard below :: rest) others

end

theorem PrunedAll.append {ones others more more' : List Selection}
    (h : PrunedAll known ones others) (h' : PrunedAll known more more') :
    PrunedAll known (ones ++ more) (others ++ more') := by
  induction ones generalizing others with
  | nil => cases h; exact h'
  | cons one ones ih =>
    cases h with
    | keep hhead htail => exact .keep hhead (ih htail)
    | skipped hskips htail => exact .skipped hskips (ih htail)
    | emptied hbelow htail => exact .emptied hbelow (ih htail)

theorem PrunedAll.eq_nil {others : List Selection} (h : PrunedAll known [] others) :
    others = [] := by
  cases h
  rfl

end Selection

namespace Collection

variable {known : Variables → Prop} {scope : Scope} {others : Fragments}
  {enter enter' : List Selection → State → State}

open Selection (Pruned PrunedAll)

theorem visit_of_skips {selection : Selection}
    (h : selection.guard.skipsWith scope.bindings = true) (state : State) :
    visit scope enter selection state = state := by
  cases selection <;> simp_all [visit, Selection.guard]

/-- Selections of which nothing remains have no effect. -/
theorem walk_of_prunedAll_nil (hknown : known scope.bindings) :
    ∀ (selections : List Selection) (state : State), PrunedAll known selections [] →
      walk scope enter selections state = state
  | [], _, _ => rfl
  | .inlineFragment condition guard below :: rest, state, h => by
    rw [walk, visit]
    cases h with
    | skipped hskips hrest =>
      have hguard : guard.skipsWith scope.bindings = true := hskips _ hknown
      simp only [hguard, Bool.true_or, ite_true]
      exact walk_of_prunedAll_nil hknown rest state hrest
    | emptied hbelow hrest =>
      rw [walk_of_prunedAll_nil hknown below state hbelow, ite_self]
      exact walk_of_prunedAll_nil hknown rest state hrest
  | .field field :: rest, state, h => by
    cases h with
    | skipped hskips hrest =>
      rw [walk, visit_of_skips (hskips _ hknown)]
      exact walk_of_prunedAll_nil hknown rest state hrest
  | .spread name guard :: rest, state, h => by
    cases h with
    | skipped hskips hrest =>
      rw [walk, visit_of_skips (hskips _ hknown)]
      exact walk_of_prunedAll_nil hknown rest state hrest

/-- What a walk has seen with all selections and with those that remain. -/
structure Agree (known : Variables → Prop) (state other : State) : Prop where
  spread : other.spread = state.spread
  fields : ∃ ones others, state.fields = group ones ∧ other.fields = group others ∧
    List.Forall₂ (fun one other => Pruned known (.field one) (.field other)) ones others

/-- A field and what remains of it are added. -/
theorem Agree.add {state other : State} {field remaining : Field} (h : Agree known state other)
    (hfield : Pruned known (.field field) (.field remaining)) :
    Agree known { state with fields := addField state.fields field }
      { other with fields := addField other.fields remaining } := by
  obtain ⟨ones, others, hones, hothers, hsame⟩ := h.fields
  refine ⟨h.spread, ones ++ [field], others ++ [remaining], ?_, ?_, ?_⟩
  · rw [group_concat, hones]
  · rw [group_concat, hothers]
  · exact List.rel_append hsame (.cons hfield .nil)

/-- The fragments of which the same remains to be seen. -/
def PrunedFragments (known : Variables → Prop)
    (fragments others : Fragments) : Prop :=
  List.Forall₂ (fun one other => other.1 = one.1 ∧ other.2.condition = one.2.condition ∧
    PrunedAll known one.2.selections other.2.selections) fragments others

theorem PrunedFragments.find?_cases {fragments : Fragments}
    (h : PrunedFragments known fragments others) (name : String) :
    Entries.find? fragments name = none ∧ Entries.find? others name = none ∨
      ∃ one other, Entries.find? fragments name = some one ∧
        Entries.find? others name = some other ∧ other.condition = one.condition ∧
        PrunedAll known one.selections other.selections := by
  induction h with
  | nil => exact .inl ⟨rfl, rfl⟩
  | @cons one other _ _ hhead _ ih =>
    obtain ⟨key, one⟩ := one
    obtain ⟨_, other⟩ := other
    obtain ⟨rfl, hcondition, hselections⟩ := hhead
    rw [Entries.find?_cons, Entries.find?_cons]
    split
    · exact .inr ⟨one, other, rfl, rfl, hcondition, hselections⟩
    · exact ih

/-- Entering fragments does the same with what remains of them. -/
def EntersAlike (known : Variables → Prop)
    (enter enter' : List Selection → State → State) : Prop :=
  ∀ left right state other, PrunedAll known left right → Agree known state other →
    Agree known (enter left state) (enter' right other)

mutual

/-- A visit does the same with what remains of a selection. -/
theorem visit_pruned (hknown : known scope.bindings)
    (hfragments : PrunedFragments known scope.fragments others)
    (henter : EntersAlike known enter enter') :
    ∀ (left right : Selection) (state other : State), Pruned known left right →
      Agree known state other →
      Agree known (visit scope enter left state)
        (visit { scope with fragments := others } enter' right other)
  | .field field, _, state, other, .field _ hguard hbelow, h => by
    rw [visit, visit]
    show Agree known _ (if Guard.skipsWith _ scope.bindings then _ else _)
    rw [hguard _ hknown]
    split
    · exact h
    · exact h.add (.field field hguard hbelow)
  | .inlineFragment condition guard below, _, state, other, .inlineFragment _ hguard hbelow, h => by
    rw [visit, visit]
    show Agree known _
      (if Guard.skipsWith _ scope.bindings || !condition.all (applies scope.types scope.runtime) then
        _ else _)
    rw [hguard _ hknown]
    split
    · exact h
    · exact walk_pruned hknown hfragments henter below _ state other hbelow h
  | .spread name guard, _, state, other, .spread _ hguard, h => by
    rw [visit, visit]
    show Agree known _
      (if Guard.skipsWith _ scope.bindings || other.spread.contains name then _ else _)
    rw [hguard _ hknown, h.spread]
    split
    · exact h
    · have hnoted : Agree known { state with spread := name :: state.spread }
          { other with spread := name :: state.spread } := ⟨rfl, h.fields⟩
      rcases hfragments.find?_cases name with
        ⟨hone, hother⟩ | ⟨one, other, hone, hother, hcondition, hselections⟩
      · simp only [hone, hother]
        exact hnoted
      · simp only [hone, hother, hcondition]
        split
        · exact henter _ _ _ _ hselections hnoted
        · exact hnoted

/-- The same of a walk. -/
theorem walk_pruned (hknown : known scope.bindings)
    (hfragments : PrunedFragments known scope.fragments others)
    (henter : EntersAlike known enter enter') :
    ∀ (left right : List Selection) (state other : State), PrunedAll known left right →
      Agree known state other →
      Agree known (walk scope enter left state)
        (walk { scope with fragments := others } enter' right other)
  | [], _, _, _, .nil, h => h
  | selection :: rest, remaining :: more, state, other, .keep hhead htail, h =>
    walk_pruned hknown hfragments henter rest more _ _ htail
      (visit_pruned hknown hfragments henter selection remaining state other hhead h)
  | selection :: rest, right, state, other, .skipped hskips htail, h => by
    rw [walk, visit_of_skips (hskips _ hknown)]
    exact walk_pruned hknown hfragments henter rest right state other htail h
  | .inlineFragment condition guard below :: rest, right, state, other, .emptied hbelow htail, h => by
    rw [walk, visit, walk_of_prunedAll_nil hknown below state hbelow, ite_self]
    exact walk_pruned hknown hfragments henter rest right state other htail h

end

/-- A walk that enters fragments does the same with what remains. -/
theorem walkTo_pruned (hknown : known scope.bindings)
    (hfragments : PrunedFragments known scope.fragments others) (depth : Nat) :
    EntersAlike known (walkTo scope depth)
      (walkTo { scope with fragments := others } depth) := by
  induction depth with
  | zero =>
    intro left right state other h hagree
    exact walk_pruned hknown hfragments (fun _ _ _ _ _ hagree => hagree) left right state other h
      hagree
  | succ depth ih =>
    intro left right state other h hagree
    exact walk_pruned hknown hfragments ih left right state other h hagree

/-! ## Groups of what remains -/

/-- The fields of one key, and what remains of them. -/
theorem underKey_pruned {ones others : List Field}
    (h : List.Forall₂ (fun one other => Pruned known (.field one) (.field other)) ones others)
    (key : String) :
    List.Forall₂ (fun one other => Pruned known (.field one) (.field other))
      (underKey key ones) (underKey key others) := by
  induction h with
  | nil => exact .nil
  | @cons one other ones others hhead _ ih =>
    have hkey : other.responseKey = one.responseKey := by
      cases hhead
      rfl
    rw [underKey, underKey, List.filter_cons, List.filter_cons, hkey]
    split
    · exact .cons hhead ih
    · exact ih

theorem flatMap_selections_pruned {ones others : List Field}
    (h : List.Forall₂ (fun one other => Pruned known (.field one) (.field other)) ones others) :
    PrunedAll known (ones.flatMap FieldSelection.selections)
      (others.flatMap FieldSelection.selections) := by
  induction h with
  | nil => exact .nil
  | cons hhead _ ih =>
    rw [List.flatMap_cons, List.flatMap_cons]
    cases hhead with
    | field _ _ hbelow => exact hbelow.append ih

theorem Pruned.responseKeys_eq {ones others : List Field}
    (h : List.Forall₂ (fun one other => Pruned known (.field one) (.field other)) ones others) :
    others.map FieldSelection.responseKey = ones.map FieldSelection.responseKey := by
  induction h with
  | nil => rfl
  | cons hhead _ ih =>
    rw [List.map_cons, List.map_cons, ih]
    cases hhead
    rfl

/-- Selections and what remains of them collect the same. -/
theorem corresponds_pruned (hknown : known scope.bindings)
    (hfragments : PrunedFragments known scope.fragments others) :
    Corresponds scope { scope with fragments := others } (PrunedAll known) := by
  refine ⟨fun runtime left right h => ?_, PrunedAll.eq_nil⟩
  have hagree := @walkTo_pruned known { scope with runtime } others hknown hfragments
    scope.fragments.length left right {} {} h ⟨rfl, [], [], rfl, rfl, .nil⟩
  obtain ⟨ones, remaining, hones, hremaining, hsame⟩ := hagree.fields
  have hleft : collect { scope with runtime } left = group ones := hones
  have hright : collect { scope with fragments := others, runtime } right = group remaining := by
    rw [← hremaining, collect]
    show (walkTo _ (List.length others) right {}).fields = _
    rw [← hfragments.length_eq]
  rw [hleft, hright]
  refine Entries.forall₂_of_find? (nodup_keys_group ones) ?_ fun key one other hone hother => ?_
  · rw [keys_group, keys_group, Pruned.responseKeys_eq hsame]
  · have hunder := underKey_pruned hsame key
    have hbelow := flatMap_selections_pruned hunder
    rw [find?_group, Option.map_eq_some_iff] at hone hother
    obtain ⟨first, hfirst, rfl⟩ := hone
    obtain ⟨first', hfirst', rfl⟩ := hother
    have hhead : Pruned known (.field first) (.field first') := by
      generalize underKey key ones = fields at hunder hfirst
      generalize underKey key remaining = fields' at hunder hfirst'
      cases hunder with
      | nil => cases hfirst
      | cons hhead _ =>
        obtain rfl := Option.some.inj hfirst
        obtain rfl := Option.some.inj hfirst'
        exact hhead
    cases hhead with
    | field _ => exact ⟨rfl, rfl, rfl, rfl, rfl, hbelow⟩

end Collection

end GraphQL

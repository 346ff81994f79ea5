import GraphQL.Proofs.Grouping

/-!
# What selections list

`Collection.Lists` says which fields a selection set comes to when it is read from left to right:
fragments are entered where they stand, a named one at the first place where it is spread, and what
is skipped or meant for another type is passed over. The relation knows of no groups and of no bound
on the depth of spreads. Collecting the fields of a selection set amounts to grouping what it lists.

A fragment is entered once, so each spread that is entered leaves fewer fragments to enter
(`Fragments.unseen`). This is why the depth that `collect` allows suffices.

Results:
* `Collection.Lists.append`: what stands one behind the other is listed one behind the other.
* `Collection.walkTo_adds`: a walk adds what is listed if it may go as deep as fragments are left.
* `Collection.exists_lists`: what is collected are the groups of what is listed.
-/

namespace GraphQL

/-- How many of the fragments have not been seen. -/
def Fragments.unseen (fragments : Fragments) (seen : List String) : Nat :=
  (Entries.keys fragments).countP fun name => name ∉ seen

namespace Fragments

variable {fragments : Fragments} {seen noted : List String}

theorem countP_not_mem_le (h : seen ⊆ noted) (names : List String) :
    (names.countP fun name => name ∉ noted) ≤ names.countP fun name => name ∉ seen := by
  refine List.countP_mono_left fun name _ hnew => ?_
  rw [decide_eq_true_iff] at hnew ⊢
  exact fun hm => hnew (h hm)

theorem unseen_le (h : seen ⊆ noted) : fragments.unseen noted ≤ fragments.unseen seen :=
  countP_not_mem_le h _

/-- Seeing one more fragment leaves fewer. -/
theorem unseen_cons_lt {name : String} {fragment : Fragment}
    (hfind : Entries.find? fragments name = some fragment) (hnew : name ∉ seen) :
    fragments.unseen (name :: seen) < fragments.unseen seen := by
  have hm : name ∈ Entries.keys fragments := List.mem_map_of_mem (Entries.mem_of_find? hfind)
  obtain ⟨before, after, heq⟩ := List.append_of_mem hm
  have hbefore := countP_not_mem_le (List.subset_cons_self name seen) before
  have hafter := countP_not_mem_le (List.subset_cons_self name seen) after
  have hgone : decide (name ∉ name :: seen) = false := by simp
  have hleft : decide (name ∉ seen) = true := decide_eq_true hnew
  rw [unseen, unseen, heq, List.countP_append, List.countP_append, List.countP_cons,
    List.countP_cons, hgone, hleft]
  simp only [Bool.false_eq_true, ite_true, ite_false]
  omega

end Fragments

namespace Collection

/-- A selection that lists nothing, and the fragments that have been seen behind it. -/
inductive Passed (scope : Scope) (seen : List String) : Selection → List String → Prop
  /-- It is skipped. -/
  | skipped {selection : Selection} :
      selection.guard.skipsWith scope.bindings = true → Passed scope seen selection seen
  /-- It is meant for another type. -/
  | mismatched {condition : String} {guard : Guard} {below : List Selection} :
      applies scope.types scope.runtime condition = false →
      Passed scope seen (.inlineFragment (some condition) guard below) seen
  /-- The fragment has been seen before. -/
  | again {name : String} {guard : Guard} :
      name ∈ seen → Passed scope seen (.spread name guard) seen
  /-- The fragment does not exist or is meant for another type. -/
  | unusable {name : String} {guard : Guard} :
      guard.skipsWith scope.bindings = false → name ∉ seen →
      (∀ fragment, Entries.find? scope.fragments name = some fragment →
        applies scope.types scope.runtime fragment.condition = false) →
      Passed scope seen (.spread name guard) (name :: seen)

/-- Read from left to right, with the fragments `seen` before, the selections list the fields, and
    then those in the last argument have been seen. -/
inductive Lists (scope : Scope) :
    List String → List Selection → List Field → List String → Prop
  | nil {seen : List String} : Lists scope seen [] [] seen
  | passed {seen noted last : List String} {selection : Selection} {rest : List Selection}
      {fields : List Field} :
      Passed scope seen selection noted → Lists scope noted rest fields last →
      Lists scope seen (selection :: rest) fields last
  | field {seen last : List String} {field : Field} {rest : List Selection}
      {fields : List Field} :
      field.guard.skipsWith scope.bindings = false → Lists scope seen rest fields last →
      Lists scope seen (.field field :: rest) (field :: fields) last
  | inlineFragment {seen noted last : List String} {condition : Option String} {guard : Guard}
      {below rest : List Selection} {inner fields : List Field} :
      guard.skipsWith scope.bindings = false →
      (∀ type, condition = some type → applies scope.types scope.runtime type = true) →
      Lists scope seen below inner noted → Lists scope noted rest fields last →
      Lists scope seen (.inlineFragment condition guard below :: rest) (inner ++ fields) last
  /-- A named fragment is entered where it is spread for the first time. -/
  | spread {seen noted last : List String} {name : String} {guard : Guard} {fragment : Fragment}
      {rest : List Selection} {inner fields : List Field} :
      guard.skipsWith scope.bindings = false → name ∉ seen →
      Entries.find? scope.fragments name = some fragment →
      applies scope.types scope.runtime fragment.condition = true →
      Lists scope (name :: seen) fragment.selections inner noted →
      Lists scope noted rest fields last →
      Lists scope seen (.spread name guard :: rest) (inner ++ fields) last

variable {scope : Scope} {seen noted last : List String} {selections : List Selection}
  {fields : List Field}

theorem Passed.subset {selection : Selection} (h : Passed scope seen selection noted) :
    seen ⊆ noted := by
  cases h with
  | skipped | mismatched | again => exact List.Subset.refl seen
  | unusable => exact List.subset_cons_self _ seen

/-- What has been seen stays seen. -/
theorem Lists.subset (h : Lists scope seen selections fields last) : seen ⊆ last := by
  induction h with
  | nil => exact List.Subset.refl _
  | passed hpassed _ ih => exact List.Subset.trans hpassed.subset ih
  | field _ _ ih => exact ih
  | inlineFragment _ _ _ _ ihinner ih => exact List.Subset.trans ihinner ih
  | spread _ _ _ _ _ _ ihinner ih =>
    exact List.Subset.trans (List.subset_cons_self _ _) (List.Subset.trans ihinner ih)

/-- What stands one behind the other is listed one behind the other. -/
theorem Lists.append {after : List Selection} {more : List Field}
    (h : Lists scope seen selections fields noted) (hafter : Lists scope noted after more last) :
    Lists scope seen (selections ++ after) (fields ++ more) last := by
  induction h with
  | nil => exact hafter
  | passed hpassed _ ih => exact .passed hpassed (ih hafter)
  | field hguard _ ih => exact .field hguard (ih hafter)
  | inlineFragment hguard happlies hinner _ _ ih =>
    rw [List.append_assoc]
    exact .inlineFragment hguard happlies hinner (ih hafter)
  | spread hguard hnew hfind happlies hinner _ _ ih =>
    rw [List.append_assoc]
    exact .spread hguard hnew hfind happlies hinner (ih hafter)

/-! ## Walks -/

/-- From one state to the other, what the selections list has been added. -/
def Adds (scope : Scope) (selections : List Selection) (state next : State) : Prop :=
  ∃ fields, Lists scope state.spread selections fields next.spread ∧
    next.fields = fields.foldl addField state.fields

theorem Adds.nil (state : State) : Adds scope [] state state := ⟨[], .nil, rfl⟩

theorem Adds.passed {selection : Selection} {state : State}
    (h : Passed scope state.spread selection noted) :
    Adds scope [selection] state { state with spread := noted } :=
  ⟨[], .passed h .nil, rfl⟩

theorem Adds.append {before after : List Selection} {state next final : State}
    (h : Adds scope before state next) (hafter : Adds scope after next final) :
    Adds scope (before ++ after) state final := by
  obtain ⟨fields, hlists, hfields⟩ := h
  obtain ⟨more, hmore, hfinal⟩ := hafter
  refine ⟨fields ++ more, hlists.append hmore, ?_⟩
  rw [hfinal, hfields, List.foldl_append]

theorem Adds.subset {state next : State} (h : Adds scope selections state next) :
    state.spread ⊆ next.spread := by
  obtain ⟨fields, hlists, -⟩ := h
  exact hlists.subset

theorem visit_spread_adds {enter : List Selection → State → State} {limit : Nat}
    (henter : ∀ selections state, scope.fragments.unseen state.spread < limit →
      Adds scope selections state (enter selections state))
    (name : String) (guard : Guard) (state : State)
    (hlimit : scope.fragments.unseen state.spread ≤ limit) :
    Adds scope [.spread name guard] state (visit scope enter (.spread name guard) state) := by
  rw [visit]
  cases hguard : guard.skipsWith scope.bindings with
  | true => exact .passed (.skipped hguard)
  | false =>
    by_cases hknown : name ∈ state.spread
    · simp only [List.contains_eq_mem, hknown, decide_true, Bool.or_true, ite_true]
      exact .passed (.again hknown)
    · simp only [List.contains_eq_mem, hknown, decide_false, Bool.or_false, Bool.false_eq_true,
        ite_false]
      cases hfind : Entries.find? scope.fragments name with
      | none =>
        refine Adds.passed (.unusable hguard hknown fun fragment hsome => ?_)
        rw [hfind] at hsome
        cases hsome
      | some fragment =>
        dsimp only
        cases happlies : applies scope.types scope.runtime fragment.condition with
        | false =>
          refine Adds.passed (.unusable hguard hknown fun other hsome => ?_)
          obtain rfl : fragment = other := Option.some.inj (hfind.symm.trans hsome)
          exact happlies
        | true =>
          have hfewer : scope.fragments.unseen (name :: state.spread) < limit :=
            Nat.lt_of_lt_of_le (Fragments.unseen_cons_lt hfind hknown) hlimit
          obtain ⟨inner, hinner, hfields⟩ := henter fragment.selections
            { state with spread := name :: state.spread } hfewer
          refine ⟨inner ++ [], .spread hguard hknown hfind happlies hinner .nil, ?_⟩
          rw [List.append_nil]
          exact hfields

mutual

/-- A visit adds what the selection lists, if what is entered adds what it lists. -/
theorem visit_adds {enter : List Selection → State → State} {limit : Nat}
    (henter : ∀ selections state, scope.fragments.unseen state.spread < limit →
      Adds scope selections state (enter selections state)) :
    ∀ (selection : Selection) (state : State), scope.fragments.unseen state.spread ≤ limit →
      Adds scope [selection] state (visit scope enter selection state)
  | .field field, state, _ => by
    rw [visit]
    cases hguard : field.guard.skipsWith scope.bindings with
    | true => exact .passed (.skipped hguard)
    | false => exact ⟨[field], .field hguard .nil, rfl⟩
  | .inlineFragment condition guard below, state, hlimit => by
    rw [visit]
    cases hguard : guard.skipsWith scope.bindings with
    | true => exact .passed (.skipped hguard)
    | false =>
      cases happlies : condition.all (applies scope.types scope.runtime) with
      | true =>
        obtain ⟨inner, hinner, hfields⟩ := walk_adds henter below state hlimit
        refine ⟨inner ++ [], .inlineFragment hguard (fun type htype => ?_) hinner .nil, ?_⟩
        · rw [htype] at happlies
          exact happlies
        · rw [List.append_nil]
          exact hfields
      | false =>
        cases condition with
        | none => cases happlies
        | some type => exact .passed (.mismatched happlies)
  | .spread name guard, state, hlimit => visit_spread_adds henter name guard state hlimit

/-- The same of a walk. -/
theorem walk_adds {enter : List Selection → State → State} {limit : Nat}
    (henter : ∀ selections state, scope.fragments.unseen state.spread < limit →
      Adds scope selections state (enter selections state)) :
    ∀ (selections : List Selection) (state : State),
      scope.fragments.unseen state.spread ≤ limit →
      Adds scope selections state (walk scope enter selections state)
  | [], state, _ => .nil state
  | selection :: rest, state, hlimit => by
    have hfirst := visit_adds henter selection state hlimit
    exact hfirst.append
      (walk_adds henter rest _ (Nat.le_trans (Fragments.unseen_le hfirst.subset) hlimit))

end

/-- A walk that may go as deep as fragments are left adds what the selections list. -/
theorem walkTo_adds (depth : Nat) (selections : List Selection) (state : State)
    (h : scope.fragments.unseen state.spread ≤ depth) :
    Adds scope selections state (walkTo scope depth selections state) := by
  induction depth generalizing selections state with
  | zero => exact walk_adds (fun _ _ hlt => absurd hlt (Nat.not_lt_zero _)) selections state h
  | succ depth ih =>
    exact walk_adds (fun selections state hlt => ih selections state (Nat.le_of_lt_succ hlt))
      selections state h

/-- What is collected are the groups of what is listed. -/
theorem exists_lists (scope : Scope) (selections : List Selection) :
    ∃ fields last, Lists scope [] selections fields last ∧
      collect scope selections = group fields := by
  have hdepth : scope.fragments.unseen [] ≤ scope.fragments.length := by
    have hlength : (Entries.keys scope.fragments).length = scope.fragments.length :=
      List.length_map _
    rw [← hlength]
    exact List.countP_le_length
  obtain ⟨fields, hlists, hfields⟩ := walkTo_adds scope.fragments.length selections {} hdepth
  exact ⟨fields, _, hlists, hfields⟩

end Collection

end GraphQL

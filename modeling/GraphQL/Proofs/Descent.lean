import GraphQL.Proofs.Inlining
import Mathlib.Data.Finset.Card

/-!
# From one level of a response to the next

Each object of a response collects its fields anew, and each collection may enter every fragment
once. So fragments that spread themselves side by side do no harm, but one that leads back to itself
from below a field is entered on every level. Where no fragment does so (`Fragments.Grounded`), what
is selected gets less from level to level: either the fragments that can still be entered are of a
lower rank, or the same ones stand in smaller selections (`Selection.Within`).

Results:
* `exists_reaches_of_mem_collect`: collected selections stand below fields that a walk reaches.
* `Fragments.Grounded.exists_ranks`: fragments can be ranked such that ranks fall below fields.
* `Collection.Reaches.within`: below the fields of one level, selections are within a smaller bound.
-/

namespace GraphQL

/-! ## Fragments that are spread below fields -/

namespace Selection

mutual

/-- The names of the fragments that a selection spreads below a field. -/
def nestedSpreads : Selection → List String
  | .field ⟨_, _, _, below, _, _, _⟩ => allSpreads below
  | .inlineFragment _ _ below => allNestedSpreads below
  | .spread _ _ => []

/-- The names of the fragments that selections spread below a field. -/
def allNestedSpreads : List Selection → List String
  | [] => []
  | selection :: rest => nestedSpreads selection ++ allNestedSpreads rest

end

theorem mem_allNestedSpreads {selections : List Selection} {name : String} :
    name ∈ allNestedSpreads selections ↔
      ∃ selection ∈ selections, name ∈ nestedSpreads selection := by
  induction selections with
  | nil => simp [allNestedSpreads]
  | cons selection rest ih => simp [allNestedSpreads, ih]

end Selection

namespace Fragments

variable {fragments : Fragments}

/-- No fragment leads back to itself from below a field. -/
def Grounded (fragments : Fragments) : Prop :=
  ∀ name fragment, Entries.find? fragments name = some fragment →
    ∀ other ∈ Selection.allNestedSpreads fragment.selections,
      ¬ Relation.ReflTransGen fragments.Refers other name

/-- Ranks do not rise where a fragment is spread, and fall where that is below a field. -/
structure Ranks (fragments : Fragments) (rank : String → Nat) : Prop where
  le {name : String} {fragment : Fragment} :
    Entries.find? fragments name = some fragment →
    ∀ other ∈ Selection.allSpreads fragment.selections, rank other ≤ rank name
  lt {name : String} {fragment : Fragment} :
    Entries.find? fragments name = some fragment →
    ∀ other ∈ Selection.allNestedSpreads fragment.selections, rank other < rank name

end Fragments

theorem Selection.nestedSpreads_subset_spreads (selection : Selection) :
    selection.nestedSpreads ⊆ selection.spreads := by
  induction selection using Selection.induction with
  | field field ih => exact List.Subset.refl _
  | inlineFragment condition guard below ih =>
    intro name hname
    obtain ⟨selection, hm, hname⟩ := mem_allNestedSpreads.mp hname
    exact mem_allSpreads.mpr ⟨selection, hm, ih selection hm hname⟩
  | spread name guard => exact List.nil_subset _

theorem Selection.allNestedSpreads_subset (selections : List Selection) :
    allNestedSpreads selections ⊆ allSpreads selections := by
  intro name hname
  obtain ⟨selection, hm, hname⟩ := mem_allNestedSpreads.mp hname
  exact mem_allSpreads.mpr ⟨selection, hm, nestedSpreads_subset_spreads selection hname⟩

namespace Fragments

variable {fragments : Fragments}

/-- The number of fragments to which a fragment leads is a rank. -/
theorem Grounded.exists_ranks (h : fragments.Grounded) : ∃ rank, fragments.Ranks rank := by
  classical
  let reached : String → Finset String := fun name =>
    (Entries.keys fragments).toFinset.filter (Relation.ReflTransGen fragments.Refers name)
  have hsubset : ∀ name other, fragments.Refers name other → reached other ⊆ reached name := by
    intro name other hrefers last hlast
    rw [Finset.mem_filter] at hlast ⊢
    exact ⟨hlast.1, hlast.2.head hrefers⟩
  refine ⟨fun name => (reached name).card, ?_, ?_⟩
  · intro name fragment hfind other hm
    exact Finset.card_le_card (hsubset name other ⟨fragment, hfind, hm⟩)
  · intro name fragment hfind other hm
    have hrefers : fragments.Refers name other :=
      ⟨fragment, hfind, Selection.allNestedSpreads_subset _ hm⟩
    have hkey : name ∈ (Entries.keys fragments).toFinset :=
      List.mem_toFinset.mpr (List.mem_map_of_mem (Entries.mem_of_find? hfind))
    refine Finset.card_lt_card ((Finset.ssubset_iff_of_subset (hsubset name other hrefers)).mpr
      ⟨name, Finset.mem_filter.mpr ⟨hkey, .refl⟩, fun hback => ?_⟩)
    exact h name fragment hfind other hm (Finset.mem_filter.mp hback).2

end Fragments

/-! ## Fields that a walk may reach -/

namespace Collection

/-- A walk through the selections may reach the field, through fragments that are spread too. -/
inductive Reaches (fragments : Fragments) : List Selection → Field → Prop
  | field {selections : List Selection} {field : Field} :
    .field field ∈ selections → Reaches fragments selections field
  | inlineFragment {selections below : List Selection} {condition : Option String} {guard : Guard}
      {field : Field} :
    .inlineFragment condition guard below ∈ selections → Reaches fragments below field →
    Reaches fragments selections field
  | spread {selections : List Selection} {name : String} {guard : Guard} {fragment : Fragment}
      {field : Field} :
    .spread name guard ∈ selections → Entries.find? fragments name = some fragment →
    Reaches fragments fragment.selections field → Reaches fragments selections field

theorem Reaches.subset {fragments : Fragments} {selections others : List Selection} {field : Field}
    (h : Reaches fragments selections field) (hsubset : selections ⊆ others) :
    Reaches fragments others field := by
  cases h with
  | field hm => exact .field (hsubset hm)
  | inlineFragment hm hbelow => exact .inlineFragment (hsubset hm) hbelow
  | spread hm hfind hfragment => exact .spread (hsubset hm) hfind hfragment

/-- All that has been collected so far has the property. -/
def State.All (P : Selection → Prop) (state : State) : Prop :=
  ∀ entry ∈ state.fields, ∀ selection ∈ entry.2.selections, P selection

/-- All that stands below the fields that a walk may reach has the property. -/
def AllBelow (P : Selection → Prop) (fragments : Fragments) (selections : List Selection) : Prop :=
  ∀ field, Reaches fragments selections field → ∀ selection ∈ field.selections, P selection

variable {scope : Scope} {enter : List Selection → State → State} {P : Selection → Prop}
  {state : State}

theorem State.All.addField (h : state.All P) {field : Field}
    (hfield : ∀ selection ∈ field.selections, P selection) :
    State.All P { state with fields := Collection.addField state.fields field } := by
  intro entry hentry selection hm
  rcases Entries.mem_of_mem_put hentry with rfl | hentry
  · rcases List.mem_append.mp hm with hm | hm
    · cases hfind : Entries.find? state.fields field.responseKey with
      | none =>
        rw [hfind] at hm
        cases hm
      | some known =>
        rw [hfind] at hm
        exact h _ (Entries.mem_of_find? hfind) selection hm
    · exact hfield selection hm
  · exact h entry hentry selection hm

mutual

/-- What holds below all fields that may be reached, a visit keeps. -/
theorem visit_all (henter : ∀ selections state, state.All P →
      AllBelow P scope.fragments selections → (enter selections state).All P) :
    ∀ (selection : Selection) (state : State), state.All P →
      AllBelow P scope.fragments [selection] → (visit scope enter selection state).All P
  | .field field, state, h, hbelow => by
    rw [visit]
    split
    · exact h
    · exact h.addField (hbelow field (.field List.mem_cons_self))
  | .inlineFragment condition guard below, state, h, hbelow => by
    rw [visit]
    split
    · exact h
    · exact walk_all henter below state h fun field hfield =>
        hbelow field (.inlineFragment List.mem_cons_self hfield)
  | .spread name guard, state, h, hbelow => by
    rw [visit]
    split
    · exact h
    · dsimp only
      split
      · exact h
      · next fragment hfind =>
        split
        · exact henter _ _ h fun field hfield =>
            hbelow field (.spread List.mem_cons_self hfind hfield)
        · exact h

/-- The same of a walk. -/
theorem walk_all (henter : ∀ selections state, state.All P →
      AllBelow P scope.fragments selections → (enter selections state).All P) :
    ∀ (selections : List Selection) (state : State), state.All P →
      AllBelow P scope.fragments selections → (walk scope enter selections state).All P
  | [], _, h, _ => h
  | selection :: rest, state, h, hbelow =>
    walk_all henter rest _
      (visit_all henter selection state h fun field hfield =>
        hbelow field (hfield.subset (by simp)))
      fun field hfield => hbelow field (hfield.subset (List.subset_cons_self _ _))

end

theorem walkTo_all (depth : Nat) (selections : List Selection) (state : State) (h : state.All P)
    (hbelow : AllBelow P scope.fragments selections) :
    (walkTo scope depth selections state).All P := by
  induction depth generalizing selections state with
  | zero => exact walk_all (fun _ _ h _ => h) selections state h hbelow
  | succ depth ih => exact walk_all ih selections state h hbelow

/-- Selections that are collected stand below a field that may be reached. -/
theorem exists_reaches_of_mem_collect {selections : List Selection}
    {entry : String × CollectedField} (h : entry ∈ collect scope selections) {selection : Selection}
    (hm : selection ∈ entry.2.selections) :
    ∃ field, Reaches scope.fragments selections field ∧ selection ∈ field.selections := by
  have hall : State.All
      (fun selection => ∃ field, Reaches scope.fragments selections field ∧
        selection ∈ field.selections)
      (walkTo scope scope.fragments.length selections {}) :=
    walkTo_all _ selections {} (fun _ hnone => nomatch hnone)
      fun field hfield _ hbelow => ⟨field, hfield, hbelow⟩
  exact hall entry h selection hm

end Collection

/-! ## Descending -/

/-- A selection within a bound spreads fragments below the rank only, and is smaller than `size`
    unless the ranks are even lower. -/
def Selection.Within (rank : String → Nat) (limit size : Nat) (selection : Selection) : Prop :=
  (∃ less < limit, ∀ name ∈ selection.spreads, rank name < less) ∨
    (∀ name ∈ selection.spreads, rank name < limit) ∧ sizeOf selection < size

namespace Selection.Within

variable {rank : String → Nat} {limit size : Nat} {selection : Selection}

theorem rank_lt (h : selection.Within rank limit size) :
    ∀ name ∈ selection.spreads, rank name < limit := by
  rcases h with ⟨less, hless, h⟩ | ⟨h, -⟩
  · exact fun name hm => Nat.lt_trans (h name hm) hless
  · exact h

/-- What stands in a selection is within a smaller bound. -/
theorem inside {inner : Selection} (h : selection.Within rank limit (size + 1))
    (hspreads : inner.spreads ⊆ selection.spreads) (hsize : sizeOf inner < sizeOf selection) :
    inner.Within rank limit size := by
  rcases h with ⟨less, hless, h⟩ | ⟨h, hle⟩
  · exact .inl ⟨less, hless, fun name hm => h name (hspreads hm)⟩
  · exact .inr ⟨fun name hm => h name (hspreads hm), by omega⟩

theorem mono {more : Nat} (h : selection.Within rank limit size) (hle : size ≤ more) :
    selection.Within rank limit more :=
  h.imp_right fun ⟨hrank, hsize⟩ => ⟨hrank, Nat.lt_of_lt_of_le hsize hle⟩

end Selection.Within

namespace Selection

theorem mem_spreads_field {field : Field} {name : String} :
    name ∈ spreads (.field field) ↔ ∃ selection ∈ field.selections, name ∈ selection.spreads :=
  mem_allSpreads

theorem mem_nestedSpreads_field {field : Field} {name : String} :
    name ∈ nestedSpreads (.field field) ↔
      ∃ selection ∈ field.selections, name ∈ selection.spreads :=
  mem_allSpreads

theorem sizeOf_lt_field {field : Field} {selection : Selection} (h : selection ∈ field.selections) :
    sizeOf selection < sizeOf (Selection.field field) := by
  obtain ⟨_, _, _, below, _, _, _⟩ := field
  have hlist : sizeOf selection < sizeOf below := List.sizeOf_lt_of_mem h
  simp only [field.sizeOf_spec, FieldSelection.mk.sizeOf_spec]
  omega

theorem sizeOf_lt_inlineFragment {condition : Option String} {guard : Guard}
    {below : List Selection} {selection : Selection} (h : selection ∈ below) :
    sizeOf selection < sizeOf (Selection.inlineFragment condition guard below) := by
  have hlist := List.sizeOf_lt_of_mem h
  simp only [inlineFragment.sizeOf_spec]
  omega

end Selection

namespace Collection.Reaches

variable {fragments : Fragments} {rank : String → Nat} {limit size : Nat}
  {selections : List Selection} {field : Field}

/-- Ranks fall below the fields that may be reached. -/
theorem rank_lt (hranks : fragments.Ranks rank) (h : Reaches fragments selections field)
    (hspreads : ∀ name ∈ Selection.allSpreads selections, rank name ≤ limit)
    (hnested : ∀ name ∈ Selection.allNestedSpreads selections, rank name < limit) :
    ∀ selection ∈ field.selections, ∀ name ∈ selection.spreads, rank name < limit := by
  induction h with
  | field hm =>
    intro selection hbelow name hname
    exact hnested name (Selection.mem_allNestedSpreads.mpr
      ⟨_, hm, Selection.mem_nestedSpreads_field.mpr ⟨selection, hbelow, hname⟩⟩)
  | inlineFragment hm _ ih =>
    exact ih (fun name hname => hspreads name (Selection.mem_allSpreads.mpr ⟨_, hm, hname⟩))
      fun name hname => hnested name (Selection.mem_allNestedSpreads.mpr ⟨_, hm, hname⟩)
  | @spread _ name guard fragment _ hm hfind _ ih =>
    have hle : rank name ≤ limit :=
      hspreads name (Selection.mem_allSpreads.mpr ⟨_, hm, List.mem_singleton_self name⟩)
    exact ih (fun other hother => (hranks.le hfind other hother).trans hle)
      fun other hother => (hranks.lt hfind other hother).trans_le hle

/-- Below the fields of one level, selections are within a smaller bound. -/
theorem within (hranks : fragments.Ranks rank) (h : Reaches fragments selections field)
    (hwithin : ∀ selection ∈ selections, selection.Within rank limit (size + 1)) :
    ∀ selection ∈ field.selections, selection.Within rank limit size := by
  induction h with
  | field hm =>
    intro selection hbelow
    refine (hwithin _ hm).inside (fun name hname => ?_) (Selection.sizeOf_lt_field hbelow)
    exact Selection.mem_spreads_field.mpr ⟨selection, hbelow, hname⟩
  | inlineFragment hm _ ih =>
    refine ih fun selection hbelow => Selection.Within.mono ?_ (Nat.le_succ size)
    refine (hwithin _ hm).inside (fun name hname => ?_)
      (Selection.sizeOf_lt_inlineFragment hbelow)
    exact Selection.mem_allSpreads.mpr ⟨selection, hbelow, hname⟩
  | @spread _ name guard fragment _ hm hfind hfragment _ =>
    -- Whatever the sizes are, the fragment has a rank below the limit.
    have hlt : rank name < limit := (hwithin _ hm).rank_lt name (List.mem_singleton_self name)
    intro selection hbelow
    exact .inl ⟨rank name, hlt, hfragment.rank_lt hranks (hranks.le hfind) (hranks.lt hfind)
      selection hbelow⟩

end Collection.Reaches

end GraphQL

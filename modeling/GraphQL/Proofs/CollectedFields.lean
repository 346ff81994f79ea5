import GraphQL.Proofs.Listing
import GraphQL.Proofs.Service

/-!
# What collecting comes to

`collect` walks through selections with a state of groups and of fragments that have been spread.
What it comes to can be said without the walk. `Collection.Lists` lists the fields of a selection set
from left to right, and does so in one way only. `Collection.grouped` writes down the groups of a
list of fields: the keys in the order in which they first come, and with each key the first of its
fields and the selections of all of them, one behind the other.

Results:
* `Collection.Lists.unique`: selections list one list of fields.
* `Collection.group_eq_grouped`: adding fields one after the other makes up their groups.
* `Collection.Lists.eq_unconditioned`: for an object without a type, fragments with a type condition
  list nothing.
* `collected_fields`: what is collected are the groups of what is listed.
-/

namespace GraphQL

/-- Entries with distinct names are what is found under their names, in order. -/
theorem Entries.eq_filterMap_keys {α : Type} {entries : Entries α} (h : (keys entries).Nodup) :
    entries = (keys entries).filterMap fun key => (find? entries key).map fun a => (key, a) := by
  have hself : ∀ entry ∈ entries,
      ((find? entries entry.1).map fun a => (entry.1, a)) = some entry := by
    intro entry hm
    rw [find?_of_mem h hm, Option.map_some]
  calc entries = List.filterMap some entries := List.filterMap_some.symm
    _ = List.filterMap (fun entry => (find? entries entry.1).map fun a => (entry.1, a)) entries :=
      List.filterMap_congr fun entry hm => (hself entry hm).symm
    _ = (keys entries).filterMap fun key => (find? entries key).map fun a => (key, a) := by
      rw [keys, List.filterMap_map]
      rfl

mutual

/-- The fields that a selection holds and that are not skipped, fragments with a type condition and
    spreads aside. -/
def Selection.unconditioned (bindings : Variables) : Selection → List Field
  | .field selected => if selected.guard.skipsWith bindings then [] else [selected]
  | .inlineFragment none guard below =>
    if guard.skipsWith bindings then [] else Selection.allUnconditioned bindings below
  | .inlineFragment (some _) _ _ => []
  | .spread _ _ => []

/-- The fields that selections hold so, in order. -/
def Selection.allUnconditioned (bindings : Variables) : List Selection → List Field
  | [] => []
  | selection :: rest =>
    Selection.unconditioned bindings selection ++ Selection.allUnconditioned bindings rest

end

theorem Selection.unconditioned_of_skips {bindings : Variables} {selection : Selection}
    (h : selection.guard.skipsWith bindings = true) :
    selection.unconditioned bindings = [] := by
  cases selection with
  | field selected =>
    rw [unconditioned]
    exact if_pos h
  | inlineFragment condition guard below =>
    cases condition with
    | none =>
      rw [unconditioned]
      exact if_pos h
    | some type => rw [unconditioned]
  | spread name guard => rw [unconditioned]

namespace Collection

variable {scope : Scope} {seen noted last : List String} {selections : List Selection}
  {fields : List Field}

/-! ## One list of fields -/

/-- A fragment applies to an object that has its type, or a type that is listed under its type. -/
theorem applies_iff {types : Types} {runtime : Option String} {condition : String} :
    applies types runtime condition = true ↔
      ∃ name, runtime = some name ∧ (name = condition ∨
        ∃ members, Entries.find? types.implementers condition = some members ∧ name ∈ members) := by
  cases runtime with
  | none => simp [applies]
  | some name =>
    cases hfind : Entries.find? types.implementers condition with
    | none => simp [applies, Types.isSubtype, hfind]
    | some members => simp [applies, Types.isSubtype, hfind]

theorem Passed.skips_of_field {field : Field} (h : Passed scope seen (.field field) noted) :
    field.guard.skipsWith scope.bindings = true := by
  cases h with
  | skipped hskips => exact hskips

/-- An inline fragment that lists nothing is not entered. -/
theorem Passed.not_enters {condition : Option String} {guard : Guard} {below : List Selection}
    (h : Passed scope seen (.inlineFragment condition guard below) noted)
    (hguard : guard.skipsWith scope.bindings = false)
    (happlies : ∀ type, condition = some type →
      applies scope.types scope.runtime type = true) : False := by
  cases h with
  | skipped hskips => exact Bool.false_ne_true (hguard.symm.trans hskips)
  | mismatched hmismatch => exact Bool.false_ne_true (hmismatch.symm.trans (happlies _ rfl))

/-- A spread that lists nothing does not enter its fragment. -/
theorem Passed.not_spreads {name : String} {guard : Guard} {fragment : Fragment}
    (h : Passed scope seen (.spread name guard) noted)
    (hguard : guard.skipsWith scope.bindings = false) (hnew : name ∉ seen)
    (hfind : Entries.find? scope.fragments name = some fragment)
    (happlies : applies scope.types scope.runtime fragment.condition = true) : False := by
  cases h with
  | skipped hskips => exact Bool.false_ne_true (hguard.symm.trans hskips)
  | again hknown => exact hnew hknown
  | unusable _ _ hunusable =>
    exact Bool.false_ne_true ((hunusable fragment hfind).symm.trans happlies)

theorem Passed.unique {selection : Selection} {other : List String}
    (h : Passed scope seen selection noted) (h' : Passed scope seen selection other) :
    noted = other := by
  cases h with
  | skipped hskips =>
    cases h' with
    | skipped | mismatched | again => rfl
    | unusable hguard => exact absurd (hguard.symm.trans hskips) Bool.false_ne_true
  | mismatched _ => cases h' <;> rfl
  | again hknown =>
    cases h' with
    | skipped | again => rfl
    | unusable _ hnew => exact absurd hknown hnew
  | unusable hguard hnew =>
    cases h' with
    | skipped hskips => exact absurd (hguard.symm.trans hskips) Bool.false_ne_true
    | again hknown => exact absurd hknown hnew
    | unusable => rfl

/-- Selections list one list of fields, and leave the same fragments seen. -/
theorem Lists.unique {other : List Field} {final : List String}
    (h : Lists scope seen selections fields last)
    (h' : Lists scope seen selections other final) : other = fields ∧ final = last := by
  induction h generalizing other final with
  | nil =>
    cases h'
    exact ⟨rfl, rfl⟩
  | passed hpassed _ ih =>
    cases h' with
    | passed hpassed' hrest' =>
      obtain rfl := hpassed.unique hpassed'
      exact ih hrest'
    | field hguard _ =>
      exact absurd (hguard.symm.trans hpassed.skips_of_field) Bool.false_ne_true
    | inlineFragment hguard happlies _ _ => exact (hpassed.not_enters hguard happlies).elim
    | spread hguard hnew hfind happlies _ _ =>
      exact (hpassed.not_spreads hguard hnew hfind happlies).elim
  | field hguard _ ih =>
    cases h' with
    | passed hpassed' _ =>
      exact absurd (hguard.symm.trans hpassed'.skips_of_field) Bool.false_ne_true
    | field _ hrest' =>
      obtain ⟨rfl, rfl⟩ := ih hrest'
      exact ⟨rfl, rfl⟩
  | inlineFragment hguard happlies _ _ ihinner ih =>
    cases h' with
    | passed hpassed' _ => exact (hpassed'.not_enters hguard happlies).elim
    | inlineFragment _ _ hinner' hrest' =>
      obtain ⟨rfl, rfl⟩ := ihinner hinner'
      obtain ⟨rfl, rfl⟩ := ih hrest'
      exact ⟨rfl, rfl⟩
  | spread hguard hnew hfind happlies _ _ ihinner ih =>
    cases h' with
    | passed hpassed' _ => exact (hpassed'.not_spreads hguard hnew hfind happlies).elim
    | spread _ _ hfind' _ hinner' hrest' =>
      obtain rfl := Option.some.inj (hfind.symm.trans hfind')
      obtain ⟨rfl, rfl⟩ := ihinner hinner'
      obtain ⟨rfl, rfl⟩ := ih hrest'
      exact ⟨rfl, rfl⟩

theorem Passed.unconditioned {selection : Selection} (h : Passed scope seen selection noted) :
    selection.unconditioned scope.bindings = [] := by
  cases h with
  | skipped hskips => exact Selection.unconditioned_of_skips hskips
  | mismatched | again | unusable => rw [Selection.unconditioned]

/-- For an object without a type, what is listed stands outside fragments with a type condition. -/
theorem Lists.eq_unconditioned (hruntime : scope.runtime = none)
    (h : Lists scope seen selections fields last) :
    fields = Selection.allUnconditioned scope.bindings selections := by
  have hnot : ∀ condition, applies scope.types scope.runtime condition = false := by
    intro condition
    rw [hruntime, applies]
  induction h with
  | nil => rfl
  | passed hpassed _ ih =>
    have hnothing := hpassed.unconditioned
    rw [Selection.allUnconditioned, hnothing, List.nil_append, ih]
  | field hguard _ ih =>
    rw [Selection.allUnconditioned, ← ih, Selection.unconditioned, hguard]
    rfl
  | @inlineFragment _ _ _ condition _ _ _ _ _ hguard happlies _ _ ihinner ih =>
    cases condition with
    | some type => exact absurd ((hnot type).symm.trans (happlies type rfl)) Bool.false_ne_true
    | none =>
      rw [Selection.allUnconditioned, ← ih, Selection.unconditioned, hguard, ← ihinner]
      rfl
  | @spread _ _ _ _ _ fragment _ _ _ _ _ _ happlies _ _ _ _ =>
    exact absurd ((hnot fragment.condition).symm.trans happlies) Bool.false_ne_true

/-! ## Groups -/

/-- The groups of fields by response key: the keys in the order in which they first come, each with
    the first of its fields and the selections of all of them. -/
def grouped (fields : List Field) : CollectedFields :=
  (fields.map FieldSelection.responseKey).eraseDups.filterMap fun key =>
    (underKey key fields).head?.map fun first =>
      (key, ⟨first, (underKey key fields).flatMap FieldSelection.selections⟩)

/-- Adding fields one after the other makes up their groups. -/
theorem group_eq_grouped (fields : List Field) : group fields = grouped fields := by
  rw [Entries.eq_filterMap_keys (nodup_keys_group fields), keys_group, grouped]
  refine List.filterMap_congr fun key _ => ?_
  rw [find?_group, Option.map_map]
  rfl

/-- A walk that may go as deep as there are fragments comes to the groups of what is listed. -/
theorem walkTo_eq_grouped (h : Lists scope [] selections fields last) {depth : Nat}
    (hdepth : scope.fragments.length ≤ depth) :
    walkTo scope depth selections {} = ⟨last, grouped fields⟩ := by
  have hunseen : scope.fragments.unseen [] ≤ depth := by
    have hlength : (Entries.keys scope.fragments).length = scope.fragments.length :=
      List.length_map _
    have hcount : scope.fragments.unseen [] ≤ (Entries.keys scope.fragments).length :=
      List.countP_le_length
    omega
  obtain ⟨listed, hlists, hfields⟩ := walkTo_adds depth selections {} hunseen
  obtain ⟨rfl, hspread⟩ := h.unique hlists
  have hgroups : (walkTo scope depth selections {}).fields = grouped listed := by
    rw [hfields, ← group_eq_grouped]
    rfl
  rw [← hgroups, ← hspread]

end Collection

open Collection

/-- Collecting the fields of a selection set finishes, whatever its fragments spread. The selections
    list one list of fields, and what is collected are the groups of this list, one for each key. The
    depth to which spreads are followed does not matter if it is not less than the number of
    fragments. A fragment applies to objects of its type and of the types listed under it; so for an
    object without a type, nothing counts that stands in a fragment with a type condition. -/
theorem collected_fields (scope : Scope) (selections : List Selection) :
    ∃ listed seen, Lists scope [] selections listed seen ∧
      (∀ other noted, Lists scope [] selections other noted → other = listed ∧ noted = seen) ∧
      collect scope selections = grouped listed ∧
      (Entries.keys (collect scope selections)).Nodup ∧
      Entries.keys (collect scope selections) =
        (listed.map FieldSelection.responseKey).eraseDups ∧
      (∀ depth ≥ scope.fragments.length,
        walkTo scope depth selections {} = ⟨seen, grouped listed⟩) ∧
      (∀ condition, applies scope.types scope.runtime condition = true ↔
        ∃ name, scope.runtime = some name ∧ (name = condition ∨
          ∃ members, Entries.find? scope.types.implementers condition = some members ∧
            name ∈ members)) ∧
      (scope.runtime = none → listed = Selection.allUnconditioned scope.bindings selections) := by
  obtain ⟨listed, seen, hlists, hcollect⟩ := exists_lists scope selections
  refine ⟨listed, seen, hlists, ?_, hcollect.trans (group_eq_grouped listed), ?_, ?_, ?_, ?_, ?_⟩
  · intro other noted hother
    exact hlists.unique hother
  · rw [hcollect]
    exact nodup_keys_group listed
  · rw [hcollect]
    exact keys_group listed
  · intro depth hdepth
    exact walkTo_eq_grouped hlists hdepth
  · intro condition
    exact applies_iff
  · intro hruntime
    exact hlists.eq_unconditioned hruntime

namespace Sample

/-- The fragments `hull` and `deck`, which spread each other. -/
def deckFragments : Fragments :=
  [("hull", ⟨"Vessel", [select "name" [], .spread "deck" {}]⟩),
    ("deck", ⟨"Ship", [.spread "hull" {}, select "crew" [select "rank" []]]⟩)]

/-- Ships are vessels. -/
def deckScope (runtime : Option String) : Scope :=
  ⟨{ implementers := [("Vessel", ["Ship"])] }, deckFragments, [], runtime⟩

/-- Spreads `hull` twice and a fragment that does not exist, and asks for the crew once more. -/
def deckSelections : List Selection :=
  [.spread "hull" {}, .inlineFragment (some "Crew") {} [select "rank" []], .spread "sail" {},
    .inlineFragment none {} [select "crew" [select "name" []]], .spread "hull" {}]

end Sample

/-- The name and the crew of a ship are collected, the crew with the selections of both places.
    Without a type only the crew is left, with those of the second place. -/
theorem collected_fields_ship :
    (∃ listed seen, Lists (Sample.deckScope (some "Ship")) [] Sample.deckSelections listed seen ∧
      collect (Sample.deckScope (some "Ship")) Sample.deckSelections = grouped listed ∧
      (listed.map FieldSelection.responseKey).eraseDups = ["name", "crew"]) ∧
    (collect (Sample.deckScope (some "Ship")) Sample.deckSelections).map
      (fun entry => entry.2.selections.length) = [0, 2] ∧
    (collect (Sample.deckScope none) Sample.deckSelections).map
      (fun entry => (entry.1, entry.2.selections.length)) = [("crew", 1)] := by
  refine ⟨?_, by decide, by decide⟩
  obtain ⟨listed, seen, hlists, -, hcollect, -, hkeys, -⟩ :=
    collected_fields (Sample.deckScope (some "Ship")) Sample.deckSelections
  have hshown : Entries.keys (collect (Sample.deckScope (some "Ship")) Sample.deckSelections) =
      ["name", "crew"] := by decide
  exact ⟨listed, seen, hlists, hcollect, hkeys.symm.trans hshown⟩

end GraphQL

import Mathlib.Logic.Function.Iterate
import GraphQL.Proofs.Finishing
import GraphQL.Proofs.Record
import GraphQL.Proofs.Timeline
import GraphQL.Execution.Completion

/-!
# Lists of values and lists of nodes

A resolver may answer with a list in two ways: as one value that is a list, or as a list of nodes
whose items are resolved on their own. If all that the nodes hold is there already, both come to the
same, and so does anything in between (`Resolved.Unfolds`): a list within a list may be the one or
the other on every level. The type has to be a list where nodes stand, unless fields are selected; a
custom scalar that takes a list as a whole could tell the difference.

Results:
* `Window.run_done`: items that are there already are handed over at once.
* `Context.ofItems_leafOutcome`: the items of a list come to what the list comes to.
* `list_levels_agree`: turning levels of a list into nodes does not change what it completes to.
-/

namespace GraphQL

variable {ref : Type}

/-! ## Types of items -/

/-- The items of a list have the name of the list. -/
theorem TypeRef.innerName?_itemType (type : TypeRef) :
    (type.itemType?.getD type).innerName? = type.innerName? := by
  induction type with
  | nonNull inner ih =>
    rw [itemType?, innerName?, ← ih]
    cases inner.itemType? <;> rfl
  | _ => rfl

/-- Items have types in lists under non-null wrappers, of which there may be any number. -/
theorem TypeRef.isSome_itemType?_iff {type : TypeRef} :
    type.itemType?.isSome = true ↔ ∃ wrappers item, type = nonNull^[wrappers] (.list item) := by
  constructor
  · intro h
    induction type with
    | list item => exact ⟨0, item, rfl⟩
    | nonNull inner ih =>
      obtain ⟨wrappers, item, rfl⟩ := ih h
      exact ⟨wrappers + 1, item, (Function.iterate_succ_apply' nonNull wrappers _).symm⟩
    | _ => cases h
  · rintro ⟨wrappers, item, rfl⟩
    induction wrappers with
    | zero => rfl
    | succ wrappers ih => rwa [Function.iterate_succ_apply', itemType?]

/-- Lists are written item by item, whether they may be null or not. -/
theorem completeLeaf_list {types : Types} {type item : TypeRef} (h : type.itemType? = some item)
    (items : List Value) :
    completeLeaf types type (.list items) = .list (items.map (completeLeaf types item)) := by
  induction type with
  | list inner =>
    cases h
    rfl
  | nonNull inner ih => rw [completeLeaf_nonNull, ih h]
  | _ => cases h

/-! ## Windows -/

theorem Window.runFrom_done {α : Type} (values : List α) {handed : Nat} {slots : List Nat}
    (h : ∀ slot ∈ slots, slot = handed) :
    runFrom handed slots (values.map Job.done) = some ⟨values, handed, []⟩ := by
  induction values generalizing slots with
  | nil => rfl
  | cons value rest ih =>
    have hstart : slots.head?.getD handed = handed := by
      cases slots with
      | nil => rfl
      | cons slot others => exact h slot List.mem_cons_self
    have hslots : ∀ slot ∈ slots.drop 1 ++ [handed], slot = handed := by
      intro slot hm
      rcases List.mem_append.mp hm with hm | hm
      · exact h slot (List.mem_of_mem_drop hm)
      · exact List.mem_singleton.mp hm
    simp only [List.map_cons, runFrom, Job.done, hstart, Nat.max_self]
    rw [ih hslots]
    rfl

/-- What is there already is handed over at once. -/
theorem Window.run_done {α : Type} (width : Nat) (values : List α) :
    run width (values.map Job.done) = .done values := by
  funext start
  exact runFrom_done values fun slot hm => List.eq_of_mem_replicate hm

/-! ## Leaves -/

namespace Context

/-- What a leaf comes to. -/
def leafOutcome (context : Context ref) (type : TypeRef) (value : Value)
    (collected : CollectedField) (path : Path) : Outcome :=
  if collected.isComposite then
    let picked := Record.pick (context.scope none) value type.innerName? collected.selections path
    ⟨picked.value, picked.errors, false⟩
  else ⟨completeLeaf context.types type value, [], false⟩

variable {context : Context ref} {collected : CollectedField} {type : TypeRef} {path : Path}

theorem completeValue_leaf (bound : Nat) (value : Value) :
    context.completeValue (bound + 1) type (.leaf value) collected path =
      .done (context.leafOutcome type value collected path) := by
  rw [completeValue, leafOutcome]
  split <;> rfl

/-- The items of a list, each for itself, come to what the list comes to. -/
theorem ofItems_leafOutcome (h : collected.isComposite = true ∨ type.itemType?.isSome = true)
    (items : List Value) :
    Outcome.ofItems (items.zipIdx.map fun entry =>
      context.leafOutcome (type.itemType?.getD type) entry.1 collected
        (path.join (.index entry.2))) =
      context.leafOutcome type (.list items) collected path := by
  by_cases hcomposite : collected.isComposite = true
  · simp only [leafOutcome, hcomposite, ite_true, TypeRef.innerName?_itemType, Record.pick,
      Record.pickItems_eq_map, Outcome.ofItems, List.map_map, List.flatMap_map]
    rfl
  · obtain ⟨item, hitem⟩ := Option.isSome_iff_exists.mp (h.resolve_left hcomposite)
    have hvalues : items.zipIdx.map (completeLeaf context.types item ∘ Prod.fst) =
        items.map (completeLeaf context.types item) := by
      rw [← List.map_map, List.zipIdx_map_fst]
    simp only [leafOutcome, hcomposite, hitem, Option.getD_some, Outcome.ofItems, List.map_map,
      List.flatMap_map, completeLeaf_list hitem, ← hvalues]
    simp [Function.comp_def]

end Context

/-! ## Levels -/

/-- The value, with nodes in place of some of its levels of lists. `composite` tells whether fields
    are selected. -/
inductive Resolved.Unfolds (composite : Bool) : TypeRef → Value → Resolved ref → Prop
  | leaf {type : TypeRef} (value : Value) : Unfolds composite type value (.leaf value)
  /-- Each item has a label, a value and the way in which it is resolved. -/
  | list {type : TypeRef} (items : List (Option String × Value × Resolved ref)) :
    composite = true ∨ type.itemType?.isSome = true →
    (∀ item ∈ items, Unfolds composite (type.itemType?.getD type) item.2.1 item.2.2) →
    Unfolds composite type (.list (items.map fun item => item.2.1))
      (.list (items.map fun item => .ready item.1 item.2.2))

namespace Context

variable {context : Context ref} {collected : CollectedField}

/-- A list whose items come to what their values come to does so itself. -/
theorem completeValue_items {bound : Nat} {type : TypeRef} {path : Path}
    (hlist : collected.isComposite = true ∨ type.itemType?.isSome = true)
    (items : List (Option String × Value × Resolved ref))
    (h : ∀ item ∈ items, ∀ place,
      context.completeValue bound (type.itemType?.getD type) item.2.2 collected place =
        .done (context.leafOutcome (type.itemType?.getD type) item.2.1 collected place)) :
    context.completeValue (bound + 2) type (.list (items.map fun item => .ready item.1 item.2.2))
        collected path =
      .done (context.leafOutcome type (.list (items.map fun item => item.2.1)) collected path) := by
  have hjobs : ((items.map fun item => Node.ready item.1 item.2.2).zipIdx.map fun entry =>
      context.completeNode (bound + 1) (type.itemType?.getD type) entry.1 collected
        (path.join (.index entry.2))) =
      ((items.map fun item => item.2.1).zipIdx.map fun entry =>
        context.leafOutcome (type.itemType?.getD type) entry.1 collected
          (path.join (.index entry.2))).map Job.done := by
    simp only [List.zipIdx_map, List.map_map]
    refine List.map_congr_left fun entry hentry => ?_
    exact h _ (List.fst_mem_of_mem_zipIdx hentry) _
  show (Window.run _ (List.map _ _)).map Outcome.ofItems = _
  rw [hjobs, Window.run_done]
  exact congrArg Job.done (ofItems_leafOutcome hlist _)

/-- Whatever levels are nodes, the value comes to what the leaf comes to, at any path. -/
theorem completeValue_unfolds {type : TypeRef} {value : Value} {resolved : Resolved ref}
    (h : Resolved.Unfolds collected.isComposite type value resolved) :
    ∃ least, ∀ bound ≥ least, ∀ path,
      context.completeValue bound type resolved collected path =
        .done (context.leafOutcome type value collected path) := by
  induction h with
  | leaf value =>
    refine ⟨1, fun bound hbound path => ?_⟩
    obtain ⟨bound, rfl⟩ := Nat.exists_eq_add_of_le' hbound
    exact completeValue_leaf bound value
  | list items hlist _ ih =>
    obtain ⟨least, hleast⟩ := exists_bound_forall ih
    refine ⟨least + 2, fun bound hbound path => ?_⟩
    obtain ⟨bound, rfl⟩ := Nat.exists_eq_add_of_le' hbound
    exact completeValue_items hlist items (hleast (bound + least) (by omega))

end Context

open Context Resolved

/-- A list of nodes that hold values completes to what the list of the values completes to, if
    fields are selected or the type is a list; so does a value with nodes in place of any levels of
    lists where that is the case. -/
theorem list_levels_agree (context : Context ref) (collected : CollectedField) (path : Path) :
    (∀ type values,
      (collected.isComposite = true ∨
        ∃ wrappers item, type = TypeRef.nonNull^[wrappers] (.list item)) →
      ∃ outcome, ∀ bound ≥ 3,
        context.completeValue bound type (.list (values.map fun value => .ready none (.leaf value)))
          collected path = .done outcome ∧
        context.completeValue bound type (.leaf (.list values)) collected path = .done outcome) ∧
    ∀ type value resolved, Unfolds collected.isComposite type value resolved →
      ∃ outcome least, ∀ bound ≥ least,
        context.completeValue bound type resolved collected path = .done outcome ∧
        context.completeValue bound type (.leaf value) collected path = .done outcome := by
  constructor
  · intro type values hlist
    rw [← TypeRef.isSome_itemType?_iff] at hlist
    refine ⟨context.leafOutcome type (.list values) collected path, fun bound hbound => ?_⟩
    obtain ⟨bound, rfl⟩ := Nat.exists_eq_add_of_le' hbound
    let items : List (Option String × Value × Resolved ref) :=
      values.map fun value => (none, value, .leaf value)
    have hleaves : ∀ item ∈ items, ∀ place,
        context.completeValue (bound + 1) (type.itemType?.getD type) item.2.2 collected place =
          .done (context.leafOutcome (type.itemType?.getD type) item.2.1 collected place) := by
      intro item hitem place
      obtain ⟨value, -, rfl⟩ := List.mem_map.mp hitem
      exact completeValue_leaf bound value
    have hitems : context.completeValue (bound + 3) type _ collected path = .done _ :=
      completeValue_items hlist items hleaves
    simp only [items, List.map_map, Function.comp_def, List.map_id'] at hitems
    exact ⟨hitems, completeValue_leaf _ _⟩
  · intro type value resolved h
    obtain ⟨least, hleast⟩ := completeValue_unfolds h
    refine ⟨_, least + 1, fun bound hbound => ⟨hleast bound (by omega) path, ?_⟩⟩
    obtain ⟨bound, rfl⟩ := Nat.exists_eq_add_of_le' hbound
    exact completeValue_leaf _ _

namespace Sample

/-- Where the watches are kept; the officers on them are records. -/
def watchContext : Context Unit := ⟨fun _ => { name := "Officer" }, {}, [], [], 2⟩

/-- Two watches. The officer of the second one has no name. -/
def watches : List (Option String × Value × Resolved Unit) :=
  let naomi := Value.object [("name", .string "Naomi")]
  let first := [(none, naomi, .leaf naomi), (some "absent", .null, .leaf .null)]
  let second := Value.list [.object []]
  [(none, .list (first.map fun item => item.2.1),
      .list (first.map fun item => .ready item.1 item.2.2)),
    (some "dog", second, .leaf second)]

/-- The names are asked for. -/
def watchCollected : CollectedField :=
  ⟨⟨none, "watches", [], [], true, {}, ⟨1, 1⟩⟩,
    [.field ⟨none, "name", [], [], false, {}, ⟨2, 3⟩⟩]⟩

theorem unfolds_watches :
    Resolved.Unfolds true (.list (.list (.named "Officer")))
      (.list (watches.map fun item => item.2.1))
      (.list (watches.map fun item => .ready item.1 item.2.2)) := by
  refine .list watches (.inl rfl) fun watch hwatch => ?_
  simp only [watches, List.mem_cons, List.not_mem_nil, or_false] at hwatch
  rcases hwatch with rfl | rfl
  · refine .list _ (.inl rfl) fun item hitem => ?_
    simp only [List.mem_cons, List.not_mem_nil, or_false] at hitem
    rcases hitem with rfl | rfl
    · exact .leaf _
    · exact .leaf _
  · exact .leaf _

end Sample

/-- Nodes on the outer level and in the first watch, and a value for the second watch. -/
theorem list_levels_agree_watches :
    ∃ outcome least, ∀ bound ≥ least,
      Sample.watchContext.completeValue bound (.list (.list (.named "Officer")))
        (.list (Sample.watches.map fun item => .ready item.1 item.2.2)) Sample.watchCollected
        .root = .done outcome ∧
      outcome.value = .list [.list [.object [("name", .string "Naomi")], .null],
        .list [.object [("name", .null)]]] ∧
      outcome.errors = [(FieldError.unknownField "name" "Officer").report
        ⟨[.index 1, .index 0, .key "name"]⟩ ⟨2, 3⟩] := by
  obtain ⟨outcome, least, h⟩ :=
    (list_levels_agree Sample.watchContext Sample.watchCollected .root).2 _ _ _
      Sample.unfolds_watches
  have hleaf := (h (least + 1) (by omega)).2
  have heq : outcome = Sample.watchContext.leafOutcome (.list (.list (.named "Officer")))
      (.list (Sample.watches.map fun item => item.2.1)) Sample.watchCollected .root := by
    rw [completeValue_leaf] at hleaf
    exact (congrArg Timed.value (Option.some.inj (congrFun hleaf 0))).symm
  subst heq
  exact ⟨_, least, fun bound hbound => ⟨(h bound hbound).1, rfl, rfl⟩⟩

end GraphQL

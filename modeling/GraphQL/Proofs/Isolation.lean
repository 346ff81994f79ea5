import GraphQL.Proofs.Agreement
import GraphQL.Proofs.ErrorPaths
import GraphQL.Proofs.Tasks

/-!
# Isolation of siblings

A response is made of tasks (`Context.Comprises`). What it shows at a path is what the task there
comes to by itself (`Outcome.Shows`), its value and its errors in order, and that does not depend on
when the task is started, on what runs beside it or in how wide a window. So a field that fails takes
nothing else with it.

Results:
* `errorsUnder_flatMap`: of the errors of siblings, those under the path of one sibling are its own.
* `Context.Comprises.shows`, `Context.shows_of_comprises`: the outcome of a task shows the outcomes
  of the tasks that it is made of, at any depth.
* `Context.perform_unique`: whenever and however a task is run, it has one outcome.
* `siblings_isolated`: two objects on which a field is resolved alike show the same for its key,
  whatever else is selected on them.
-/

namespace GraphQL

open Relation

variable {ref : Type}

/-! ## Errors under a path -/

/-- Whether an error belongs to what stands at a path or under it. -/
def Error.isUnder (path : Path) (error : Error) : Bool :=
  error.path.any fun place => path.segments.isPrefixOf place.segments

/-- The errors of what stands at a path or under it, in order. -/
def errorsUnder (path : Path) (errors : List Error) : List Error :=
  errors.filter (Error.isUnder path)

theorem Error.isUnder_iff {path : Path} {error : Error} :
    error.isUnder path = true ↔ ∃ place, error.path = some place ∧ path.Under place := by
  simp only [isUnder, Option.any_eq_true_iff_get, List.isPrefixOf_iff_prefix, Path.Under]
  cases error.path <;> simp

theorem Faults.isUnder {path : Path} {value : Value} {errors : List Error}
    (h : Faults path value errors) : ∀ error ∈ errors, error.isUnder path = true := by
  obtain ⟨places, hpaths, -⟩ := h
  intro error hm
  have hpath : error.path ∈ errors.map Error.path := List.mem_map_of_mem hm
  rw [hpaths] at hpath
  obtain ⟨place, -, hplace⟩ := List.mem_map.mp hpath
  exact Error.isUnder_iff.mpr ⟨_, hplace.symm, List.prefix_append _ _⟩

section Errors

variable {path : Path} {errors : List Error}

theorem errorsUnder_eq_self (h : ∀ error ∈ errors, error.isUnder path = true) :
    errorsUnder path errors = errors :=
  List.filter_eq_self.mpr h

/-- Nothing stands under two different steps from one path. -/
theorem errorsUnder_eq_nil {a : Path.Segment}
    (h : ∀ error ∈ errors, ∃ b, a ≠ b ∧ error.isUnder (path.join b) = true) :
    errorsUnder (path.join a) errors = [] := by
  refine List.filter_eq_nil_iff.mpr fun error hm ha => ?_
  obtain ⟨b, hab, hb⟩ := h error hm
  obtain ⟨place, hplace, hunder⟩ := Error.isUnder_iff.mp ha
  obtain ⟨place', hplace', hunder'⟩ := Error.isUnder_iff.mp hb
  obtain rfl : place = place' := Option.some.inj (hplace.symm.trans hplace')
  exact hab (hunder.join_inj hunder')

/-- Taking the errors under a path first loses nothing of what lies further down. -/
theorem errorsUnder_errorsUnder {place : Path} (h : path.Under place) :
    errorsUnder place (errorsUnder path errors) = errorsUnder place errors := by
  rw [errorsUnder, errorsUnder, List.filter_filter]
  refine List.filter_congr fun error _ => ?_
  by_cases hunder : error.isUnder place = true
  · obtain ⟨below, hbelow, hplace⟩ := Error.isUnder_iff.mp hunder
    have habove : error.isUnder path = true := Error.isUnder_iff.mpr ⟨below, hbelow, h.trans hplace⟩
    rw [hunder, habove]
    rfl
  · rw [Bool.not_eq_true] at hunder
    rw [hunder]
    rfl

/-- Siblings stand at different steps from one path. Of their errors, those under the path of one of
    them are its own. -/
theorem errorsUnder_flatMap {α : Type} {items : List α} (segment : α → Path.Segment)
    (below : α → List Error) (hnodup : (items.map segment).Nodup)
    (h : ∀ item ∈ items, ∀ error ∈ below item, error.isUnder (path.join (segment item)) = true)
    {item : α} (hm : item ∈ items) :
    errorsUnder (path.join (segment item)) (items.flatMap below) = below item := by
  induction items with
  | nil => cases hm
  | cons head rest ih =>
    obtain ⟨hhead, hrest⟩ := List.nodup_cons.mp hnodup
    have happend : errorsUnder (path.join (segment item)) ((head :: rest).flatMap below) =
        errorsUnder (path.join (segment item)) (below head) ++
          errorsUnder (path.join (segment item)) (rest.flatMap below) := by
      rw [List.flatMap_cons, errorsUnder, List.filter_append]
      rfl
    rw [happend]
    rcases List.mem_cons.mp hm with rfl | hm
    · rw [errorsUnder_eq_self (h item (by simp)), errorsUnder_eq_nil, List.append_nil]
      intro error herror
      obtain ⟨other, hother, herror⟩ := List.mem_flatMap.mp herror
      exact ⟨segment other, fun e => hhead (e ▸ List.mem_map_of_mem hother),
        h other (by simp [hother]) error herror⟩
    · rw [errorsUnder_eq_nil fun error herror => ⟨segment head,
        fun e => hhead (e ▸ List.mem_map_of_mem hm), h head (by simp) error herror⟩,
        List.nil_append]
      exact ih hrest (fun item hm => h item (by simp [hm])) hm

end Errors

/-! ## What an outcome shows -/

theorem Value.at?_append (value : Value) (above below : List Path.Segment) :
    value.at? (above ++ below) = (value.at? above).bind fun inner => inner.at? below := by
  induction above generalizing value with
  | nil => rfl
  | cons segment rest ih =>
    rw [List.cons_append, at?, at?]
    cases value.child? segment with
    | none => rfl
    | some inner => exact ih inner

/-- What has something below it is an object or a list. -/
theorem Value.ne_null_of_at? {value inner : Value} {below : List Path.Segment}
    (h : value.at? below = some inner) (hne : below ≠ []) : value ≠ .null := by
  rintro rfl
  cases below with
  | nil => exact hne rfl
  | cons segment rest => cases segment <;> simp [at?, child?] at h

/-- The outcome at a path shows the one at a place under it: at the place stands its value, and its
    errors are those under the place. -/
structure Outcome.Shows (outer : Outcome) (path : Path) (inner : Outcome) (place : Path) : Prop where
  value : ∃ rest, place.segments = path.segments ++ rest ∧ outer.value.at? rest = some inner.value
  errors : errorsUnder place outer.errors = inner.errors

namespace Outcome.Shows

variable {outer inner outcome : Outcome} {path place : Path}

theorem of_eq (hvalue : outer.value = inner.value) (herrors : outer.errors = inner.errors)
    (h : Faults path outer.value outer.errors) : outer.Shows path inner path :=
  ⟨⟨[], (List.append_nil _).symm, by rw [Value.at?, hvalue]⟩,
    (errorsUnder_eq_self h.isUnder).trans herrors⟩

theorem trans {lowest : Path} (h : outer.Shows path inner place)
    (h' : inner.Shows place outcome lowest) : outer.Shows path outcome lowest := by
  obtain ⟨rest, hplace, hinner⟩ := h.value
  obtain ⟨rest', hlowest, houtcome⟩ := h'.value
  refine ⟨⟨rest ++ rest', by rw [hlowest, hplace, List.append_assoc], ?_⟩, ?_⟩
  · rw [Value.at?_append, hinner, Option.bind_some, houtcome]
  · have hunder : place.Under lowest := ⟨rest', hlowest.symm⟩
    rw [← h'.errors, ← h.errors, errorsUnder_errorsUnder hunder]

/-- A list shows its items. -/
theorem item {items : List Outcome} {i : Nat} (hget : items[i]? = some outcome)
    (h : ∀ (i : Nat) outcome, items[i]? = some outcome →
      Faults (path.join (.index i)) outcome.value outcome.errors) :
    (Outcome.ofItems items).Shows path outcome (path.join (.index i)) := by
  refine ⟨⟨[.index i], rfl, ?_⟩, ?_⟩
  · simp [ofItems, Value.at?, Value.child?, hget]
  · have hfst : items.flatMap Outcome.errors =
        items.zipIdx.flatMap fun entry => entry.1.errors := by
      conv_lhs => rw [← List.zipIdx_map_fst 0 items, List.flatMap_map]
    have hmem : (outcome, i) ∈ items.zipIdx := List.mem_zipIdx_iff_getElem?.mpr hget
    show errorsUnder _ (items.flatMap Outcome.errors) = _
    rw [hfst]
    exact errorsUnder_flatMap (fun entry => .index entry.2) (fun entry => entry.1.errors)
      (Path.nodup_index_segments items)
      (fun entry hm => (h entry.2 entry.1 (List.mem_zipIdx_iff_getElem?.mp hm)).isUnder) hmem

end Outcome.Shows

namespace Outcomes

variable {outcomes : Outcomes} {path : Path}

theorem errorsUnder_key (hnodup : (Entries.keys outcomes).Nodup)
    (h : ∀ entry ∈ outcomes, Faults (path.join (.key entry.1)) entry.2.value entry.2.errors)
    {entry : String × Outcome} (hm : entry ∈ outcomes) :
    errorsUnder (path.join (.key entry.1)) outcomes.errors = entry.2.errors :=
  errorsUnder_flatMap (fun entry => .key entry.1) (fun entry => entry.2.errors)
    (Path.nodup_key_segments hnodup) (fun entry hm => (h entry hm).isUnder) hm

/-- The errors of an object are those under its keys, key by key. -/
theorem errors_eq_flatMap (hnodup : (Entries.keys outcomes).Nodup)
    (h : ∀ entry ∈ outcomes, Faults (path.join (.key entry.1)) entry.2.value entry.2.errors) :
    outcomes.errors = (Entries.keys outcomes).flatMap fun key =>
      errorsUnder (path.join (.key key)) outcomes.errors := by
  rw [Entries.keys, List.flatMap_map, errors]
  exact List.flatMap_congr fun entry hm => (errorsUnder_key hnodup h hm).symm

/-- An object shows its fields. -/
theorem shows (hnodup : (Entries.keys outcomes).Nodup)
    (h : ∀ entry ∈ outcomes, Faults (path.join (.key entry.1)) entry.2.value entry.2.errors)
    {entry : String × Outcome} (hm : entry ∈ outcomes) :
    outcomes.toOutcome.Shows path entry.2 (path.join (.key entry.1)) := by
  refine ⟨⟨[.key entry.1], rfl, ?_⟩, errorsUnder_key hnodup h hm⟩
  show (Value.object outcomes.fields).at? [.key entry.1] = _
  rw [Value.at?, Value.child?, fields, Entries.find?_mapValues, Entries.find?_of_mem hnodup hm]
  rfl

end Outcomes

/-- What the fields of an object show at a key is the value under the key. -/
theorem Outcome.Shows.find?_key {outcomes : Outcomes} {inner : Outcome} {path : Path} {key : String}
    (h : outcomes.toOutcome.Shows path inner (path.join (.key key))) :
    Entries.find? outcomes.fields key = some inner.value := by
  obtain ⟨rest, hrest, hat⟩ := h.value
  obtain rfl := List.append_cancel_left hrest
  obtain ⟨value, hvalue, he⟩ := Option.bind_eq_some_iff.mp hat
  cases he
  exact hvalue

/-! ## Outcomes of tasks -/

namespace Context

variable {context : Context ref} {bound width start : Nat} {path place : Path}

/-- The errors in the outcome of a task are at nulls of its value. -/
theorem faults_perform {task : Task ref} {run : Timed Outcome}
    (h : context.perform bound path task start = some run) :
    Faults path run.value.value run.value.errors := by
  cases task with
  | field object collected => exact ((faultRules context).holds bound).field h
  | node type node collected => exact ((faultRules context).holds bound).node h
  | value type value collected => exact ((faultRules context).holds bound).value h
  | record value declared selections =>
    rw [perform, Job.done_eq_some_iff] at h
    subst h
    exact Record.faults_pick _ _ _ _
  | entry fields runtime collected =>
    rw [perform, Job.done_eq_some_iff] at h
    subst h
    exact Record.faults_pickField_pickers fields runtime collected path

/-- Every field that is collected on an object is run, and shown in what the fields come to. -/
theorem exists_run_of_mem {object : ObjectType ref} {selections : List Selection}
    {timed : Timed Outcomes}
    (h : context.executeFields bound width object path selections start = some timed)
    {key : String} {collected : CollectedField}
    (hm : (key, collected) ∈ collect (context.scope (some object.name)) selections) :
    ∃ below begun run,
      context.executeField below object collected (path.join (.key key)) begun = some run ∧
        (key, run.value) ∈ timed.value := by
  cases bound with
  | zero => cases h
  | succ bound =>
    rw [executeFields, Window.run_eq_some_iff] at h
    obtain ⟨i, hget⟩ := List.mem_iff_getElem?.mp hm
    obtain ⟨begun, run, hrun, hvalue⟩ := h.getElem? hget
    obtain ⟨first, hfirst, rfl⟩ := Job.map_eq_some_iff.mp hrun
    exact ⟨bound, begun, first, hfirst, List.mem_of_getElem? hvalue⟩

/-- What the fields of an object come to shows each of them. -/
theorem shows_of_mem {object : ObjectType ref} {selections : List Selection}
    {timed : Timed Outcomes}
    (h : context.executeFields bound width object path selections start = some timed)
    {key : String} {collected : CollectedField}
    (hm : (key, collected) ∈ collect (context.scope (some object.name)) selections) :
    ∃ below begun run,
      context.perform below (path.join (.key key)) (.field object collected) begun = some run ∧
        timed.value.toOutcome.Shows path run.value (path.join (.key key)) := by
  obtain ⟨below, begun, run, hrun, hmem⟩ := exists_run_of_mem h hm
  obtain ⟨hkeys, hfaults⟩ := ((faultRules context).holds bound).fields h
  exact ⟨below, begun, run, hrun,
    Outcomes.shows (hkeys ▸ nodup_keys_collect _ _) hfaults hmem⟩

/-- What the items of a list come to shows each of them. -/
theorem shows_of_getElem? {type : TypeRef} {items : List (Node ref)} {node : Node ref} {i : Nat}
    {collected : CollectedField} {timed : Timed (List Outcome)}
    (h : Window.run context.window (items.zipIdx.map fun (item, index) =>
      context.completeNode bound type item collected (path.join (.index index))) start = some timed)
    (hget : items[i]? = some node) :
    ∃ begun run,
      context.perform bound (path.join (.index i)) (.node type node collected) begun = some run ∧
        (Outcome.ofItems timed.value).Shows path run.value (path.join (.index i)) := by
  have hruns := Window.run_eq_some_iff.mp h
  have hitem : items.zipIdx[i]? = some (node, i) := by
    rw [List.getElem?_zipIdx, hget, Option.map_some, Nat.zero_add]
  obtain ⟨begun, run, hrun, hvalue⟩ := hruns.getElem? hitem
  refine ⟨begun, run, hrun, Outcome.Shows.item hvalue fun j outcome hj => ?_⟩
  obtain ⟨entry, _, run, hentry, hrun, rfl⟩ := hruns.value_getElem? hj
  rw [List.getElem?_zipIdx, Option.map_eq_some_iff] at hentry
  obtain ⟨_, _, he⟩ := hentry
  cases he
  rw [Nat.zero_add] at hrun
  exact ((faultRules context).holds bound).node hrun

/-- A field whose resolver is called comes to what the node comes to that the resolver answers. -/
theorem exists_run_of_resolves {object : ObjectType ref} {collected : CollectedField}
    {called : ResolvedField ref} (hcalled : context.Resolves object collected.field called)
    {run : Timed Outcome} (h : context.executeField bound object collected path start = some run) :
    ∃ below run', context.completeNode below called.type called.node collected path start =
      some run' ∧ run'.value = run.value := by
  obtain ⟨below, first, hfirst, rfl⟩ := executeField_of_resolves hcalled h
  exact ⟨below, first, hfirst, rfl⟩

/-- What the selected fields of a record come to. -/
def pickedOutcomes (context : Context ref) (fields : Fields) (runtime : Option String)
    (selections : List Selection) (path : Path) : Outcomes :=
  (collect (context.scope runtime) selections).map fun entry =>
    (entry.1, (Record.pickField (Record.pickers (context.scope none) fields) runtime entry.2
      (path.join (.key entry.1))).toOutcome)

/-- What is picked from a record is put together from its fields as an object is. -/
theorem toOutcome_pick_object (fields : Fields) (declared : Option String)
    (selections : List Selection) (path : Path) :
    (Record.pick (context.scope none) (.object fields) declared selections path).toOutcome =
      (context.pickedOutcomes fields (Record.runtime? fields declared) selections
        path).toOutcome := by
  rw [Record.pick, Record.pickFields, Record.typeOf?_pickers]
  simp only [Record.Picked.toOutcome, Outcomes.toOutcome, Outcomes.fields, Outcomes.errors,
    Entries.mapValues, pickedOutcomes, List.map_map, List.flatMap_map]
  rfl

/-- What is picked from a record shows each of its fields. -/
theorem pick_shows_entry {fields : Fields} {declared : Option String} {selections : List Selection}
    {key : String} {inner : CollectedField}
    (hm : (key, inner) ∈ collect (context.scope (Record.runtime? fields declared)) selections) :
    (Record.pick (context.scope none) (.object fields) declared selections path).toOutcome.Shows
      path
      (Record.pickField (Record.pickers (context.scope none) fields)
        (Record.runtime? fields declared) inner (path.join (.key key))).toOutcome
      (path.join (.key key)) := by
  rw [toOutcome_pick_object]
  have hentry : (key, _) ∈
      context.pickedOutcomes fields (Record.runtime? fields declared) selections path :=
    List.mem_map_of_mem hm
  refine Outcomes.shows ?_ ?_ hentry
  · have hkeys : Entries.keys
        (context.pickedOutcomes fields (Record.runtime? fields declared) selections path) =
        Entries.keys (collect (context.scope (Record.runtime? fields declared)) selections) := by
      simp [Entries.keys, pickedOutcomes]
    rw [hkeys]
    exact nodup_keys_collect _ _
  · intro entry hentry
    obtain ⟨⟨key, collected⟩, -, rfl⟩ := List.mem_map.mp hentry
    exact Record.faults_pickField_pickers fields _ collected _

/-- What is picked from a list shows what is picked from each item. -/
theorem pick_shows_item {items : List Value} {declared : Option String}
    {selections : List Selection} {value : Value} {i : Nat} (hget : items[i]? = some value) :
    (Record.pick (context.scope none) (.list items) declared selections path).toOutcome.Shows path
      (Record.pick (context.scope none) value declared selections
        (path.join (.index i))).toOutcome
      (path.join (.index i)) := by
  have hpick : (Record.pick (context.scope none) (.list items) declared selections
      path).toOutcome =
      Outcome.ofItems (items.zipIdx.map fun entry =>
        (Record.pick (context.scope none) entry.1 declared selections
          (path.join (.index entry.2))).toOutcome) := by
    rw [Record.pick, Record.pickItems_eq_map]
    simp only [Record.Picked.toOutcome, Outcome.ofItems, List.map_map, List.flatMap_map]
    rfl
  rw [hpick]
  refine Outcome.Shows.item ?_ fun j outcome hj => ?_
  · rw [List.getElem?_map, List.getElem?_zipIdx, hget, Option.map_some, Option.map_some,
      Nat.zero_add]
  · rw [List.getElem?_map, List.getElem?_zipIdx, Option.map_map, Option.map_eq_some_iff] at hj
    obtain ⟨item, -, rfl⟩ := hj
    rw [Function.comp_apply, Nat.zero_add]
    exact Record.faults_pick _ _ _ _

/-- The outcome of a task shows those of the tasks that it is made of. -/
theorem Comprises.shows {task inner : Task ref} (h : context.Comprises (path, task) (place, inner))
    {run : Timed Outcome} (hrun : context.perform bound path task start = some run) :
    ∃ below begun run', context.perform below place inner begun = some run' ∧
      run.value.Shows path run'.value place := by
  have hfaults := faults_perform hrun
  cases h with
  | resolve hcalled =>
    obtain ⟨below, run', hrun', hvalue⟩ := exists_run_of_resolves hcalled hrun
    exact ⟨below, start, run', hrun', .of_eq (hvalue ▸ rfl) (hvalue ▸ rfl) hfaults⟩
  | ready =>
    cases bound with
    | zero => cases hrun
    | succ bound => exact ⟨bound, start, run, hrun, .of_eq rfl rfl hfaults⟩
  | effect =>
    cases bound with
    | zero => cases hrun
    | succ bound =>
      simp only [perform, completeNode, Job.noting_eq_some_iff, Job.after] at hrun
      obtain ⟨first, hfirst, rfl⟩ := hrun
      exact ⟨bound, _, first, hfirst, .of_eq rfl rfl hfaults⟩
  | object hcomposite hm =>
    cases bound with
    | zero => cases hrun
    | succ bound =>
      simp only [perform, completeValue, hcomposite, ite_true, Job.map_eq_some_iff] at hrun
      obtain ⟨first, hfirst, rfl⟩ := hrun
      exact shows_of_mem hfirst hm
  | item hget =>
    cases bound with
    | zero => cases hrun
    | succ bound =>
      simp only [perform, completeValue, Job.map_eq_some_iff] at hrun
      obtain ⟨first, hfirst, rfl⟩ := hrun
      exact ⟨bound, shows_of_getElem? hfirst hget⟩
  | leaf hcomposite =>
    cases bound with
    | zero => cases hrun
    | succ bound =>
      simp only [perform, completeValue, hcomposite, ite_true, Job.done_eq_some_iff] at hrun
      subst hrun
      exact ⟨0, start, _, rfl, .of_eq rfl rfl hfaults⟩
  | pick hm =>
    rw [perform, Job.done_eq_some_iff] at hrun
    subst hrun
    exact ⟨0, start, _, rfl, pick_shows_entry hm⟩
  | @entry _ fields runtime collected value hname hfind hcomposite =>
    rw [perform, Record.pickField_of_find? hname hfind, if_pos hcomposite,
      Job.done_eq_some_iff] at hrun
    subst hrun
    exact ⟨0, start, _, rfl, .of_eq rfl rfl hfaults⟩
  | pickItem hget =>
    rw [perform, Job.done_eq_some_iff] at hrun
    subst hrun
    exact ⟨0, start, _, rfl, pick_shows_item hget⟩

/-- At any depth, the outcome of a task shows those of the tasks that it is made of. -/
theorem shows_of_comprises {outer inner : Path × Task ref}
    (h : ReflTransGen context.Comprises outer inner) {run : Timed Outcome}
    (hrun : context.perform bound outer.1 outer.2 start = some run) :
    ∃ below begun run', context.perform below inner.1 inner.2 begun = some run' ∧
      run.value.Shows outer.1 run'.value inner.1 := by
  induction h with
  | refl => exact ⟨bound, start, run, hrun, .of_eq rfl rfl (faults_perform hrun)⟩
  | tail _ hstep ih =>
    obtain ⟨_, _, middle, hmiddle, hshows⟩ := ih
    obtain ⟨below, begun, last, hlast, hshows'⟩ := hstep.shows hmiddle
    exact ⟨below, begun, last, hlast, hshows.trans hshows'⟩

/-! ## One outcome -/

/-- Two jobs that give what is evaluated with two bounds give the same, as a larger bound keeps what
    is evaluated. -/
theorem value_eq_of_gives {f : Nat → Option Outcome} {job job' : Job Outcome} {more begun : Nat}
    {run other : Timed Outcome} (hstays : ∀ bound, Approximates (f bound) (f (bound + 1)))
    (hgives : job.Gives (f bound)) (hgives' : job'.Gives (f more)) (h : job start = some run)
    (h' : job' begun = some other) : other.value = run.value := by
  have hvalue := hgives start
  have hvalue' := hgives' begun
  rw [h] at hvalue
  rw [h'] at hvalue'
  exact Approximates.unique (fun _ _ hle => .of_succ hstays hle) hvalue'.symm hvalue.symm

/-- Whenever a task is run and however wide the windows are, it has the same outcome. -/
theorem perform_unique {task : Task ref} {width more begun : Nat} {run other : Timed Outcome}
    (h : context.perform bound path task start = some run)
    (h' : ({ context with width } : Context ref).perform more path task begun = some other) :
    other.value = run.value := by
  have hstays := InOrder.stays context.inOrder
  -- The width has no part in the evaluation in order.
  have hgives := context.gives_inOrder bound
  have hgives' : ({ context with width } : Context ref).GivesInOrder more := gives_inOrder _ more
  cases task with
  | field object collected =>
    exact value_eq_of_gives (fun bound => (hstays bound).field object.timeless collected path)
      (hgives.field object collected path) (hgives'.field object collected path) h h'
  | node type node collected =>
    exact value_eq_of_gives (fun bound => (hstays bound).answer type node.answer collected path)
      (hgives.node type node collected path) (hgives'.node type node collected path) h h'
  | value type value collected =>
    exact value_eq_of_gives (fun bound => (hstays bound).settled type value.settle collected path)
      (hgives.value type value collected path) (hgives'.value type value collected path) h h'
  | record value declared selections =>
    rw [perform, Job.done_eq_some_iff] at h h'
    subst h h'
    rfl
  | entry fields runtime collected =>
    rw [perform, Job.done_eq_some_iff] at h h'
    subst h h'
    rfl

/-- Of an object a field sees its type and its own definition only. -/
theorem executeField_congr {object other : ObjectType ref} {collected : CollectedField}
    (hname : other.name = object.name)
    (hfield : other.field? collected.field.name = object.field? collected.field.name) :
    context.executeField bound other collected path =
      context.executeField bound object collected path := by
  cases bound with
  | zero => rfl
  | succ bound => simp only [executeField, resolve, hname, hfield]

end Context

/-- An error at the path of a value itself makes it null, and there is no other error in it. -/
theorem Faults.null_of_path_eq {path : Path} {value : Value} {errors : List Error}
    (h : Faults path value errors) {error : Error} (hm : error ∈ errors)
    (hpath : error.path = some path) : value = .null ∧ errors = [error] := by
  obtain ⟨places, hpaths, hnull, hordered⟩ := h
  have hempty : [] ∈ places := by
    have hmem : error.path ∈ errors.map Error.path := List.mem_map_of_mem hm
    rw [hpaths] at hmem
    obtain ⟨place, hplace, he⟩ := List.mem_map.mp hmem
    have hsegments : path.segments ++ place = path.segments :=
      congrArg Path.segments (Option.some.inj (he.trans hpath))
    rwa [List.append_right_eq_self.mp hsegments] at hplace
  -- The empty place is the beginning of every other one, so there is no other one.
  have hplaces : places = [[]] := by
    obtain ⟨before, after, rfl⟩ := List.append_of_mem hempty
    obtain ⟨-, hafter, hbefore⟩ := List.pairwise_append.mp hordered
    have hbefore' : before = [] := List.eq_nil_iff_forall_not_mem.mpr fun place hm =>
      Value.Precedes.not_prefix (hbefore place hm [] (by simp)) |>.2 (List.nil_prefix)
    have hafter' : after = [] := List.eq_nil_iff_forall_not_mem.mpr fun place hm =>
      Value.Precedes.not_prefix ((List.pairwise_cons.mp hafter).1 place hm) |>.1 (List.nil_prefix)
    rw [hbefore', hafter']
    rfl
  refine ⟨Option.some.inj (hnull [] hempty), ?_⟩
  have hlength : errors.length = 1 := by
    rw [← List.length_map (f := Error.path), hpaths, hplaces]
    rfl
  obtain ⟨only, rfl⟩ := List.length_eq_one_iff.mp hlength
  rw [List.mem_singleton.mp hm]

/-- Of two objects of one type on which a field is resolved alike, and of two selections that collect
    the same for its key, the executions at one path show the same value under the key and the same
    errors under its path, whatever else is selected and however long it takes. The errors of an
    object are those under its keys, key by key. So it is at any depth: at the place of each task
    stands what the task comes to by itself, whenever and however it is run; an error at the very
    place leaves a null there and no other error; and what lies above it is no null. -/
theorem siblings_isolated {context : Context ref}
    {width width' window bound bound' start start' : Nat} {object other : ObjectType ref}
    {path : Path} {selections selections' : List Selection} {timed timed' : Timed Outcomes}
    {key : String} {collected : CollectedField}
    (hname : other.name = object.name)
    (hfield : other.field? collected.field.name = object.field? collected.field.name)
    (hcollected : Entries.find?
      (collect (context.scope (some object.name)) selections) key = some collected)
    (hcollected' : Entries.find?
      (collect (context.scope (some other.name)) selections') key = some collected)
    (h : context.executeFields bound width object path selections start = some timed)
    (h' : ({ context with width := window } : Context ref).executeFields bound' width' other path
      selections' start' = some timed') :
    (∃ value, Entries.find? timed.value.fields key = some value ∧
      Entries.find? timed'.value.fields key = some value) ∧
    errorsUnder (path.join (.key key)) timed'.value.errors =
      errorsUnder (path.join (.key key)) timed.value.errors ∧
    timed.value.errors = ((Entries.keys timed.value.fields).flatMap fun key =>
      errorsUnder (path.join (.key key)) timed.value.errors) ∧
    ∀ top ∈ collect (context.scope (some object.name)) selections, ∀ place task,
      ReflTransGen context.Comprises (path.join (.key top.1), .field object top.2) (place, task) →
      ∃ rest, place.segments = path.segments ++ rest ∧
        (∃ bound start run, context.perform bound place task start = some run) ∧
        (∀ window bound start run,
          ({ context with width := window } : Context ref).perform bound place task start =
            some run →
          (Value.object timed.value.fields).at? rest = some run.value.value ∧
            errorsUnder place timed.value.errors = run.value.errors) ∧
        (∀ error ∈ timed.value.errors, error.path = some place →
          (Value.object timed.value.fields).at? rest = some .null ∧
            errorsUnder place timed.value.errors = [error]) ∧
        ∀ above below, rest = above ++ below → below ≠ [] →
          ∃ outer, (Value.object timed.value.fields).at? above = some outer ∧ outer ≠ .null := by
  obtain ⟨hkeys, hfaults⟩ := ((faultRules context).holds bound).fields h
  have hnodup : (Entries.keys timed.value).Nodup := hkeys ▸ nodup_keys_collect _ _
  obtain ⟨_, _, run, hrun, hshows⟩ := Context.shows_of_mem h (Entries.mem_of_find? hcollected)
  obtain ⟨_, _, run', hrun', hshows'⟩ := Context.shows_of_mem h' (Entries.mem_of_find? hcollected')
  have hsame : run'.value = run.value := by
    rw [Context.perform, Context.executeField_congr hname hfield] at hrun'
    exact Context.perform_unique hrun hrun'
  refine ⟨⟨run.value.value, hshows.find?_key, hsame ▸ hshows'.find?_key⟩, ?_, ?_, ?_⟩
  · exact hshows'.errors.trans ((congrArg Outcome.errors hsame).trans hshows.errors.symm)
  · have hfields : Entries.keys timed.value.fields = Entries.keys timed.value := by
      simp [Outcomes.fields, Entries.keys, Entries.mapValues]
    rw [hfields]
    exact Outcomes.errors_eq_flatMap hnodup hfaults
  · rintro ⟨top, collected⟩ hm place task hreach
    obtain ⟨_, _, first, hfirst, htop⟩ := Context.shows_of_mem h hm
    obtain ⟨below, begun, last, hlast, hdown⟩ := Context.shows_of_comprises hreach hfirst
    have hplace := htop.trans hdown
    obtain ⟨rest, hrest, hat⟩ := hplace.value
    refine ⟨rest, hrest, ⟨below, begun, last, hlast⟩, ?_, ?_, ?_⟩
    · intro window bound start run hrun
      rw [Context.perform_unique hlast hrun]
      exact ⟨hat, hplace.errors⟩
    · intro error hm hpath
      have hunder : error ∈ errorsUnder place timed.value.errors :=
        List.mem_filter.mpr ⟨hm, Error.isUnder_iff.mpr ⟨place, hpath, .refl place⟩⟩
      have herrors : errorsUnder place timed.value.errors = last.value.errors := hplace.errors
      rw [herrors] at hunder ⊢
      obtain ⟨hnull, honly⟩ := (Context.faults_perform hlast).null_of_path_eq hunder hpath
      exact ⟨hnull ▸ hat, honly⟩
    · rintro above below rfl hne
      replace hat : (Value.object timed.value.fields).at? (above ++ below) = _ := hat
      rw [Value.at?_append, Option.bind_eq_some_iff] at hat
      obtain ⟨outer, houter, hbelow⟩ := hat
      exact ⟨outer, houter, Value.ne_null_of_at? hbelow hne⟩

namespace Sample

/-- What the small service executes with. -/
def context : Context Unit :=
  (service 3 2).context (fun _ => ship 3) (document .query) []

/-- A root object without a fleet. -/
def alone : ObjectType Unit := { root 3 with fields := (root 3).fields.take 1 }

end Sample

/-- The ship comes to the same with a fleet beside it and on an object that declares no fleet. -/
theorem siblings_isolated_sample :
    ∃ timed timed' : Timed Outcomes, timed.value.errors.length = 3 ∧
      timed'.value.errors.length = 2 ∧
      errorsUnder (Path.root.join (.key "ship")) timed'.value.errors =
        errorsUnder (Path.root.join (.key "ship")) timed.value.errors := by
  have hrun : (Sample.context.executeFields 20 2 (Sample.root 3) .root Sample.selections 0).map
      (fun timed => timed.value.errors.length) = some 3 := by decide +kernel
  have hrun' : (({ Sample.context with width := 7 } : Context Unit).executeFields 20 7 Sample.alone
      .root Sample.selections 0).map (fun timed => timed.value.errors.length) = some 2 := by
    decide +kernel
  obtain ⟨timed, htimed, hlength⟩ := Option.map_eq_some_iff.mp hrun
  obtain ⟨timed', htimed', hlength'⟩ := Option.map_eq_some_iff.mp hrun'
  have hname : Sample.alone.name = (Sample.root 3).name := rfl
  have hship : Entries.find? (collect (Sample.context.scope (some (Sample.root 3).name))
    Sample.selections) "ship" = some _ := rfl
  obtain ⟨-, hsame, -⟩ := siblings_isolated hname rfl hship rfl htimed htimed'
  exact ⟨timed, timed', hlength, hlength', hsame⟩

end GraphQL

import GraphQL.Proofs.Whereabouts
import GraphQL.ResponseStream

/-!
# Sources

A source has an item at each position up to the first that has none. An item is due if none of those
before it failed: `Source.Due` speaks of positions and knows nothing of the steps of a source, which
take the first item off.

A record tells of the source at a path when something was pulled from it and when it was released
(`sourceRecord`). Both happen at the path itself, where completing a value notes nothing.

Results:
* `Source.due_zero`, `Source.due_succ`: what is due of a source and of what is left of it.
* `insideRules`: completing a value notes nothing at its own path.
* `Subscription.complete_inside`: so completing an item tells nothing of the source it is from.
-/

namespace GraphQL

variable {ref : Type}

/-! ## Items -/

/-- Whether an item is one that failed. -/
def Event.failed {ρ : Type} (event : Event ρ) : Bool :=
  match event.outcome with
  | .ok _ => false
  | .error _ => true

namespace Source

/-- The item at a position. Items that are made when they are asked for end at the first position
    without one. -/
def item? : Source ref → Nat → Option (Event (Resolved ref))
  | .prepared events, position => events[position]?
  | .generated events, position =>
    if ∀ earlier < position, (events earlier).isSome then events position else none

/-- The item at a position is to be delivered: no item before it failed. -/
structure Due (source : Source ref) (position : Nat) (item : Event (Resolved ref)) : Prop where
  item : source.item? position = some item
  earlier : ∀ earlier < position, ∀ before, source.item? earlier = some before →
    before.failed = false

variable {source : Source ref} {step : Step ref} {position : Nat} {item : Event (Resolved ref)}

theorem item?_zero (source : Source ref) : source.item? 0 = source.next?.map Step.event := by
  cases source with
  | prepared events => cases events <;> rfl
  | generated events => cases h : events 0 <;> simp [item?, next?, h]

theorem item?_succ (h : source.next? = some step) (position : Nat) :
    source.item? (position + 1) = step.rest.item? position := by
  cases source with
  | prepared events =>
    cases events with
    | nil => cases h
    | cons event rest => cases h; rfl
  | generated events =>
    obtain ⟨event, hevent, rfl⟩ := Option.map_eq_some_iff.mp h
    simp only [item?, Nat.forall_lt_succ_left, hevent, Option.isSome_some, true_and]

theorem item?_of_next?_eq_none (h : source.next? = none) (position : Nat) :
    source.item? position = none := by
  cases source with
  | prepared events =>
    cases events with
    | nil => rfl
    | cons event rest => cases h
  | generated events =>
    have hfirst : events 0 = none := Option.map_eq_none_iff.mp h
    cases position with
    | zero => simp [item?, hfirst]
    | succ position =>
      simp only [item?, Nat.forall_lt_succ_left, hfirst, Option.isSome_none, Bool.false_eq_true,
        false_and, ite_false]

theorem not_due_of_next?_eq_none (h : source.next? = none) : ¬ source.Due position item := by
  rintro ⟨hitem, -⟩
  rw [item?_of_next?_eq_none h] at hitem
  cases hitem

theorem due_zero (h : source.next? = some step) : source.Due 0 item ↔ item = step.event := by
  have hfirst : source.item? 0 = some step.event := by rw [item?_zero, h, Option.map_some]
  constructor
  · rintro ⟨hitem, -⟩
    exact Option.some.inj (hitem.symm.trans hfirst)
  · rintro rfl
    exact ⟨hfirst, fun earlier hlt => absurd hlt (Nat.not_lt_zero earlier)⟩

/-- Behind the first item is due what is due of the rest, unless the first item failed. -/
theorem due_succ (h : source.next? = some step) :
    source.Due (position + 1) item ↔ step.event.failed = false ∧ step.rest.Due position item := by
  have hfirst : source.item? 0 = some step.event := by rw [item?_zero, h, Option.map_some]
  constructor
  · rintro ⟨hitem, hearlier⟩
    rw [item?_succ h] at hitem
    refine ⟨hearlier 0 (Nat.succ_pos position) _ hfirst, hitem, ?_⟩
    intro earlier hlt before hbefore
    have hsucc : source.item? (earlier + 1) = some before := (item?_succ h earlier).trans hbefore
    exact hearlier (earlier + 1) (Nat.succ_lt_succ hlt) before hsucc
  · rintro ⟨hfailed, hitem, hearlier⟩
    refine ⟨(item?_succ h position).trans hitem, fun earlier hlt before hbefore => ?_⟩
    cases earlier with
    | zero =>
      obtain rfl : step.event = before := Option.some.inj (hfirst.symm.trans hbefore)
      exact hfailed
    | succ earlier =>
      rw [item?_succ h] at hbefore
      exact hearlier earlier (Nat.lt_of_succ_lt_succ hlt) before hbefore

/-- A source is one of its parts. -/
theorem sources_parts_pos (source : Source ref) : 0 < Node.Part.sources source.parts := by
  cases source <;> simp [parts, Node.Part.sources]

end Source

/-! ## What a record tells of a source -/

namespace Occurrence

/-- Whether something was pulled from a source. -/
def isPull : Occurrence → Bool
  | .pulled _ _ => true
  | _ => false

/-- Whether something was pulled from the source at a path, or the source was released. -/
def ofSource (path : Path) : Occurrence → Bool
  | .pulled place _ | .released place _ _ => place = path
  | _ => false

/-- What tells of the source at a path stands at that path. -/
theorem path?_of_ofSource {o : Occurrence} {path : Path} (h : o.ofSource path = true) :
    o.path? = some path := by
  cases o <;> simp_all [ofSource, path?]

end Occurrence

/-- What a record tells of the source at a path. -/
def sourceRecord (path : Path) (record : List Occurrence) : List Occurrence :=
  record.filter (Occurrence.ofSource path)

section

variable (path : Path) (time : Nat)

@[simp] theorem sourceRecord_nil : sourceRecord path [] = [] := rfl

@[simp] theorem sourceRecord_append (record others : List Occurrence) :
    sourceRecord path (record ++ others) = sourceRecord path record ++ sourceRecord path others :=
  List.filter_append ..

@[simp] theorem sourceRecord_pulled (record : List Occurrence) :
    sourceRecord path (.pulled path time :: record) =
      .pulled path time :: sourceRecord path record := by
  simp [sourceRecord, Occurrence.ofSource]

@[simp] theorem sourceRecord_makeRecord (parts : List Node.Part) :
    sourceRecord path (Context.makeRecord parts time) = [] := by
  simp [sourceRecord, Context.makeRecord, Occurrence.ofSource]

/-- What is made is noted at once. -/
theorem start_finish_of_mem_makeRecord {parts : List Node.Part} {o : Occurrence}
    (ho : o ∈ Context.makeRecord parts time) : o.start = time ∧ o.finish = time := by
  obtain ⟨label, -, rfl⟩ := List.mem_map.mp ho
  exact ⟨rfl, rfl⟩

@[simp] theorem sourceRecord_releaseRecord (parts : List Node.Part) :
    sourceRecord path (Context.releaseRecord path parts time) =
      [.released path (Node.Part.sources parts) time] := by
  simp [sourceRecord, Context.releaseRecord, Occurrence.ofSource]

/-- Calling a resolver tells nothing of sources. -/
@[simp] theorem sourceRecord_callRecord (place : Path) (field : Field)
    (called : ResolvedField ref) :
    sourceRecord path (Context.callRecord place field called time) = [] := by
  have hmade := sourceRecord_makeRecord path time called.node.parts
  simpa [sourceRecord, Context.callRecord, Occurrence.ofSource] using hmade

end

/-! ## Work inside a path -/

/-- Confined work that notes nothing at the path itself. -/
structure Timed.Inside {α : Type} (path : Path) (start : Nat) (timed : Timed α) : Prop
    extends Timed.Confined path start timed where
  ne : ∀ o ∈ timed.record, o.path? ≠ some path

namespace Timed.Inside

variable {α β : Type} {path : Path} {start : Nat} {timed : Timed α}

theorem done (path : Path) (value : α) (start : Nat) : Inside path start ⟨value, start, []⟩ :=
  ⟨.done path value start, by simp⟩

theorem map (f : α → β) (h : Inside path start timed) : Inside path start (timed.map f) :=
  ⟨h.toConfined.map f, h.ne⟩

theorem sourceRecord_eq_nil (h : Inside path start timed) : sourceRecord path timed.record = [] :=
  List.filter_eq_nil_iff.mpr fun o ho hsource => h.ne o ho (Occurrence.path?_of_ofSource hsource)

end Timed.Inside

/-- A window works inside a path if the work for each of its items is confined to a step from it. -/
theorem Window.Runs.inside {ι α : Type} {work : ι → Nat → Timed α → Prop} {items : List ι}
    {width start : Nat} {timed : Timed (List α)} {path : Path}
    (h : Runs work start (Window.slots width items.length start) items timed)
    (hw : ∀ item ∈ items, ∃ segment, ∀ start run, work item start run →
      run.Confined (path.join segment) start) :
    timed.Inside path start := by
  refine ⟨h.confined fun item hm start run hrun => ?_, fun o ho hpath => ?_⟩
  · obtain ⟨segment, hsegment⟩ := hw item hm
    exact (hsegment start run hrun).of_join
  · obtain ⟨item, hm, start, run, hrun, ho⟩ := h.mem_record ho
    obtain ⟨segment, hsegment⟩ := hw item hm
    exact ((hsegment start run hrun).under o ho path hpath).ne_of_join rfl

/-- Values and the fields of objects are worked on inside their path, nodes and fields at it. -/
def inside (ref : Type) : Property ref :=
  { confined ref with
    value := fun _ _ _ path start timed => timed.Inside path start
    fields := fun _ _ path _ start timed => timed.Inside path start }

/-- Completing a value notes nothing at its own path. -/
theorem insideRules (context : Context ref) : context.Rules (inside ref) where
  picked _ := .done _ _ _
  leaf _ := .done _ _ _
  object _ h := h.map _
  unselected _ := .done _ _ _
  list h := (h.inside fun _ _ => ⟨_, fun _ _ hrun => hrun⟩).map _
  ready h := h.toConfined
  effect {type _ _ value collected _ _ _} h :=
    @(confinedRules context).effect type _ _ value collected _ _ _ h.toConfined
  failed {type _ _ _ _ _ _} := @(confinedRules context).failed type _ _ _ _ _ _
  stream {type _ _ _ _} := @(confinedRules context).stream type _ _ _ _
  typename := (confinedRules context).typename
  unresolved := (confinedRules context).unresolved
  resolved := (confinedRules context).resolved
  fields h := h.inside fun _ _ => ⟨_, fun _ _ ⟨_, houtcome, hrun⟩ => hrun ▸ houtcome.map _⟩

/-- Completing an item tells nothing of the source that it is from. -/
theorem Subscription.complete_inside {subscription : Subscription ref} {bound start : Nat}
    {outcome : Except String (Resolved ref)} {timed : Timed (Response Error)}
    (h : subscription.complete bound outcome start = some timed) :
    timed.Inside subscription.path start := by
  cases outcome with
  | ok value =>
    simp only [complete, Job.map_eq_some_iff] at h
    obtain ⟨first, hfirst, rfl⟩ := h
    exact (((insideRules subscription.context).holds bound).value hfirst).map _
  | error cause =>
    simp only [complete, Job.map_eq_some_iff, Job.done_eq_some_iff] at h
    obtain ⟨_, rfl, rfl⟩ := h
    exact .done _ _ _

end GraphQL

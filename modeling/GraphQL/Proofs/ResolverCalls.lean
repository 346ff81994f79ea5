import GraphQL.Proofs.Bounds
import GraphQL.Proofs.Collection
import GraphQL.Proofs.Service
import GraphQL.Proofs.Whereabouts
import Mathlib.Logic.Relation

/-!
# Resolver calls

What an execution completes is laid down by what it starts from: an object leads to the fields that
are collected on it, a field to the node that its resolver answers, a node to its value, a value to
an object or to the nodes of a list (`Context.Leads`). The relation knows neither time nor order nor
bounds. Calls are due at the fields that it reaches and effects at its nodes (`Context.Demands`),
and an execution does exactly what is due, everything once (`Accounts`).

Main results:
* `accountRules`: every step of an execution does exactly what is due.
* `resolver_calls`: the resolver calls and the effects of a query or mutation.
-/

namespace GraphQL

open Relation

variable {ref : Type}

/-! ## Activities -/

/-- A call or an effect, whenever it is. -/
inductive Activity where
  | call (path : Path) (field : String) (arguments : Fields)
  | effect (path : Path) (label : Option String) (duration : Nat)

namespace Activity

/-- Where it takes place. -/
def path : Activity → Path
  | .call path _ _ | .effect path _ _ => path

/-- Two calls, or two effects, in one place. -/
def Repeats : Activity → Activity → Prop
  | .call path _ _, .call path' _ _ | .effect path _ _, .effect path' _ _ => path = path'
  | _, _ => False

theorem Repeats.path_eq {a b : Activity} (h : a.Repeats b) : a.path = b.path := by
  cases a with
  | call =>
    cases b with
    | call => exact h
    | effect => exact h.elim
  | effect =>
    cases b with
    | call => exact h.elim
    | effect => exact h

end Activity

/-- The call or effect that an occurrence is. -/
def Occurrence.activity? : Occurrence → Option Activity
  | .called path field arguments _ => some (.call path field arguments)
  | .ran path label start finish => some (.effect path label (finish - start))
  | _ => none

/-- The calls and effects in a record. -/
def activities (record : List Occurrence) : List Activity := record.filterMap Occurrence.activity?

@[simp] theorem activities_append (first second : List Occurrence) :
    activities (first ++ second) = activities first ++ activities second :=
  List.filterMap_append

theorem activities_callRecord (path : Path) (field : Field) (called : ResolvedField ref)
    (time : Nat) :
    activities (Context.callRecord path field called time) =
      [.call path field.name called.arguments] := by
  have hmade : activities (Context.makeRecord called.node.parts time) = [] := by
    refine List.filterMap_eq_nil_iff.mpr fun o ho => ?_
    obtain ⟨label, -, rfl⟩ := List.mem_map.mp ho
    rfl
  rw [Context.callRecord, ← List.singleton_append, activities_append, hmade, List.append_nil]
  rfl

theorem activities_ran (path : Path) (label : Option String) (start delay : Nat) :
    activities [.ran path label start (start + delay)] = [.effect path label delay] := by
  show [Activity.effect path label (start + delay - start)] = _
  rw [Nat.add_sub_cancel_left]

/-! ## What is completed -/

/-- Something that is completed at a path. -/
inductive Place (ref : Type) where
  | object (object : ObjectType ref) (selections : List Selection)
  | field (object : ObjectType ref) (collected : CollectedField)
  | node (node : Node ref) (collected : CollectedField)
  | value (value : Resolved ref) (collected : CollectedField)

namespace Context

/-- The object declares the field, which does not ask for the type of the object, and its arguments
    can be coerced. -/
def Resolves (context : Context ref) (object : ObjectType ref) (field : Field)
    (called : ResolvedField ref) : Prop :=
  field.name ≠ typenameField ∧ ∃ definition arguments bound,
    object.field? field.name = some definition ∧
    (coerceArguments context.types context.bindings bound definition.resolver.arguments
      field).run = some (.ok arguments) ∧
    called = ⟨definition.type, arguments, definition.resolver.call arguments⟩

/-- What completing one thing leads to. -/
inductive Leads (context : Context ref) : Path × Place ref → Path × Place ref → Prop
  | select {path : Path} {object : ObjectType ref} {selections : List Selection} {key : String}
      {collected : CollectedField} :
      (key, collected) ∈ collect (context.scope (some object.name)) selections →
      Leads context (path, .object object selections)
        (path.join (.key key), .field object collected)
  | resolve {path : Path} {object : ObjectType ref} {collected : CollectedField}
      {called : ResolvedField ref} :
      context.Resolves object collected.field called →
      Leads context (path, .field object collected) (path, .node called.node collected)
  | ready {path : Path} {label : Option String} {value : Resolved ref}
      {collected : CollectedField} :
      Leads context (path, .node (.ready label value) collected) (path, .value value collected)
  | effect {path : Path} {label : Option String} {delay : Nat} {value : Resolved ref}
      {collected : CollectedField} :
      Leads context (path, .node (.effect label delay (.ok value)) collected)
        (path, .value value collected)
  | object {path : Path} {reference : ref} {collected : CollectedField} :
      collected.isComposite = true →
      Leads context (path, .value (.object reference) collected)
        (path, .object (context.objects reference) collected.selections)
  | item {path : Path} {items : List (Node ref)} {node : Node ref} {i : Nat}
      {collected : CollectedField} :
      items[i]? = some node →
      Leads context (path, .value (.list items) collected)
        (path.join (.index i), .node node collected)

/-- What completing a thing takes by itself: the call of a resolver, or the run of an effect. -/
inductive Demands (context : Context ref) : Path × Place ref → Activity → Prop
  | call {path : Path} {object : ObjectType ref} {collected : CollectedField}
      {called : ResolvedField ref} :
      context.Resolves object collected.field called →
      Demands context (path, .field object collected)
        (.call path collected.field.name called.arguments)
  | effect {path : Path} {label : Option String} {delay : Nat}
      {outcome : Except String (Resolved ref)} {collected : CollectedField} :
      Demands context (path, .node (.effect label delay outcome) collected)
        (.effect path label delay)

/-- What is due in completing a thing and all that it leads to. -/
def Due (context : Context ref) (place : Path × Place ref) (activity : Activity) : Prop :=
  ∃ reached, ReflTransGen context.Leads place reached ∧ context.Demands reached activity

variable {context : Context ref} {path : Path} {activity : Activity} {object : ObjectType ref}
  {collected : CollectedField}

theorem resolve_unique {field : Field} {bound other : Nat}
    {first second : Except FieldError (ResolvedField ref)}
    (hfirst : (context.resolve bound object field).run = some first)
    (hsecond : (context.resolve other object field).run = some second) : first = second := by
  rw [resolve] at hfirst hsecond
  cases hd : object.field? field.name with
  | none =>
    rw [hd] at hfirst hsecond
    exact Option.some.inj (hfirst.symm.trans hsecond)
  | some definition =>
    rw [hd] at hfirst hsecond
    obtain ⟨arguments, harguments, rfl⟩ := Option.map_eq_some_iff.mp hfirst
    obtain ⟨arguments', harguments', rfl⟩ := Option.map_eq_some_iff.mp hsecond
    rw [coerceArguments_unique harguments harguments']

theorem resolves_iff {field : Field} {called : ResolvedField ref} :
    context.Resolves object field called ↔
      field.name ≠ typenameField ∧
        ∃ bound, (context.resolve bound object field).run = some (.ok called) := by
  refine and_congr_right fun _ => ?_
  constructor
  · rintro ⟨definition, arguments, bound, h⟩
    exact ⟨bound, resolve_eq_ok_iff.mpr ⟨definition, arguments, h⟩⟩
  · rintro ⟨bound, h⟩
    obtain ⟨definition, arguments, h⟩ := resolve_eq_ok_iff.mp h
    exact ⟨definition, arguments, bound, h⟩

theorem Resolves.unique {field : Field} {called other : ResolvedField ref}
    (h : context.Resolves object field called) (h' : context.Resolves object field other) :
    called = other := by
  obtain ⟨-, bound, h⟩ := resolves_iff.mp h
  obtain ⟨-, bound', h'⟩ := resolves_iff.mp h'
  exact Except.ok.inj (resolve_unique h h')

/-- A field whose resolver is called does what the node takes that the resolver answers, and notes
    the call before. -/
theorem executeField_of_resolves {called : ResolvedField ref} {bound start : Nat}
    {timed : Timed Outcome} (hcalled : context.Resolves object collected.field called)
    (h : context.executeField bound object collected path start = some timed) :
    ∃ below first, context.completeNode below called.type called.node collected path start =
        some first ∧ timed = first.note (callRecord path collected.field called start) := by
  cases bound with
  | zero => cases h
  | succ bound =>
    obtain ⟨hname, other, hother⟩ := resolves_iff.mp hcalled
    simp only [executeField, hname, ite_false] at h
    cases hr : (context.resolve bound object collected.field).run with
    | none => simp [hr, Job.unfinished] at h
    | some result =>
      obtain rfl := resolve_unique hr hother
      simp only [hr, Job.noting_eq_some_iff] at h
      obtain ⟨first, hfirst, rfl⟩ := h
      exact ⟨bound, first, hfirst, rfl⟩

/-! ## What is due -/

theorem due_iff {place : Path × Place ref} :
    context.Due place activity ↔
      context.Demands place activity ∨
        ∃ next, context.Leads place next ∧ context.Due next activity := by
  constructor
  · rintro ⟨reached, hreach, hdemands⟩
    rcases hreach.cases_head with rfl | ⟨next, hnext, hrest⟩
    · exact .inl hdemands
    · exact .inr ⟨next, hnext, reached, hrest, hdemands⟩
  · rintro (hdemands | ⟨next, hnext, reached, hrest, hdemands⟩)
    · exact ⟨place, .refl, hdemands⟩
    · exact ⟨reached, .head hnext hrest, hdemands⟩

theorem due_object_iff {selections : List Selection} :
    context.Due (path, .object object selections) activity ↔
      ∃ entry ∈ collect (context.scope (some object.name)) selections,
        context.Due (path.join (.key entry.1), .field object entry.2) activity := by
  rw [due_iff]
  constructor
  · rintro (hdemands | ⟨next, hleads, hdue⟩)
    · cases hdemands
    · cases hleads with
      | select hm => exact ⟨_, hm, hdue⟩
  · rintro ⟨entry, hm, hdue⟩
    exact .inr ⟨_, .select hm, hdue⟩

theorem due_field_iff {called : ResolvedField ref}
    (h : context.Resolves object collected.field called) :
    context.Due (path, .field object collected) activity ↔
      activity = .call path collected.field.name called.arguments ∨
        context.Due (path, .node called.node collected) activity := by
  rw [due_iff]
  constructor
  · rintro (hdemands | ⟨next, hleads, hdue⟩)
    · cases hdemands with
      | call hc => exact .inl (by rw [hc.unique h])
    · cases hleads with
      | resolve hc => exact .inr (hc.unique h ▸ hdue)
  · rintro (rfl | hdue)
    · exact .inl (.call h)
    · exact .inr ⟨_, .resolve h, hdue⟩

theorem not_due_field (h : ∀ called, ¬ context.Resolves object collected.field called) :
    ¬ context.Due (path, .field object collected) activity := by
  rw [due_iff]
  rintro (hdemands | ⟨next, hleads, hdue⟩)
  · cases hdemands with
    | call hc => exact h _ hc
  · cases hleads with
    | resolve hc => exact h _ hc

theorem due_ready_iff {label : Option String} {value : Resolved ref} :
    context.Due (path, .node (.ready label value) collected) activity ↔
      context.Due (path, .value value collected) activity := by
  rw [due_iff]
  constructor
  · rintro (hdemands | ⟨next, hleads, hdue⟩)
    · cases hdemands
    · cases hleads
      exact hdue
  · intro hdue
    exact .inr ⟨_, .ready, hdue⟩

theorem due_effect_iff {label : Option String} {delay : Nat}
    {outcome : Except String (Resolved ref)} :
    context.Due (path, .node (.effect label delay outcome) collected) activity ↔
      activity = .effect path label delay ∨
        ∃ value, outcome = .ok value ∧ context.Due (path, .value value collected) activity := by
  rw [due_iff]
  constructor
  · rintro (hdemands | ⟨next, hleads, hdue⟩)
    · cases hdemands
      exact .inl rfl
    · cases hleads
      exact .inr ⟨_, rfl, hdue⟩
  · rintro (rfl | ⟨value, rfl, hdue⟩)
    · exact .inl .effect
    · exact .inr ⟨_, .effect, hdue⟩

theorem not_due_stream {source : Source ref} :
    ¬ context.Due (path, .node (.stream source) collected) activity := by
  rw [due_iff]
  rintro (hdemands | ⟨next, hleads, hdue⟩)
  · cases hdemands
  · cases hleads

theorem not_due_leaf {value : Value} :
    ¬ context.Due (path, .value (.leaf value) collected) activity := by
  rw [due_iff]
  rintro (hdemands | ⟨next, hleads, hdue⟩)
  · cases hdemands
  · cases hleads

theorem due_reference_iff {reference : ref} :
    context.Due (path, .value (.object reference) collected) activity ↔
      collected.isComposite = true ∧
        context.Due (path, .object (context.objects reference) collected.selections) activity := by
  rw [due_iff]
  constructor
  · rintro (hdemands | ⟨next, hleads, hdue⟩)
    · cases hdemands
    · cases hleads with
      | object hc => exact ⟨hc, hdue⟩
  · rintro ⟨hc, hdue⟩
    exact .inr ⟨_, .object hc, hdue⟩

theorem due_list_iff {items : List (Node ref)} :
    context.Due (path, .value (.list items) collected) activity ↔
      ∃ entry ∈ items.zipIdx,
        context.Due (path.join (.index entry.2), .node entry.1 collected) activity := by
  rw [due_iff]
  constructor
  · rintro (hdemands | ⟨next, hleads, hdue⟩)
    · cases hdemands
    · cases hleads with
      | @item _ _ node i _ hget => exact ⟨(node, i), List.mem_zipIdx_iff_getElem?.mpr hget, hdue⟩
  · rintro ⟨entry, hm, hdue⟩
    exact .inr ⟨_, .item (List.mem_zipIdx_iff_getElem?.mp hm), hdue⟩

/-! ## Where it is due -/

theorem Leads.under {place next : Path × Place ref} (h : context.Leads place next) :
    place.1.Under next.1 := by
  cases h with
  | select | item => exact Path.Under.of_join (.refl _)
  | resolve | ready | effect | object => exact .refl _

theorem under_of_reaches {place reached : Path × Place ref}
    (h : ReflTransGen context.Leads place reached) : place.1.Under reached.1 := by
  induction h with
  | refl => exact .refl _
  | tail _ hleads ih => exact ih.trans hleads.under

theorem Demands.path_eq {place : Path × Place ref} (h : context.Demands place activity) :
    activity.path = place.1 := by
  cases h <;> rfl

/-- What is due in completing a thing takes place at or under its path. -/
theorem Due.under {place : Path × Place ref} (h : context.Due place activity) :
    place.1.Under activity.path := by
  obtain ⟨reached, hreach, hdemands⟩ := h
  rw [hdemands.path_eq]
  exact under_of_reaches hreach

/-- Nothing is due at the path of a value itself. -/
theorem Due.ne_of_value {value : Resolved ref}
    (h : context.Due (path, .value value collected) activity) : activity.path ≠ path := by
  cases value with
  | leaf value => exact absurd h not_due_leaf
  | object reference =>
    obtain ⟨entry, -, hdue⟩ := due_object_iff.mp (due_reference_iff.mp h).2
    exact hdue.under.ne_of_join
  | list items =>
    obtain ⟨entry, -, hdue⟩ := due_list_iff.mp h
    exact hdue.under.ne_of_join

/-- No call is due at the path of a node itself. -/
theorem Due.ne_of_node {node : Node ref} {below : Path} {field : String} {arguments : Fields}
    (h : context.Due (path, .node node collected) (.call below field arguments)) :
    below ≠ path := by
  cases node with
  | ready label value => exact (due_ready_iff.mp h).ne_of_value
  | effect label delay outcome =>
    rcases due_effect_iff.mp h with heq | ⟨value, -, hdue⟩
    · cases heq
    · exact hdue.ne_of_value
  | stream source => exact absurd h not_due_stream

/-! ## Records that do what is due -/

/-- The calls and effects in the record are those that are due, each of them once. -/
structure Accounts (context : Context ref) (place : Path × Place ref) (record : List Occurrence) :
    Prop where
  complete : ∀ activity, activity ∈ activities record ↔ context.Due place activity
  once : (activities record).Pairwise fun a b => ¬ a.Repeats b

namespace Accounts

variable {place next : Path × Place ref} {record : List Occurrence}

theorem nothing (hrecord : activities record = []) (h : ∀ activity, ¬ context.Due place activity) :
    context.Accounts place record := by
  refine ⟨fun activity => ?_, ?_⟩
  · rw [hrecord]
    exact iff_of_false List.not_mem_nil (h activity)
  · rw [hrecord]
    exact .nil

theorem of_due_iff (hdue : ∀ activity, context.Due place activity ↔ context.Due next activity)
    (h : context.Accounts next record) : context.Accounts place record :=
  ⟨fun activity => (h.complete activity).trans (hdue activity).symm, h.once⟩

theorem single {own : Activity} (hown : activities record = [own])
    (hdue : ∀ activity, context.Due place activity ↔ activity = own) :
    context.Accounts place record := by
  refine ⟨fun activity => ?_, ?_⟩
  · rw [hown, List.mem_singleton, hdue activity]
  · rw [hown]
    exact List.pairwise_singleton _ _

/-- Something is done first and not repeated by what is due next. -/
theorem first {own : Activity} {occurrences : List Occurrence}
    (hown : activities occurrences = [own])
    (hdue : ∀ activity, context.Due place activity ↔
      activity = own ∨ context.Due next activity)
    (hnew : ∀ activity, context.Due next activity → ¬ own.Repeats activity)
    (h : context.Accounts next record) : context.Accounts place (occurrences ++ record) := by
  refine ⟨fun activity => ?_, ?_⟩
  · rw [activities_append, hown, List.singleton_append, List.mem_cons, h.complete activity,
      hdue activity]
  · rw [activities_append, hown, List.singleton_append, List.pairwise_cons]
    exact ⟨fun activity hm => hnew activity ((h.complete activity).mp hm), h.once⟩

/-- Siblings stand at different steps from one path, so none does what another does. -/
theorem siblings {ι α : Type} {items : List ι} {runs : List (Timed α)}
    (segment : ι → Path.Segment) (below : ι → Place ref)
    (hruns : List.Forall₂ (fun item run =>
      context.Accounts (path.join (segment item), below item) run.record) items runs)
    (hnodup : (items.map segment).Nodup) :
    (∀ activity, activity ∈ activities (runs.flatMap Timed.record) ↔
      ∃ item ∈ items, context.Due (path.join (segment item), below item) activity) ∧
    (activities (runs.flatMap Timed.record)).Pairwise fun a b => ¬ a.Repeats b := by
  induction hruns with
  | nil => exact ⟨by simp [activities], .nil⟩
  | @cons item run items runs hrun _ ih =>
    obtain ⟨hhead, htail⟩ := List.nodup_cons.mp hnodup
    obtain ⟨hcomplete, honce⟩ := ih htail
    rw [List.flatMap_cons, activities_append]
    refine ⟨fun activity => ?_, List.pairwise_append.mpr ⟨hrun.once, honce, ?_⟩⟩
    · rw [List.mem_append, hrun.complete activity, hcomplete activity]
      simp only [List.mem_cons, exists_eq_or_imp]
    · intro a ha b hb hrepeats
      obtain ⟨other, hother, hdue⟩ := (hcomplete b).mp hb
      have hunder := ((hrun.complete a).mp ha).under
      have hunder' := hdue.under
      rw [← hrepeats.path_eq] at hunder'
      exact hhead (List.mem_map.mpr ⟨other, hother, hunder'.join_inj hunder⟩)

end Accounts

/-! ## Executions -/

/-- All kinds of work do what is due. -/
def accounting (context : Context ref) : Property ref where
  value _ value collected path _ timed :=
    context.Accounts (path, .value value collected) timed.record
  node _ node collected path _ timed :=
    context.Accounts (path, .node node collected) timed.record
  field object collected path _ timed :=
    context.Accounts (path, .field object collected) timed.record
  fields _ object path selections _ timed :=
    context.Accounts (path, .object object selections) timed.record

theorem accounts_list {type : TypeRef} {items : List (Node ref)} {start : Nat} {slots : List Nat}
    {timed : Timed (List Outcome)}
    (h : Window.Runs (fun entry => (accounting context).node type entry.1 collected
      (path.join (.index entry.2))) start slots items.zipIdx timed) :
    context.Accounts (path, .value (.list items) collected) timed.record := by
  obtain ⟨runs, hruns, -, hrecord⟩ := h.results
  obtain ⟨hcomplete, honce⟩ := Accounts.siblings (fun entry => .index entry.2)
    (fun entry => .node entry.1 collected) (hruns.imp fun entry run ⟨_, hrun⟩ => hrun)
    (Path.nodup_index_segments items)
  rw [hrecord]
  exact ⟨fun activity => (hcomplete activity).trans due_list_iff.symm, honce⟩

theorem accounts_fields {selections : List Selection} {start : Nat} {slots : List Nat}
    {timed : Timed Outcomes}
    (h : Window.Runs (fun entry start run => ∃ outcome,
        (accounting context).field object entry.2 (path.join (.key entry.1)) start outcome ∧
          run = outcome.map fun outcome => (entry.1, outcome))
      start slots (collect (context.scope (some object.name)) selections) timed) :
    context.Accounts (path, .object object selections) timed.record := by
  obtain ⟨runs, hruns, -, hrecord⟩ := h.results
  have haccounts : List.Forall₂ (fun (entry : String × CollectedField) run =>
      context.Accounts (path.join (.key entry.1), .field object entry.2) run.record)
      (collect (context.scope (some object.name)) selections) runs := by
    refine hruns.imp fun entry run hrun => ?_
    obtain ⟨_, outcome, houtcome, rfl⟩ := hrun
    exact houtcome
  obtain ⟨hcomplete, honce⟩ := Accounts.siblings
    (fun entry : String × CollectedField => .key entry.1)
    (fun entry => .field object entry.2) haccounts
    (Path.nodup_key_segments (nodup_keys_collect _ _))
  rw [hrecord]
  exact ⟨fun activity => (hcomplete activity).trans due_object_iff.symm, honce⟩

/-- Every step of an execution does what is due. -/
theorem accountRules (context : Context ref) : context.Rules (accounting context) where
  picked _ := .nothing rfl fun _ => not_due_leaf
  leaf _ := .nothing rfl fun _ => not_due_leaf
  object hc h := h.of_due_iff fun _ =>
    due_reference_iff.trans (and_iff_right hc)
  unselected hc := .nothing rfl fun _ hdue => by
    have := (due_reference_iff.mp hdue).1
    rw [hc] at this
    cases this
  list h := accounts_list h
  ready h := h.of_due_iff fun _ => due_ready_iff
  effect h := by
    refine .first (activities_ran _ _ _ _) (fun activity => ?_) ?_ h
    · refine due_effect_iff.trans (or_congr_right ⟨?_, fun hdue => ⟨_, rfl, hdue⟩⟩)
      rintro ⟨_, ⟨⟩, hdue⟩
      exact hdue
    · intro activity hdue hrepeats
      exact hdue.ne_of_value hrepeats.path_eq.symm
  failed := by
    refine .single (activities_ran _ _ _ _) fun activity => ?_
    refine due_effect_iff.trans (or_iff_left ?_)
    rintro ⟨_, ⟨⟩, -⟩
  stream := .nothing rfl fun _ => not_due_stream
  typename ht := .nothing rfl fun _ => not_due_field fun _ h => h.1 ht
  unresolved _ he := .nothing rfl fun _ => not_due_field fun called h => by
    obtain ⟨-, bound, h⟩ := resolves_iff.mp h
    cases resolve_unique he h
  resolved ht hr h := by
    refine .first (activities_callRecord _ _ _ _)
      (fun _ => due_field_iff (resolves_iff.mpr ⟨ht, _, hr⟩)) ?_ h
    rintro (_ | _) hdue hrepeats
    · exact hdue.ne_of_node (Eq.symm hrepeats)
    · cases hrepeats
  fields h := accounts_fields h

/-! ## Responses -/

variable {start : Path} {root : ObjectType ref} {selected : List Selection}

/-- A call is due where a declared field with good arguments is collected on an object. -/
theorem due_call_iff {field : String} {arguments : Fields} :
    context.Due (start, .object root selected) (.call path field arguments) ↔
      ∃ above object selections key collected definition bound,
        ReflTransGen context.Leads (start, .object root selected)
          (above, .object object selections) ∧
        (key, collected) ∈ collect (context.scope (some object.name)) selections ∧
        path = above.join (.key key) ∧
        collected.field.name = field ∧ field ≠ typenameField ∧
        object.field? field = some definition ∧
        (coerceArguments context.types context.bindings bound definition.resolver.arguments
          collected.field).run = some (.ok arguments) := by
  constructor
  · rintro ⟨reached, hreach, hdemands⟩
    cases hdemands with
    | call hresolves =>
      -- The root is an object, so a field is only reached by selecting it.
      cases hreach with
      | tail hreach hleads =>
        cases hleads with
        | select hm =>
          obtain ⟨hname, definition, arguments, bound, hfield, harguments, rfl⟩ := hresolves
          exact ⟨_, _, _, _, _, definition, bound, hreach, hm, rfl, rfl, hname, hfield,
            harguments⟩
  · rintro ⟨above, object, selections, key, collected, definition, bound, hreach, hm, rfl, rfl,
      hname, hfield, harguments⟩
    have hresolves : context.Resolves object collected.field
        ⟨definition.type, arguments, definition.resolver.call arguments⟩ :=
      ⟨hname, definition, arguments, bound, hfield, harguments, rfl⟩
    exact ⟨_, hreach.tail (.select hm), .call hresolves⟩

theorem due_effect_at_iff {label : Option String} {delay : Nat} {place : Path × Place ref} :
    context.Due place (.effect path label delay) ↔
      ∃ outcome collected, ReflTransGen context.Leads place
        (path, .node (.effect label delay outcome) collected) := by
  constructor
  · rintro ⟨reached, hreach, hdemands⟩
    cases hdemands with
    | effect => exact ⟨_, _, hreach⟩
  · rintro ⟨outcome, collected, hreach⟩
    exact ⟨_, hreach, .effect⟩

end Context

theorem mem_activities_call {record : List Occurrence} {path : Path} {field : String}
    {arguments : Fields} :
    .call path field arguments ∈ activities record ↔
      ∃ time, .called path field arguments time ∈ record := by
  rw [activities, List.mem_filterMap]
  constructor
  · rintro ⟨o, ho, hactivity⟩
    cases o with
    | called _ _ _ time => cases hactivity; exact ⟨time, ho⟩
    | ran => cases hactivity
    | made | pulled | released => cases hactivity
  · rintro ⟨time, ho⟩
    exact ⟨_, ho, rfl⟩

theorem mem_activities_effect {record : List Occurrence} {path : Path} {label : Option String}
    {delay : Nat} (h : ∀ o ∈ record, o.start ≤ o.finish) :
    .effect path label delay ∈ activities record ↔
      ∃ time, .ran path label time (time + delay) ∈ record := by
  rw [activities, List.mem_filterMap]
  constructor
  · rintro ⟨o, ho, hactivity⟩
    cases o with
    | ran _ _ start finish =>
      cases hactivity
      have hle : start ≤ finish := h _ ho
      refine ⟨start, ?_⟩
      rwa [Nat.add_sub_of_le hle]
    | called => cases hactivity
    | made | pulled | released => cases hactivity
  · rintro ⟨time, ho⟩
    refine ⟨_, ho, ?_⟩
    show some (Activity.effect path label (time + delay - time)) = _
    rw [Nat.add_sub_cancel_left]

/-- A query or mutation calls a resolver for every key that is collected on an object which it
    completes, if the object declares the field and its arguments can be coerced, and it runs every
    effect that it comes to. It calls nothing else and runs nothing else, and it does nothing of
    this twice. -/
theorem resolver_calls {service : Service ref} {objects : ref → ObjectType ref}
    {bound start finish : Nat} {document : ExecutableDocument} {name : Option String}
    {bindings : Variables} {response : Response Error} {record : List Occurrence}
    (h : service.executeDocument objects bound document name bindings start =
      some ⟨.ok (.response response), finish, record⟩) :
    ∃ operation root, service.Selects document name operation root ∧
      let context := service.context objects document (operation.complete bindings)
      let Reached := fun path place =>
        ReflTransGen context.Leads (Path.root, .object root operation.selections) (path, place)
      (∀ path field arguments, (∃ time, .called path field arguments time ∈ record) ↔
        ∃ above object selections key collected definition bound,
          Reached above (.object object selections) ∧
          (key, collected) ∈ collect (context.scope (some object.name)) selections ∧
          path = above.join (.key key) ∧
          collected.field.name = field ∧ field ≠ typenameField ∧
          object.field? field = some definition ∧
          (coerceArguments context.types context.bindings bound definition.resolver.arguments
            collected.field).run = some (.ok arguments)) ∧
      (∀ path label delay, (∃ time, .ran path label time (time + delay) ∈ record) ↔
        ∃ outcome collected, Reached path (.node (.effect label delay outcome) collected)) ∧
      (activities record).Pairwise fun a b => ¬ a.Repeats b := by
  obtain ⟨operation, root, outcomes, hselects, hrun, rfl⟩ :=
    Service.executeDocument_eq_response_iff.mp h
  have haccounts := ((Context.accountRules _).holds bound).fields hrun
  have hconfined := ((confinedRules _).holds bound).fields hrun
  refine ⟨operation, root, hselects, ?_, ?_, haccounts.once⟩
  · intro path field arguments
    rw [← mem_activities_call]
    exact (haccounts.complete _).trans Context.due_call_iff
  · intro path label delay
    rw [← mem_activities_effect fun o ho => (hconfined.record o ho).2.1]
    exact (haccounts.complete _).trans Context.due_effect_at_iff

/-- The ship is asked for twice but called and run once. The stream in the fleet is given up. -/
theorem resolver_calls_sample :
    ∃ record : List Occurrence,
      (activities record).map Activity.path =
        [⟨[.key "ship"]⟩, ⟨[.key "ship"]⟩,
          ⟨[.key "ship", .key "name"]⟩, ⟨[.key "ship", .key "name"]⟩,
          ⟨[.key "ship", .key "fuel"]⟩, ⟨[.key "ship", .key "fuel"]⟩,
          ⟨[.key "fleet"]⟩, ⟨[.key "fleet", .index 0]⟩,
          ⟨[.key "fleet", .index 0, .key "fuel"]⟩, ⟨[.key "fleet", .index 0, .key "fuel"]⟩] ∧
      (activities record).Pairwise fun a b => ¬ a.Repeats b := by
  have hrun : ((Sample.service 3 2).executeRoot (fun _ => Sample.ship 3) 20
      (Sample.document .query) (Sample.operation .query) (Sample.root 3) [] 0).map
        (fun timed => (activities timed.record).map Activity.path) =
      some [⟨[.key "ship"]⟩, ⟨[.key "ship"]⟩,
        ⟨[.key "ship", .key "name"]⟩, ⟨[.key "ship", .key "name"]⟩,
        ⟨[.key "ship", .key "fuel"]⟩, ⟨[.key "ship", .key "fuel"]⟩,
        ⟨[.key "fleet"]⟩, ⟨[.key "fleet", .index 0]⟩,
        ⟨[.key "fleet", .index 0, .key "fuel"]⟩, ⟨[.key "fleet", .index 0, .key "fuel"]⟩] := by
    decide +kernel
  obtain ⟨⟨outcomes, finish, record⟩, hroot, hpaths⟩ := Option.map_eq_some_iff.mp hrun
  have h := Service.executeDocument_eq_response_iff.mpr
    ⟨_, _, outcomes, Sample.selects_query 3 2, hroot, rfl⟩
  obtain ⟨_, _, _, _, _, honce⟩ := resolver_calls h
  exact ⟨record, hpaths, honce⟩

end GraphQL

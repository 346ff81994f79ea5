import GraphQL.Execution.Completion
import GraphQL.Proofs.Window

/-!
# Rules of execution

What the steps of an execution that ended can have been. A `Property` says something of each of the
four kinds of work: completing a value, completing a node, executing a field and executing the
fields of an object. `Context.Rules` lists the steps; a property that every step keeps holds of all
that an execution does, whatever the bound on the recursion was.

Results:
* `Rules.holds`: a property that every step keeps holds of whatever ended.
* `resolve_eq_ok_iff`: when a field is resolved, and to what.
-/

namespace GraphQL

/-- Something that is said of the work of an execution, of its start and of how it ended. -/
structure Property (ref : Type) where
  value : TypeRef → Resolved ref → CollectedField → Path → Nat → Timed Outcome → Prop
  node : TypeRef → Node ref → CollectedField → Path → Nat → Timed Outcome → Prop
  field : ObjectType ref → CollectedField → Path → Nat → Timed Outcome → Prop
  fields : Nat → ObjectType ref → Path → List Selection → Nat → Timed Outcomes → Prop

namespace Context

variable {ref : Type}

/-- The property is kept by every step of an execution. -/
structure Rules (context : Context ref) (property : Property ref) : Prop where
  /-- A value from which the selection picks. -/
  picked {type : TypeRef} {value : Value} {collected : CollectedField} {path : Path} {start : Nat} :
    collected.isComposite = true →
    property.value type (.leaf value) collected path start
      ⟨⟨(Record.pick (context.scope none) value type.innerName? collected.selections path).value,
        (Record.pick (context.scope none) value type.innerName? collected.selections path).errors,
        false⟩, start, []⟩
  /-- A leaf. -/
  leaf {type : TypeRef} {value : Value} {collected : CollectedField} {path : Path} {start : Nat} :
    collected.isComposite = false →
    property.value type (.leaf value) collected path start
      ⟨⟨completeLeaf context.types type value, [], false⟩, start, []⟩
  /-- An object of which fields are selected. -/
  object {type : TypeRef} {reference : ref} {collected : CollectedField} {path : Path}
      {start : Nat} {timed : Timed Outcomes} :
    collected.isComposite = true →
    property.fields context.window (context.objects reference) path collected.selections start
      timed →
    property.value type (.object reference) collected path start (timed.map Outcomes.toOutcome)
  /-- An object of which no fields are selected. -/
  unselected {type : TypeRef} {reference : ref} {collected : CollectedField} {path : Path}
      {start : Nat} :
    collected.isComposite = false →
    property.value type (.object reference) collected path start
      ⟨.failure (.missingSelection collected.field.name (context.objects reference).name)
        collected.field path, start, []⟩
  /-- A list, the items of which run in a window. -/
  list {type : TypeRef} {items : List (Node ref)} {collected : CollectedField} {path : Path}
      {start : Nat} {timed : Timed (List Outcome)} :
    Window.Runs (fun entry => property.node (type.itemType?.getD type) entry.1 collected
        (path.join (.index entry.2)))
      start (Window.slots context.window items.zipIdx.length start) items.zipIdx timed →
    property.value type (.list items) collected path start (timed.map Outcome.ofItems)
  /-- A node that holds its value. -/
  ready {type : TypeRef} {label : Option String} {value : Resolved ref}
      {collected : CollectedField} {path : Path} {start : Nat} {timed : Timed Outcome} :
    property.value type value collected path start timed →
    property.node type (.ready label value) collected path start timed
  /-- An effect that gives a value. -/
  effect {type : TypeRef} {label : Option String} {delay : Nat} {value : Resolved ref}
      {collected : CollectedField} {path : Path} {start : Nat} {timed : Timed Outcome} :
    property.value type value collected path (start + delay) timed →
    property.node type (.effect label delay (.ok value)) collected path start
      (timed.note [.ran path label start (start + delay)])
  /-- An effect that fails. -/
  failed {type : TypeRef} {label : Option String} {delay : Nat} {cause : String}
      {collected : CollectedField} {path : Path} {start : Nat} :
    property.node type (.effect label delay (.error cause)) collected path start
      ⟨.failure (.effectFailed cause) collected.field path, start + delay,
        [.ran path label start (start + delay)]⟩
  /-- A stream where none is allowed. -/
  stream {type : TypeRef} {source : Source ref} {collected : CollectedField} {path : Path}
      {start : Nat} :
    property.node type (.stream source) collected path start
      ⟨.failure (.streamNotAllowed collected.field.name) collected.field path, start,
        releaseRecord path source.parts start⟩
  /-- The field that asks for the type of the object. -/
  typename {object : ObjectType ref} {collected : CollectedField} {path : Path} {start : Nat} :
    collected.field.name = typenameField →
    property.field object collected path start ⟨⟨.string object.name, [], false⟩, start, []⟩
  /-- A field that cannot be resolved. -/
  unresolved {object : ObjectType ref} {collected : CollectedField} {path : Path} {start : Nat}
      {bound : Nat} {error : FieldError} :
    collected.field.name ≠ typenameField →
    (context.resolve bound object collected.field).run = some (.error error) →
    property.field object collected path start
      ⟨.failure error collected.field path, start, []⟩
  /-- A field whose resolver is called. -/
  resolved {object : ObjectType ref} {collected : CollectedField} {path : Path} {start : Nat}
      {bound : Nat} {called : ResolvedField ref} {timed : Timed Outcome} :
    collected.field.name ≠ typenameField →
    (context.resolve bound object collected.field).run = some (.ok called) →
    property.node called.type called.node collected path start timed →
    property.field object collected path start
      (timed.note (callRecord path collected.field called start))
  /-- The fields of an object, which run in a window. -/
  fields {width : Nat} {object : ObjectType ref} {path : Path} {selections : List Selection}
      {start : Nat} {timed : Timed Outcomes} :
    Window.Runs (fun entry start run => ∃ outcome,
        property.field object entry.2 (path.join (.key entry.1)) start outcome ∧
          run = outcome.map fun outcome => (entry.1, outcome))
      start (Window.slots width
        (collect (context.scope (some object.name)) selections).length start)
      (collect (context.scope (some object.name)) selections) timed →
    property.fields width object path selections start timed

/-- The property holds of all work that ends within the bound. -/
structure Holds (context : Context ref) (property : Property ref) (bound : Nat) : Prop where
  value {type : TypeRef} {value : Resolved ref} {collected : CollectedField} {path : Path}
      {start : Nat} {timed : Timed Outcome} :
    context.completeValue bound type value collected path start = some timed →
    property.value type value collected path start timed
  node {type : TypeRef} {node : Node ref} {collected : CollectedField} {path : Path}
      {start : Nat} {timed : Timed Outcome} :
    context.completeNode bound type node collected path start = some timed →
    property.node type node collected path start timed
  field {object : ObjectType ref} {collected : CollectedField} {path : Path} {start : Nat}
      {timed : Timed Outcome} :
    context.executeField bound object collected path start = some timed →
    property.field object collected path start timed
  fields {width : Nat} {object : ObjectType ref} {path : Path} {selections : List Selection}
      {start : Nat} {timed : Timed Outcomes} :
    context.executeFields bound width object path selections start = some timed →
    property.fields width object path selections start timed

namespace Rules

variable {context : Context ref} {property : Property ref} {bound start : Nat}

theorem value_succ (rules : context.Rules property) (below : context.Holds property bound)
    {type : TypeRef} {value : Resolved ref} {collected : CollectedField} {path : Path}
    {timed : Timed Outcome}
    (h : context.completeValue (bound + 1) type value collected path start = some timed) :
    property.value type value collected path start timed := by
  cases value with
  | leaf value =>
    by_cases hc : collected.isComposite = true
    · simp only [Context.completeValue, hc, ite_true, Job.done_eq_some_iff] at h
      subst h; exact rules.picked hc
    · rw [Bool.not_eq_true] at hc
      simp only [Context.completeValue, hc, Bool.false_eq_true, ite_false,
        Job.done_eq_some_iff] at h
      subst h; exact rules.leaf hc
  | object reference =>
    by_cases hc : collected.isComposite = true
    · simp only [Context.completeValue, hc, ite_true, Job.map_eq_some_iff] at h
      obtain ⟨first, hfirst, rfl⟩ := h
      exact rules.object hc (below.fields hfirst)
    · rw [Bool.not_eq_true] at hc
      simp only [Context.completeValue, hc, Bool.false_eq_true, ite_false,
        Job.done_eq_some_iff] at h
      subst h; exact rules.unselected hc
  | list items =>
    simp only [Context.completeValue, Job.map_eq_some_iff, Window.run_eq_some_iff] at h
    obtain ⟨first, hfirst, rfl⟩ := h
    exact rules.list (hfirst.imp fun entry _ start run hrun => below.node hrun)

theorem node_succ (rules : context.Rules property) (below : context.Holds property bound)
    {type : TypeRef} {node : Node ref} {collected : CollectedField} {path : Path}
    {timed : Timed Outcome}
    (h : context.completeNode (bound + 1) type node collected path start = some timed) :
    property.node type node collected path start timed := by
  cases node with
  | ready label value => exact rules.ready (below.value h)
  | effect label delay outcome =>
    simp only [Context.completeNode, Job.noting_eq_some_iff, Job.after] at h
    obtain ⟨first, hfirst, rfl⟩ := h
    cases outcome with
    | ok value => exact rules.effect (below.value hfirst)
    | error cause =>
      rw [Job.done_eq_some_iff] at hfirst
      subst hfirst; exact rules.failed
  | stream source =>
    simp only [Context.completeNode, Job.noting_eq_some_iff, Job.done_eq_some_iff] at h
    obtain ⟨first, rfl, rfl⟩ := h
    rw [← List.append_nil (releaseRecord path source.parts start)]
    exact rules.stream

theorem field_succ (rules : context.Rules property) (below : context.Holds property bound)
    {object : ObjectType ref} {collected : CollectedField} {path : Path} {timed : Timed Outcome}
    (h : context.executeField (bound + 1) object collected path start = some timed) :
    property.field object collected path start timed := by
  by_cases ht : collected.field.name = typenameField
  · simp only [Context.executeField, ht, ite_true, Job.done_eq_some_iff] at h
    subst h; exact rules.typename ht
  · simp only [Context.executeField, ht, ite_false] at h
    cases hr : (context.resolve bound object collected.field).run with
    | none => simp [hr, Job.unfinished] at h
    | some result =>
      cases result with
      | error error =>
        simp only [hr, Job.done_eq_some_iff] at h
        subst h; exact rules.unresolved ht hr
      | ok called =>
        simp only [hr, Job.noting_eq_some_iff] at h
        obtain ⟨first, hfirst, rfl⟩ := h
        exact rules.resolved ht hr (below.node hfirst)

theorem fields_succ (rules : context.Rules property) (below : context.Holds property bound)
    {width : Nat} {object : ObjectType ref} {path : Path} {selections : List Selection}
    {timed : Timed Outcomes}
    (h : context.executeFields (bound + 1) width object path selections start = some timed) :
    property.fields width object path selections start timed := by
  simp only [Context.executeFields, Window.run_eq_some_iff] at h
  refine rules.fields (h.imp fun entry _ start run hrun => ?_)
  obtain ⟨outcome, houtcome, rfl⟩ := Job.map_eq_some_iff.mp hrun
  exact ⟨outcome, below.field houtcome, rfl⟩

/-- A property that every step keeps holds of all that ends. -/
theorem holds (rules : context.Rules property) (bound : Nat) : context.Holds property bound := by
  induction bound with
  | zero =>
    constructor <;> intros <;>
      simp_all [Context.completeValue, Context.completeNode, Context.executeField,
        Context.executeFields, Job.unfinished]
  | succ bound below =>
    exact ⟨rules.value_succ below, rules.node_succ below, rules.field_succ below,
      rules.fields_succ below⟩

end Rules

/-- A field is resolved if the object declares it and its arguments can be coerced. -/
theorem resolve_eq_ok_iff {context : Context ref} {bound : Nat} {object : ObjectType ref}
    {field : Field} {called : ResolvedField ref} :
    (context.resolve bound object field).run = some (.ok called) ↔
      ∃ definition arguments, object.field? field.name = some definition ∧
        (coerceArguments context.types context.bindings bound definition.resolver.arguments
          field).run = some (.ok arguments) ∧
        called = ⟨definition.type, arguments, definition.resolver.call arguments⟩ := by
  cases hd : object.field? field.name with
  | none => simp [resolve, hd, throw, throwThe, MonadExceptOf.throw, ExceptT.run, ExceptT.mk, pure]
  | some definition =>
    rw [resolve, hd]
    show Option.map _ (coerceArguments _ _ _ _ _).run = some (Except.ok called) ↔ _
    rw [Option.map_eq_some_iff]
    constructor
    · rintro ⟨result, hresult, he⟩
      rcases result with ⟨argument, reason⟩ | arguments
      · cases he
      · cases he; exact ⟨definition, arguments, rfl, hresult, rfl⟩
    · rintro ⟨_, arguments, ⟨⟩, harguments, rfl⟩
      exact ⟨.ok arguments, harguments, rfl⟩

end Context

end GraphQL

import GraphQL.Proofs.Finishing
import GraphQL.Proofs.ResolverCalls
import GraphQL.Proofs.Sources

/-!
# Starting a subscription

A subscription starts with one field of the root object. A field that cannot be resolved
(`Context.Unresolved`) fails the only response and not the request, and whether a field is a stream
only shows in what its resolver answers. `Context.Begins` lists the ways in which a subscription
starts, each with what is noted then.

Results:
* `Context.begins_of_subscribe`, `Context.Begins.subscribe`: a subscription starts in these ways, and
  in no other.
* `Context.exists_begins`: with closed variables it does start.
* `Context.Begins.noted`: what is noted of a subscription that is no stream.
-/

namespace GraphQL

variable {ref : Type}

/-! ## Fields that cannot be resolved -/

namespace Context

variable {context : Context ref} {object : ObjectType ref} {field : Field} {error : FieldError}

/-- The object does not declare the field, or its arguments cannot be coerced. -/
inductive Unresolved (context : Context ref) (object : ObjectType ref) (field : Field) :
    FieldError → Prop
  | undeclared :
      object.field? field.name = none →
      Unresolved context object field (.unknownField field.name object.name)
  | arguments {definition : FieldDefinition ref} {bound : Nat} {argument : String}
      {reason : CoercionError} :
      object.field? field.name = some definition →
      (coerceArguments context.types context.bindings bound definition.resolver.arguments
        field).run = some (.error (argument, reason)) →
      Unresolved context object field (.invalidArgument argument reason)

theorem resolve_of_undeclared (h : object.field? field.name = none) (bound : Nat) :
    (context.resolve bound object field).run =
      some (.error (.unknownField field.name object.name)) := by
  rw [resolve, h]
  rfl

theorem unresolved_iff :
    context.Unresolved object field error ↔
      ∃ bound, (context.resolve bound object field).run = some (.error error) := by
  constructor
  · intro h
    cases h with
    | undeclared hundeclared => exact ⟨0, resolve_of_undeclared hundeclared 0⟩
    | @arguments _ bound _ _ hdeclared hcoerced =>
      refine ⟨bound, ?_⟩
      rw [resolve, hdeclared]
      exact Option.map_eq_some_iff.mpr ⟨_, hcoerced, rfl⟩
  · rintro ⟨bound, h⟩
    cases hdeclared : object.field? field.name with
    | none =>
      rw [resolve_of_undeclared hdeclared] at h
      cases h
      exact .undeclared hdeclared
    | some definition =>
      rw [resolve, hdeclared] at h
      obtain ⟨⟨argument, reason⟩ | arguments, hcoerced, he⟩ := Option.map_eq_some_iff.mp h
      · cases he
        exact .arguments hdeclared hcoerced
      · cases he

/-- A larger bound keeps what a field is resolved to. -/
theorem resolve_le {bound more : Nat} (h : bound ≤ more) :
    Approximates (context.resolve bound object field).run
      (context.resolve more object field).run := by
  cases hdeclared : object.field? field.name with
  | none =>
    rw [resolve_of_undeclared hdeclared, resolve_of_undeclared hdeclared]
    exact .refl _
  | some definition =>
    rw [resolve, resolve, hdeclared]
    exact (coerceArguments_le definition.resolver.arguments field h).map _

/-- With closed variables, looking a field up and calling its resolver finishes. -/
theorem resolve_finishes (hclosed : context.bindings.Closed) (object : ObjectType ref)
    (field : Field) : Finishes fun bound => (context.resolve bound object field).run := by
  cases hdeclared : object.field? field.name with
  | none =>
    simp only [resolve_of_undeclared hdeclared]
    exact .const _
  | some definition =>
    simp only [resolve, hdeclared]
    exact (coerceArguments_finishes hclosed definition.resolver.arguments field).map _

/-! ## Starting a subscription -/

/-- How a subscription starts: what it starts with, and what is noted then. -/
inductive Begins (context : Context ref) (root : ObjectType ref) (selections : List Selection) :
    Except SubscriptionError (ResponseStream ref) → (Nat → List Occurrence) → Prop
  /-- Not exactly one field is selected. -/
  | fieldCount :
      (collect (context.scope (some root.name)) selections).length ≠ 1 →
      Begins context root selections
        (.error (.fieldCount (collect (context.scope (some root.name)) selections).length))
        fun _ => []
  /-- The only field asks for the type of the root object. -/
  | typename {key : String} {collected : CollectedField} :
      collect (context.scope (some root.name)) selections = [(key, collected)] →
      collected.field.name = typenameField →
      Begins context root selections (.error (.notAStream typenameField)) fun _ => []
  /-- The only field cannot be resolved. It is null in the only response. -/
  | unresolved {key : String} {collected : CollectedField} {error : FieldError} :
      collect (context.scope (some root.name)) selections = [(key, collected)] →
      collected.field.name ≠ typenameField →
      context.Unresolved root collected.field error →
      Begins context root selections
        (.ok (.single ⟨some (.object [(key, .null)]),
          [error.report (Path.root.join (.key key)) collected.field.location], []⟩))
        fun _ => []
  /-- The resolver of the only field answers with a stream. -/
  | stream {key : String} {collected : CollectedField} {called : ResolvedField ref}
      {source : Source ref} :
      collect (context.scope (some root.name)) selections = [(key, collected)] →
      context.Resolves root collected.field called →
      called.node = .stream source →
      Begins context root selections (.ok (.live ⟨context, collected, called.type⟩ source))
        (callRecord (Path.root.join (.key key)) collected.field called)
  /-- The resolver of the only field answers with something else, which is given up. -/
  | notAStream {key : String} {collected : CollectedField} {called : ResolvedField ref} :
      collect (context.scope (some root.name)) selections = [(key, collected)] →
      context.Resolves root collected.field called →
      (∀ source, called.node ≠ .stream source) →
      Begins context root selections (.error (.notAStream collected.field.name))
        fun time => callRecord (Path.root.join (.key key)) collected.field called time ++
          releaseRecord (Path.root.join (.key key)) called.node.parts time

variable {root : ObjectType ref} {selections : List Selection} {bound start : Nat}
  {result : Except SubscriptionError (ResponseStream ref)} {record : Nat → List Occurrence}

/-- A subscription of one field starts with what the field is resolved to. -/
theorem subscribe_of_collect {key : String} {collected : CollectedField}
    (hcollect : collect (context.scope (some root.name)) selections = [(key, collected)])
    (hname : collected.field.name ≠ typenameField) :
    context.subscribe bound root selections =
      match (context.resolve bound root collected.field).run with
      | none => .unfinished
      | some (.error error) =>
        .done (.ok (.single
          ((Outcome.failure error collected.field (Path.root.join (.key key))).response key)))
      | some (.ok called) =>
        Job.noting (callRecord (Path.root.join (.key key)) collected.field called)
          (match called.node with
          | .stream source => .done (.ok (.live ⟨context, collected, called.type⟩ source))
          | .ready _ _ | .effect _ _ _ =>
            Job.noting (releaseRecord (Path.root.join (.key key)) called.node.parts)
              (.done (.error (.notAStream collected.field.name)))) := by
  rw [subscribe, hcollect]
  exact if_neg hname

theorem subscribe_of_typename {key : String} {collected : CollectedField}
    (hcollect : collect (context.scope (some root.name)) selections = [(key, collected)])
    (hname : collected.field.name = typenameField) :
    context.subscribe bound root selections = .done (.error (.notAStream typenameField)) := by
  rw [subscribe, hcollect]
  simp only [hname, ite_true]

theorem subscribe_of_length_ne
    (h : (collect (context.scope (some root.name)) selections).length ≠ 1) :
    context.subscribe bound root selections = .done (.error (.fieldCount
      (collect (context.scope (some root.name)) selections).length)) := by
  rw [subscribe]
  split
  · next hcollect =>
    rw [hcollect] at h
    exact absurd rfl h
  · rfl

/-- With bounds that suffice, a subscription starts in this way whenever it is started. -/
theorem Begins.subscribe (h : context.Begins root selections result record) :
    ∃ bound, ∀ more ≥ bound, ∀ start,
      context.subscribe more root selections start = some ⟨result, start, record start⟩ := by
  cases h with
  | fieldCount hlength => exact ⟨0, fun _ _ _ => congrFun (subscribe_of_length_ne hlength) _⟩
  | typename hcollect hname =>
    exact ⟨0, fun _ _ _ => congrFun (subscribe_of_typename hcollect hname) _⟩
  | unresolved hcollect hname herror =>
    obtain ⟨bound, hresolve⟩ := unresolved_iff.mp herror
    refine ⟨bound, fun more hle start => ?_⟩
    rw [subscribe_of_collect hcollect hname, resolve_le hle _ hresolve]
    rfl
  | stream hcollect hresolves hnode =>
    obtain ⟨hname, bound, hresolve⟩ := resolves_iff.mp hresolves
    refine ⟨bound, fun more hle start => ?_⟩
    rw [subscribe_of_collect hcollect hname, resolve_le hle _ hresolve]
    simp only [hnode, Job.noting_eq_some_iff, Job.done_eq_some_iff]
    exact ⟨_, rfl, by rw [Timed.note, List.append_nil]⟩
  | @notAStream key collected called hcollect hresolves hnode =>
    obtain ⟨hname, bound, hresolve⟩ := resolves_iff.mp hresolves
    refine ⟨bound, fun more hle start => ?_⟩
    rw [subscribe_of_collect hcollect hname, resolve_le hle _ hresolve]
    cases hcalled : called.node with
    | stream source => exact absurd hcalled (hnode source)
    | _ =>
      simp only [hcalled, Job.noting_eq_some_iff, Job.done_eq_some_iff]
      exact ⟨_, ⟨_, rfl, rfl⟩, by simp only [Timed.note, List.append_nil]⟩

/-- A subscription starts in no other way. -/
theorem begins_of_subscribe {timed : Timed (Except SubscriptionError (ResponseStream ref))}
    (h : context.subscribe bound root selections start = some timed) :
    ∃ result record, context.Begins root selections result record ∧
      timed = ⟨result, start, record start⟩ := by
  rcases hcollect : collect (context.scope (some root.name)) selections with
    _ | ⟨⟨key, collected⟩, _ | ⟨second, others⟩⟩
  case cons.nil =>
    by_cases hname : collected.field.name = typenameField
    · rw [subscribe_of_typename hcollect hname, Job.done_eq_some_iff] at h
      exact ⟨_, _, .typename hcollect hname, h⟩
    · rw [subscribe_of_collect hcollect hname] at h
      rcases hresolve : (context.resolve bound root collected.field).run with _ | error | called
      · rw [hresolve] at h
        cases h
      · rw [hresolve] at h
        exact ⟨_, _, .unresolved hcollect hname (unresolved_iff.mpr ⟨bound, hresolve⟩),
          Job.done_eq_some_iff.mp h⟩
      · have hresolves : context.Resolves root collected.field called :=
          resolves_iff.mpr ⟨hname, bound, hresolve⟩
        simp only [hresolve, Job.noting_eq_some_iff] at h
        obtain ⟨first, hfirst, rfl⟩ := h
        cases hnode : called.node with
        | stream source =>
          rw [hnode, Job.done_eq_some_iff] at hfirst
          subst hfirst
          exact ⟨_, _, .stream hcollect hresolves hnode, by rw [Timed.note, List.append_nil]⟩
        | _ =>
          simp only [hnode, Job.noting_eq_some_iff, Job.done_eq_some_iff] at hfirst
          obtain ⟨_, rfl, rfl⟩ := hfirst
          refine ⟨_, _, .notAStream hcollect hresolves fun source he => ?_, ?_⟩
          · rw [hnode] at he
            cases he
          · simp only [hnode, Timed.note, List.append_nil]
  -- No field or several fields are left.
  all_goals
    have hlength : (collect (context.scope (some root.name)) selections).length ≠ 1 := by
      simp [hcollect]
    rw [subscribe_of_length_ne hlength, Job.done_eq_some_iff] at h
    exact ⟨_, _, .fieldCount hlength, h⟩

/-- With closed variables, starting a subscription finishes. -/
theorem exists_begins (context : Context ref) (hclosed : context.bindings.Closed)
    (root : ObjectType ref) (selections : List Selection) :
    ∃ result record, context.Begins root selections result record := by
  have hstarts : ∃ bound timed, context.subscribe bound root selections 0 = some timed := by
    by_cases hlength : (collect (context.scope (some root.name)) selections).length = 1
    · obtain ⟨⟨key, collected⟩, hcollect⟩ := List.length_eq_one_iff.mp hlength
      by_cases hname : collected.field.name = typenameField
      · exact ⟨0, _, congrFun (subscribe_of_typename hcollect hname) 0⟩
      · obtain ⟨bound, resolved, hresolve⟩ := resolve_finishes hclosed root collected.field
        have hresolved : (context.resolve bound root collected.field).run = some resolved :=
          hresolve bound (Nat.le_refl bound)
        refine ⟨bound, ?_⟩
        rw [subscribe_of_collect hcollect hname, hresolved]
        rcases resolved with error | called
        · exact ⟨_, rfl⟩
        · cases hnode : called.node <;> simp [hnode, Job.noting, Job.done]
    · exact ⟨0, _, congrFun (subscribe_of_length_ne hlength) 0⟩
  obtain ⟨bound, timed, h⟩ := hstarts
  obtain ⟨result, record, hbegins, -⟩ := begins_of_subscribe h
  exact ⟨result, record, hbegins⟩

/-- A call that is given up pulls nothing. -/
theorem isPull_of_mem_call_release {path : Path} {field : Field} {called : ResolvedField ref}
    {parts : List Node.Part} {time : Nat} {o : Occurrence}
    (ho : o ∈ callRecord path field called time ++ releaseRecord path parts time) :
    o.isPull = false := by
  simp only [callRecord, releaseRecord, makeRecord, List.cons_append, List.mem_cons,
    List.mem_append, List.mem_map, List.not_mem_nil, or_false] at ho
  obtain rfl | ⟨label, -, rfl⟩ | rfl := ho <;> rfl

/-- Nothing happens before it is known that a subscription is no stream, unless a resolver has to be
    asked: then that one call is noted, and that its answer is given up. -/
theorem Begins.noted {error : SubscriptionError}
    (h : context.Begins root selections (.error error) record) (time : Nat) :
    record time = [] ∨ ∃ key collected called,
      collect (context.scope (some root.name)) selections = [(key, collected)] ∧
      context.Resolves root collected.field called ∧
      (∀ source, called.node ≠ .stream source) ∧ error = .notAStream collected.field.name ∧
      record time = callRecord (Path.root.join (.key key)) collected.field called time ++
        releaseRecord (Path.root.join (.key key)) called.node.parts time := by
  cases h with
  | fieldCount | typename => exact .inl rfl
  | notAStream hcollect hresolves hnode =>
    exact .inr ⟨_, _, _, hcollect, hresolves, hnode, rfl, rfl⟩

end Context

end GraphQL

import GraphQL.Proofs.Correspondence
import GraphQL.Proofs.Sources

/-!
# What is seen of a reply

A request is answered by an error, by one response or by a stream of them. `Reply.view` is what a
consumer sees of an answer who asks a stream for some responses and gives it up then:
the responses, their times, and all that is noted on the way, down to the sources that are released
in the end. `Job.watch` does this with whatever a request comes to.

Results:
* `Context.BaresOperation`: the bared fields that an operation comes to.
* `Service.Alike.watch_executeDocument`: on services with schemas that answer alike, documents whose
  operations select related selections cannot be told apart, unless they come to a bared field.
* `Service.Alike.watch_execute`: one request to two services.
-/

namespace GraphQL

variable {ref : Type}

namespace ResponseStream

/-- Asks for `count` responses, or as many as there are, and gives the stream up. What is not part of
    a response stands in the record. -/
def consume (bound count : Nat) (stream : ResponseStream ref) :
    Job (List (Timed (Response Error))) := fun start =>
  (stream.take bound count start).bind fun taken =>
    (taken.rest.value.release taken.rest.finish).map fun released =>
      ⟨taken.responses, released.finish, taken.rest.record ++ released.record⟩

theorem consume_zero (bound : Nat) (stream : ResponseStream ref) :
    stream.consume bound 0 = stream.release.map fun _ => [] := rfl

/-- After the first response the rest of the stream is consumed. -/
theorem consume_succ (bound count : Nat) (stream : ResponseStream ref) (start : Nat) :
    stream.consume bound (count + 1) start =
      match stream.next bound start with
      | none => none
      | some ⟨(none, rest), finish, record⟩ =>
        (rest.release finish).map fun released =>
          ⟨[], released.finish, record ++ released.record⟩
      | some ⟨(some response, rest), finish, record⟩ =>
        (rest.consume bound count finish).map (Timed.map (⟨response, finish, record⟩ :: ·)) := by
  rw [consume, take]
  rcases stream.next bound start with _ | ⟨⟨_ | response, rest⟩, finish, record⟩
  · rfl
  · rfl
  · simp only [consume]
    cases rest.take bound count finish with
    | none => rfl
    | some taken =>
      simp only [Option.map_some, Option.bind_some, Option.map_map]
      rfl

end ResponseStream

/-- What is seen of a reply. -/
inductive Reply.View where
  | response (only : Response Error)
  | responses (all : List (Timed (Response Error)))

/-- Looks at a reply. A stream is asked for `count` responses. -/
def Reply.view (bound count : Nat) : Reply ref → Job Reply.View
  | .response only => .done (.response only)
  | .stream responses => (responses.consume bound count).map .responses

/-- Looks at what a request comes to. -/
def Job.watch (bound count : Nat) (job : Job (Except RequestError (Reply ref))) :
    Job (Except RequestError Reply.View) :=
  job.andThen fun
    | .error error => .done (.error error)
    | .ok reply => (reply.view bound count).map .ok

/-! ## Subscriptions to related selections -/

/-- Both complete the due events of a source at the same path in the same way. -/
structure Subscription.Alike (left right : Subscription ref) (source : Source ref) : Prop where
  path : right.path = left.path
  complete {position : Nat} {event : Event (Resolved ref)} : source.Due position event →
    ∀ bound, right.complete bound event.outcome = left.complete bound event.outcome

variable {context twin : Context ref} {related : List Selection → List Selection → Prop}

theorem Subscription.alike (hcontext : context.Alike twin related) {one other : CollectedField}
    (h : one.Alike related other) {type : TypeRef} {source : Source ref}
    (hbares : ∀ position event value, source.Due position event → event.outcome = .ok value →
      ¬ context.Bares twin (Path.root.join (.key one.field.responseKey), .value type value one)
        (Path.root.join (.key one.field.responseKey), .value type value other)) :
    Subscription.Alike ⟨context, one, type⟩ ⟨twin, other, type⟩ source where
  path := by simp only [Subscription.path, Subscription.key, h.responseKey]
  complete := by
    rintro position ⟨delay, outcome⟩ hdue bound
    cases outcome with
    | ok value =>
      have hvalue := (hcontext.agrees bound).value h (hbares position _ value hdue rfl)
      simp only [complete, Subscription.path, Subscription.key, h.responseKey, hvalue]
    | error cause =>
      simp only [complete, Subscription.path, Subscription.key, h.responseKey,
        Outcome.failure_congr h.location]

/-- The streams of alike subscriptions cannot be told apart. -/
theorem Subscription.Alike.consume {left right : Subscription ref} {source : Source ref}
    (h : left.Alike right source) (bound count : Nat) :
    (ResponseStream.live right source).consume bound count =
      (ResponseStream.live left source).consume bound count := by
  funext start
  induction count generalizing source start with
  | zero => simp only [ResponseStream.consume_zero, ResponseStream.release, h.path]
  | succ count ih =>
    rw [ResponseStream.consume_succ, ResponseStream.consume_succ]
    simp only [ResponseStream.next, h.path]
    cases hnext : source.next? with
    | none => simp only
    | some step =>
      have hfirst := h.complete ((Source.due_zero hnext).mpr rfl) bound
      obtain ⟨⟨delay, outcome⟩, rest, made⟩ := step
      simp only [hfirst]
      cases outcome with
      | ok value =>
        have hrest : left.Alike right rest :=
          ⟨h.path, fun hdue => h.complete ((Source.due_succ hnext).mpr ⟨rfl, hdue⟩)⟩
        simp only [Job.after, Job.noting, Job.map]
        cases left.complete bound (.ok value) (start + delay) with
        | none => rfl
        | some timed => simp only [Option.map_some, ih hrest]
      | error cause => rfl

/-- The bared fields that an operation comes to: below the root object, or for a subscription in a
    due event of its source. -/
inductive Context.BaresOperation (left right : Context ref) (root double : ObjectType ref)
    (selections others : List Selection) : OperationKind → Prop
  | fields {kind : OperationKind} :
    kind ≠ .subscription → left.BaresFields right .root root double selections others →
    BaresOperation left right root double selections others kind
  | event {key : String} {one other : CollectedField} {called : ResolvedField ref}
      {source : Source ref} {position : Nat} {event : Event (Resolved ref)} {value : Resolved ref} :
    collect (left.scope (some root.name)) selections = [(key, one)] →
    collect (right.scope (some double.name)) others = [(key, other)] →
    left.Resolves root one.field called → called.node = .stream source →
    source.Due position event → event.outcome = .ok value →
    left.Bares right (Path.root.join (.key key), .value called.type value one)
      (Path.root.join (.key key), .value called.type value other) →
    BaresOperation left right root double selections others .subscription

/-- Operations come to no bared field if only no selections are related to none. -/
theorem Context.Alike.not_baresOperation (h : context.Alike twin related)
    (hcovers : ∀ left, related left [] → left = []) {root double : ObjectType ref}
    (hroot : root.Alike double) {selections others : List Selection}
    (hrelated : related selections others) (kind : OperationKind) :
    ¬ context.BaresOperation twin root double selections others kind := by
  rintro (⟨-, hbares⟩ | ⟨hone, hother, -, -, -, -, hbares⟩)
  · exact h.not_baresFields hcovers hroot hrelated hbares
  · rw [hroot.name] at hother
    have hfield := h.alike_of_mem_collect hrelated (List.mem_of_mem_head? (by rw [hone]; rfl))
      (List.mem_of_mem_head? (by rw [hother]; rfl))
    exact h.not_bares hcovers (.value hfield) hbares

/-- Subscriptions to related selections start in the same way, with streams that are alike. -/
theorem Context.subscribe_cases (hcontext : context.Alike twin related)
    {left right : List Selection} (h : related left right) (bound : Nat)
    {root double : ObjectType ref} (hroot : root.Alike double)
    (hbares : ¬ context.BaresOperation twin root double left right .subscription) :
    twin.subscribe bound double right = context.subscribe bound root left ∨
      ∃ (record : Nat → List Occurrence) (one other : Subscription ref) (source : Source ref),
        one.Alike other source ∧
        context.subscribe bound root left = Job.noting record (.done (.ok (.live one source))) ∧
        twin.subscribe bound double right =
          Job.noting record (.done (.ok (.live other source))) := by
  have hcollect := hcontext.corresponds.collects (some root.name) h
  unfold subscribe
  rw [hroot.name]
  change List.Forall₂ _ (collect (context.scope (some root.name)) left)
    (collect (twin.scope (some root.name)) right) at hcollect
  generalize hone : collect (context.scope (some root.name)) left = fields at hcollect
  generalize hother : collect (twin.scope (some root.name)) right = others at hcollect
  cases hcollect with
  | nil => exact .inl rfl
  | @cons one other _ _ hhead htail =>
    obtain ⟨first, one⟩ := one
    obtain ⟨key, other⟩ := other
    obtain ⟨hkey, halike⟩ := hhead
    obtain rfl : key = first := hkey
    replace halike : one.Alike related other := halike
    cases htail with
    | cons _ htail => exact .inl (by simp only [List.length_cons, htail.length_eq])
    | nil =>
      simp only [halike.name, hcontext.resolve halike.name halike.arguments hroot,
        Context.callRecord_congr halike.name, Outcome.failure_congr halike.location]
      by_cases ht : one.field.name = typenameField
      · exact .inl (by simp only [ht, ite_true])
      · simp only [ht, ite_false]
        rcases hresolve : (context.resolve bound root one.field).run with _ | error | called
        · exact .inl rfl
        · exact .inl rfl
        · dsimp only
          split
          · next source hnode =>
            refine .inr ⟨_, _, _, source, Subscription.alike hcontext halike ?_, rfl, rfl⟩
            intro position event value hdue hvalue hb
            have hcalled := Context.resolves_iff.mpr ⟨ht, bound, hresolve⟩
            have hfind : Entries.find? (collect (context.scope (some root.name)) left) key =
                some one := by simp [hone, Entries.find?_cons]
            rw [responseKey_of_find?_collect hfind] at hb
            exact hbares (.event hone (hroot.name.symm ▸ hother) hcalled hnode hdue hvalue hb)
          · exact .inl rfl
          · exact .inl rfl

/-! ## Documents with related operations -/

/-- The same operation with related selections. -/
structure Operation.Alike (related : List Selection → List Selection → Prop)
    (left right : Operation) : Prop where
  name : right.name = left.name
  kind : right.kind = left.kind
  declared : right.declared = left.declared
  selections : related left.selections right.selections

/-- Of related operations the same one is picked. -/
theorem ExecutableDocument.operation_cases {left right : ExecutableDocument}
    (h : List.Forall₂ (Operation.Alike related) left.operations right.operations)
    (name : Option String) :
    (∃ error, left.operation name = .error error ∧ right.operation name = .error error) ∨
      ∃ one ∈ left.operations, ∃ other, one.Alike related other ∧
        left.operation name = .ok one ∧ right.operation name = .ok other := by
  obtain ⟨_, operations⟩ := left
  obtain ⟨_, others⟩ := right
  replace h : List.Forall₂ (Operation.Alike related) operations others := h
  cases name with
  | none =>
    cases h with
    | nil => exact .inl ⟨_, rfl, rfl⟩
    | cons hhead htail =>
      cases htail with
      | nil => exact .inr ⟨_, List.mem_cons_self, _, hhead, rfl, rfl⟩
      | cons _ htail =>
        refine .inl ⟨_, rfl, ?_⟩
        simp only [ExecutableDocument.operation, List.length_cons, htail.length_eq]
  | some name =>
    simp only [ExecutableDocument.operation]
    induction h with
    | nil => exact .inl ⟨_, rfl, rfl⟩
    | @cons one other _ _ hhead _ ih =>
      simp only [List.find?_cons, hhead.name]
      by_cases hname : one.name = some name
      · exact .inr ⟨one, List.mem_cons_self, other, hhead, by simp [hname], by simp [hname]⟩
      · simp only [hname, decide_false]
        rcases ih with h | ⟨one, hm, h⟩
        · exact .inl h
        · exact .inr ⟨one, List.mem_cons_of_mem _ hm, h⟩

namespace Service

/-- Both have the same configuration, and schemas that answer alike. -/
structure Alike (service twin : Service ref) : Prop where
  schema : service.schema.Alike twin.schema
  configuration : twin.configuration = service.configuration

theorem Alike.refl (service : Service ref) : service.Alike service := ⟨.refl _, rfl⟩

namespace Alike

variable {service twin : Service ref} {objects : ref → ObjectType ref}

theorem alike_context (halike : service.Alike twin) (objects : ref → ObjectType ref)
    {left right : ExecutableDocument} {bindings : Variables}
    (hcorresponds : Collection.Corresponds ⟨service.schema.types, left.fragments, bindings, none⟩
      ⟨twin.schema.types, right.fragments, bindings, none⟩ related) :
    (service.context objects left bindings).Alike (twin.context objects right bindings) related :=
  ⟨rfl, congrArg (·.execution.maxConcurrency) halike.configuration, rfl, halike.schema.types,
    hcorresponds⟩

/-- Related operations that come to no bared field cannot be told apart. -/
theorem watch_run (halike : service.Alike twin) {left right : ExecutableDocument}
    {one other : Operation} {bindings : Variables}
    (hcorresponds : Collection.Corresponds
      ⟨service.schema.types, left.fragments, one.complete bindings, none⟩
      ⟨twin.schema.types, right.fragments, one.complete bindings, none⟩ related)
    (h : one.Alike related other) {root double : ObjectType ref} (hroot : root.Alike double)
    (hbares : ¬ (service.context objects left (one.complete bindings)).BaresOperation
      (twin.context objects right (one.complete bindings)) root double one.selections
      other.selections one.kind)
    (bound count : Nat) :
    (twin.run objects bound right other double bindings).watch bound count =
      (service.run objects bound left one root bindings).watch bound count := by
  have hcomplete : other.complete bindings = one.complete bindings := by
    simp only [Operation.complete, h.declared]
  have hcontext := halike.alike_context objects hcorresponds
  have hwidth : twin.rootWidth (twin.context objects right (one.complete bindings)) one.kind =
      service.rootWidth (service.context objects left (one.complete bindings)) one.kind := by
    simp only [rootWidth, halike.configuration, hcontext.window]
  simp only [run, hcomplete, h.kind, hwidth]
  generalize service.context objects left (one.complete bindings) = context at hcontext hbares
  generalize twin.context objects right (one.complete bindings) = context' at hcontext hbares
  have hfields (hkind : one.kind ≠ .subscription) :
      context'.executeFields bound (service.rootWidth context one.kind) double .root
          other.selections =
        context.executeFields bound (service.rootWidth context one.kind) root .root
          one.selections :=
    (hcontext.agrees bound).fields h.selections _ hroot _ fun hb => hbares (.fields hkind hb)
  cases hkind : one.kind with
  | subscription =>
    rw [hkind] at hbares
    rcases Context.subscribe_cases hcontext h.selections bound hroot hbares with
      hsame | ⟨record, one, other, source, halike, hone, hother⟩
    · simp only [hsame]
    · simp only [hone, hother]
      funext start
      have hconsume := congrFun (halike.consume bound count) start
      simp only [Job.watch, Job.andThen, Job.map, Job.noting, Job.done, Reply.view,
        Option.map_some, Option.bind_some, hconsume]
  | query | mutation =>
    rw [hkind] at hfields
    simp only [hfields (by decide)]

/-- Documents with related operations that come to no bared field cannot be told apart. -/
theorem watch_executeDocument (halike : service.Alike twin) {left right : ExecutableDocument}
    {bindings : Variables}
    (hcorresponds : ∀ operation ∈ left.operations, Collection.Corresponds
      ⟨service.schema.types, left.fragments, operation.complete bindings, none⟩
      ⟨twin.schema.types, right.fragments, operation.complete bindings, none⟩ related)
    (h : List.Forall₂ (Operation.Alike related) left.operations right.operations)
    {name : Option String}
    (hbares : ∀ one other root double, left.operation name = .ok one →
      right.operation name = .ok other → service.schema.root one.kind = some root →
      twin.schema.root one.kind = some double → one ∈ left.operations →
      one.Alike related other → root.Alike double →
      ¬ (service.context objects left (one.complete bindings)).BaresOperation
        (twin.context objects right (one.complete bindings)) root double one.selections
        other.selections one.kind)
    (bound count : Nat) :
    (twin.executeDocument objects bound right name bindings).watch bound count =
      (service.executeDocument objects bound left name bindings).watch bound count := by
  simp only [executeDocument]
  rcases ExecutableDocument.operation_cases h name with
    ⟨error, hleft, hright⟩ | ⟨one, hm, other, hoperation, hleft, hright⟩
  · rw [hleft, hright]
  · rw [hleft, hright]
    simp only [hoperation.kind]
    have hroot := halike.schema.root one.kind
    have hbares' := fun root double => hbares one other root double hleft hright
    generalize service.schema.root one.kind = root at hroot hbares'
    generalize twin.schema.root one.kind = double at hroot hbares'
    cases hroot with
    | none => rfl
    | some hroot =>
      exact watch_run halike (hcorresponds one hm) hoperation hroot
        (hbares' _ _ rfl rfl hm hoperation hroot) bound count

/-- Documents with related operations cannot be told apart if only no selections are related to
    none. -/
theorem watch_executeDocument_of_covers (halike : service.Alike twin)
    {left right : ExecutableDocument} {bindings : Variables}
    (hcorresponds : ∀ operation ∈ left.operations, Collection.Corresponds
      ⟨service.schema.types, left.fragments, operation.complete bindings, none⟩
      ⟨twin.schema.types, right.fragments, operation.complete bindings, none⟩ related)
    (hcovers : ∀ left, related left [] → left = [])
    (h : List.Forall₂ (Operation.Alike related) left.operations right.operations)
    (name : Option String) (bound count : Nat) :
    (twin.executeDocument objects bound right name bindings).watch bound count =
      (service.executeDocument objects bound left name bindings).watch bound count := by
  refine halike.watch_executeDocument hcorresponds h ?_ bound count
  intro one other root double _ _ _ _ hm hoperation hroot
  exact (halike.alike_context objects (hcorresponds one hm)).not_baresOperation hcovers hroot
    hoperation.selections _

/-- Services with schemas that answer alike answer every request alike. -/
theorem watch_execute (halike : service.Alike twin) (request : Request) (bound count : Nat) :
    (twin.execute objects bound request).watch bound count =
      (service.execute objects bound request).watch bound count := by
  simp only [execute, readDocument, halike.configuration]
  split
  · rfl
  · exact halike.watch_executeDocument_of_covers (fun _ _ => .of_types halike.schema.types)
      (fun _ h => h) (List.forall₂_same.mpr fun _ _ => ⟨rfl, rfl, rfl, rfl⟩) _ bound count

end Alike

end Service

end GraphQL

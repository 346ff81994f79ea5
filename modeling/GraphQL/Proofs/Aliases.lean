import GraphQL.Proofs.Labels
import GraphQL.Proofs.Replies
import GraphQL.Proofs.Service

/-!
# Aliases are labels

An alias decides under which key a field stands in the response and nothing else. If all fields of a
document get new labels, different ones for different response keys, what is seen of the reply is
what was seen before, under the new labels: in the data, in the paths of errors and in the record.

Results:
* `ResponseStream.shows_consume`: the responses to the events of a subscription.
* `ExecutableDocument.watch_relabel_id`: aliases that say what was said before change nothing.
* `Service.shows_watch`: what is seen of a reply under all labels.
* `aliases_are_labels`: a document and the same one with other labels.
-/

namespace GraphQL

variable {ref : Type}

/-! ## Responses under labels -/

/-- A response, before its keys have labels. -/
structure ShownResponse where
  data : Shown
  errors : List Error

namespace ShownResponse

/-- The data have the keys that have been selected. -/
def Selected (scope : Collection.Scope) (selections : List Selection) (response : ShownResponse) :
    Prop :=
  response.data.Selected scope true selections

/-- The response under labels. -/
def view (label : String → String) (response : ShownResponse) : Response Error where
  data := some (response.data.view label)
  errors := response.errors.map (Error.relabel label)

/-- The response of a root object. -/
def ofFields (outcomes : Entries ShownOutcome) : ShownResponse where
  data :=
    if !outcomes.isEmpty && outcomes.all fun entry => entry.2.failed then .leaf .null
    else .object (Entries.mapValues ShownOutcome.shown outcomes)
  errors := outcomes.flatMap fun entry => entry.2.errors

/-- The response that shows the outcome of a single root field. -/
def ofField (key : String) (outcome : ShownOutcome) : ShownResponse :=
  ⟨.object [(key, outcome.shown)], outcome.errors⟩

theorem view_ofFields (label : String → String) (outcomes : Entries ShownOutcome) :
    (ofFields outcomes).view label =
      Outcomes.response (Entries.relabel label (ShownOutcome.view label) outcomes) := by
  have hfailed : Outcomes.allFailed (Entries.relabel label (ShownOutcome.view label) outcomes) =
      (!outcomes.isEmpty && outcomes.all fun entry => entry.2.failed) := by
    simp only [Outcomes.allFailed, Entries.relabel, List.isEmpty_map, List.all_map]
    rfl
  have hobject := ShownOutcome.view_ofFields label outcomes
  have hvalue := congrArg Outcome.value hobject
  have herrors := congrArg Outcome.errors hobject
  rw [Outcomes.response, hfailed, ofFields, view]
  split
  · exact congrArg (Response.mk (some .null) · []) herrors
  · exact congrArg₂ (Response.mk · · []) (congrArg some hvalue) herrors

end ShownResponse

/-- What is seen of a reply, before the keys in it have labels. -/
inductive ShownReply where
  | response (only : ShownResponse)
  | responses (all : List (Timed ShownResponse))

namespace ShownReply

/-- What is seen of the reply under labels. -/
def view (label : String → String) : ShownReply → Reply.View
  | .response only => .response (only.view label)
  | .responses all => .responses (all.map (Timed.under ShownResponse.view label))

/-- The data of all responses have the keys that have been selected. -/
def Selected (scope : Collection.Scope) (selections : List Selection) : ShownReply → Prop
  | .response only => only.Selected scope selections
  | .responses all => ∀ timed ∈ all, timed.value.Selected scope selections

end ShownReply

/-! ## Streams -/

namespace Job

variable {σ α β : Type}

/-- Puts what a job gives in front of what comes after it. -/
def chain (job : Job α) (rest : Job (List (Timed α))) : Job (List (Timed α)) := fun start =>
  (job start).bind fun first => (rest first.finish).map (Timed.map (first :: ·))

/-- For each choice of labels a job that gives what a chain of others gave, with their records. -/
def ShowsEach (right : σ → Prop) (view : (String → String) → σ → α)
    (jobs : (String → String) → Job (List (Timed α))) : Prop :=
  Shows (fun all : List (Timed σ) => ∀ timed ∈ all, right timed.value)
    (fun label => List.map (Timed.under view label)) jobs

theorem ShowsEach.nil {right : σ → Prop} {view : (String → String) → σ → α} :
    ShowsEach right view fun _ => .done [] :=
  Shows.done [] fun _ hm => absurd hm List.not_mem_nil

theorem Shows.chain {right : σ → Prop} {view : (String → String) → σ → α}
    {jobs : (String → String) → Job α} {rests : (String → String) → Job (List (Timed α))}
    (h : Shows right view jobs) (hrest : ShowsEach right view rests) :
    ShowsEach right view fun label => (jobs label).chain (rests label) := by
  obtain ⟨seen, hseen, hjobs⟩ := h
  obtain ⟨seenRest, hseenRest, hrests⟩ := hrest
  refine ⟨seen.chain seenRest, fun start timed htimed => ?_, fun label hlabel => ?_⟩
  · obtain ⟨first, hfirst, htimed⟩ := Option.bind_eq_some_iff.mp htimed
    obtain ⟨others, hothers, rfl⟩ := Option.map_eq_some_iff.mp htimed
    exact List.forall_mem_cons.mpr ⟨hseen start first hfirst, hseenRest _ others hothers⟩
  · funext start
    simp only [hjobs label hlabel, hrests label hlabel, Job.chain, Job.under]
    cases seen start with
    | none => rfl
    | some first =>
      simp only [Option.map_some, Option.bind_some, Timed.under, Option.map_map]
      rfl

end Job

namespace ResponseStream

variable {bound count : Nat} {stream rest : ResponseStream ref}

theorem consume_ended (bound count : Nat) :
    (ended : ResponseStream ref).consume bound count = .done [] := by
  cases count <;> rfl

/-- A response is followed by what the rest of the stream gives. -/
theorem consume_of_next {job : Job (Response Error)}
    (h : stream.next bound = job.map fun response => (some response, rest)) :
    stream.consume bound (count + 1) = job.chain (rest.consume bound count) := by
  funext start
  rw [consume_succ, h, Job.map, Job.chain]
  cases job start <;> rfl

section Live

variable {subscription : Subscription ref} {source left : Source ref} {delay : Nat}
  {made : List Node.Part}

/-- A source without events is given up. -/
theorem consume_live_of_none (h : source.next? = none) :
    (live subscription source).consume bound (count + 1) =
      Job.noting (Context.releaseRecord subscription.path source.parts) (.done []) := by
  funext start
  rw [consume_succ, next, h]
  rfl

/-- An event is pulled and completed, and the next one after it. -/
theorem consume_live_of_ok {value : Resolved ref}
    (h : source.next? = some ⟨⟨delay, .ok value⟩, left, made⟩) :
    (live subscription source).consume bound (count + 1) =
      (Job.after delay (Job.noting (fun time =>
          .pulled subscription.path time :: Context.makeRecord made time)
        (subscription.complete bound (.ok value)))).chain
        ((live subscription left).consume bound count) := by
  refine consume_of_next ?_
  funext start
  simp only [next, h, Job.after, Job.noting, Job.map, Option.map_map]
  rfl

/-- An event that failed is pulled and completed, and the rest of its source is given up. -/
theorem consume_live_of_error {cause : String}
    (h : source.next? = some ⟨⟨delay, .error cause⟩, left, made⟩) :
    (live subscription source).consume bound (count + 1) =
      (Job.after delay (Job.noting (fun time =>
          .pulled subscription.path time :: Context.makeRecord made time)
        (Job.noting (Context.releaseRecord subscription.path left.parts)
          (subscription.complete bound (.error cause))))).chain (.done []) := by
  rw [← consume_ended bound count]
  refine consume_of_next ?_
  funext start
  simp only [next, h, Job.after, Job.noting, Job.map, Option.map_map]
  rfl

end Live

end ResponseStream

/-! ## Subscriptions -/

section Subscriptions

variable {context : Context ref} {runtime : Option String} {selections : List Selection}
  {key : String} {collected : CollectedField}

/-- The response that shows a single selected field has its key. -/
theorem ShownResponse.selected_ofField
    (hcollect : collect (context.scope runtime) selections = [(key, collected)])
    {outcome : ShownOutcome} (h : outcome.shown.Selected (context.scope none)
      collected.isComposite collected.selections) :
    (ofField key outcome).Selected (context.scope none) selections := by
  have hcollect' : collect { context.scope none with runtime } selections = [(key, collected)] :=
    hcollect
  refine .object runtime ?_ ?_
  · rw [hcollect']
    rfl
  · rw [hcollect']
    exact .cons h .nil

/-- The outcome of the field of a subscription at an event. -/
def Context.completeEvent (context : Context ref) (bound : Nat) (type : TypeRef)
    (event : Except String (Resolved ref)) (collected : CollectedField) (path : Path) :
    Job Outcome :=
  match event with
  | .ok value => context.completeValue bound type value collected path
  | .error cause => .done (.failure (.effectFailed cause) collected.field path)

/-- An event is completed alike under all labels. -/
theorem Subscription.shows_complete
    (hcollect : collect (context.scope runtime) selections = [(key, collected)]) (type : TypeRef)
    (bound : Nat) (event : Except String (Resolved ref)) :
    Job.Shows (ShownResponse.Selected (context.scope none) selections) ShownResponse.view
      fun label => (Subscription.mk (context.relabel label) (collected.relabel label) type).complete
        bound event := by
  have hkey : collected.field.responseKey = key :=
    responseKey_of_find?_collect (by rw [hcollect, Entries.find?_cons, if_pos rfl])
  subst hkey
  have houtcome : context.ShowsField collected (Path.root.join (.key collected.field.responseKey))
      (·.completeEvent bound type event) := by
    cases event with
    | ok value => exact (context.shows bound).value type value collected _
    | error cause => exact Context.showsField_failure (.effectFailed cause) collected _
  exact houtcome.map (fun label outcome => outcome.response (label collected.field.responseKey))
    (ShownResponse.ofField collected.field.responseKey) (fun _ _ => rfl)
    fun _ => ShownResponse.selected_ofField hcollect

/-- A response that is there already is seen alike under all labels. -/
theorem ResponseStream.shows_consume_single {right : ShownResponse → Prop}
    {response : ShownResponse} (h : right response) (bound count : Nat) :
    Job.ShowsEach right ShownResponse.view fun label =>
      (ResponseStream.single (response.view label) : ResponseStream ref).consume bound count := by
  cases count with
  | zero => exact .nil
  | succ count =>
    refine ((Job.Shows.done response h).chain .nil).congr fun label _ => ?_
    rw [← consume_ended bound count]
    exact consume_of_next rfl

/-- The responses to events are seen alike under all labels. -/
theorem ResponseStream.shows_consume
    (hcollect : collect (context.scope runtime) selections = [(key, collected)]) (type : TypeRef)
    (bound count : Nat) (source : Source ref) :
    Job.ShowsEach (ShownResponse.Selected (context.scope none) selections) ShownResponse.view
      fun label => (ResponseStream.live ⟨context.relabel label, collected.relabel label, type⟩
        source).consume bound count := by
  let path := Path.root.join (.key collected.field.responseKey)
  induction count generalizing source with
  | zero => exact Job.ShowsEach.nil.noting (Context.releaseRecord path source.parts)
  | succ count ih =>
    cases hnext : source.next? with
    | none =>
      simp only [consume_live_of_none hnext]
      exact Job.ShowsEach.nil.noting (Context.releaseRecord path source.parts)
    | some step =>
      obtain ⟨⟨delay, outcome⟩, rest, made⟩ := step
      have hcomplete := Subscription.shows_complete hcollect type bound outcome
      have hpulled : ∀ label, (fun time => .pulled (path.relabel label) time ::
          Context.makeRecord made time) = fun time =>
          (.pulled path time :: Context.makeRecord made time : List Occurrence).map
            (Occurrence.relabel label) := by
        intro label
        funext time
        rw [List.map_cons, Context.map_relabel_makeRecord]
        rfl
      cases outcome with
      | ok value =>
        simp only [consume_live_of_ok hnext]
        refine Job.Shows.chain (.after delay ?_) (ih rest)
        exact (hcomplete.noting _).congr fun label _ => congrArg (Job.noting · _) (hpulled label)
      | error cause =>
        simp only [consume_live_of_error hnext]
        refine Job.Shows.chain (.after delay ?_) .nil
        exact ((hcomplete.noting (Context.releaseRecord path rest.parts)).noting _).congr
          fun label _ => congrArg (Job.noting · _) (hpulled label)

end Subscriptions

/-! ## Replies -/

namespace ShownReply

/-- What is seen of an answer under labels. -/
def viewAnswer (label : String → String) :
    Except RequestError ShownReply → Except RequestError Reply.View :=
  Except.map (view label)

/-- The data of a reply have the keys that have been selected. -/
def SelectedAnswer (scope : Collection.Scope) (selections : List Selection)
    (answer : Except RequestError ShownReply) : Prop :=
  ∀ reply, answer = .ok reply → reply.Selected scope selections

end ShownReply

open ShownReply (viewAnswer SelectedAnswer)

namespace Job

variable {α : Type} {bound count : Nat}

theorem watch_done_stream (stream : ResponseStream ref) :
    (done (.ok (.stream stream)) : Job (Except RequestError (Reply ref))).watch bound count =
      (stream.consume bound count).map fun all => .ok (.responses all) := by
  funext start
  simp only [watch, andThen, done, Option.bind_some, Reply.view, map, Option.map_map]
  rfl

theorem map_noting {β : Type} (occurrences : Nat → List Occurrence) (job : Job α) (f : α → β) :
    (job.noting occurrences).map f = (job.map f).noting occurrences := by
  funext start
  simp only [map, noting, Option.map_map]
  rfl

theorem watch_noting (occurrences : Nat → List Occurrence)
    (job : Job (Except RequestError (Reply ref))) :
    (job.noting occurrences).watch bound count = (job.watch bound count).noting occurrences := by
  funext start
  simp only [watch, andThen, noting]
  cases job start with
  | none => rfl
  | some first => simp [Option.map_map, Function.comp_def]

/-- There is nothing to ask for behind a single response. -/
theorem watch_response (job : Job (Response Error)) :
    Job.watch bound count (job.map fun only => (.ok (.response only) : Except _ (Reply ref))) =
      job.map fun only => .ok (.response only) := by
  funext start
  simp only [watch, andThen, map]
  cases job start with
  | none => rfl
  | some first => simp [Reply.view, done, map]

end Job

/-- An error has no keys. -/
theorem Job.shows_error (scope : Collection.Scope) (selections : List Selection)
    (error : RequestError) :
    Job.Shows (SelectedAnswer scope selections) viewAnswer fun _ => .done (.error error) :=
  Job.Shows.done (Except.error error) fun _ h => nomatch h

namespace Context

/-- The reply of a subscription that has been started. -/
def startedReply : Except SubscriptionError (ResponseStream ref) → Except RequestError (Reply ref)
  | .ok stream => .ok (.stream stream)
  | .error error => .error (.subscription error)

/-- Starts a subscription to a single field that has been resolved. -/
def startField (context : Context ref) (key : String) (collected : CollectedField) :
    Option (Except FieldError (ResolvedField ref)) →
      Job (Except SubscriptionError (ResponseStream ref))
  | none => .unfinished
  | some (.error error) =>
    .done (.ok (.single
      ((Outcome.failure error collected.field (Path.root.join (.key key))).response key)))
  | some (.ok resolved) =>
    Job.noting (callRecord (Path.root.join (.key key)) collected.field resolved)
      (match resolved.node with
      | .stream source => .done (.ok (.live ⟨context, collected, resolved.type⟩ source))
      | .ready _ _ | .effect _ _ _ =>
        Job.noting (releaseRecord (Path.root.join (.key key)) resolved.node.parts)
          (.done (.error (.notAStream collected.field.name))))

theorem subscribe_eq_startField {context : Context ref} {root : ObjectType ref}
    {selections : List Selection} {key : String} {collected : CollectedField}
    (hcollect : collect (context.scope (some root.name)) selections = [(key, collected)])
    (htype : collected.field.name ≠ typenameField) (bound : Nat) :
    context.subscribe bound root selections =
      context.startField key collected (context.resolve bound root collected.field).run := by
  rw [subscribe, hcollect]
  dsimp only
  rw [if_neg htype]
  rcases (context.resolve bound root collected.field).run with _ | error | resolved <;> rfl

section Started

variable {context : Context ref} {runtime : Option String} {selections : List Selection}
  {key : String} {collected : CollectedField}

/-- What is seen of a subscription to a single field under all labels. -/
theorem shows_startField
    (hcollect : collect (context.scope runtime) selections = [(key, collected)]) (bound count : Nat)
    (resolution : Option (Except FieldError (ResolvedField ref))) :
    Job.Shows (SelectedAnswer (context.scope none) selections) viewAnswer fun label =>
      Job.watch bound count (((context.relabel label).startField (label key)
        (collected.relabel label) resolution).map startedReply) := by
  have hreply : ∀ {streams : (String → String) → ResponseStream ref},
      Job.ShowsEach (ShownResponse.Selected (context.scope none) selections) ShownResponse.view
        (fun label => (streams label).consume bound count) →
      Job.Shows (SelectedAnswer (context.scope none) selections) viewAnswer fun label =>
        Job.watch bound count (.done (.ok (.stream (streams label)))) := by
    intro streams hstreams
    simp only [Job.watch_done_stream]
    refine hstreams.map (fun _ all => Except.ok (Reply.View.responses all))
      (fun all => Except.ok (ShownReply.responses all)) (fun _ _ => rfl) ?_
    rintro all hall _ ⟨⟩
    exact hall
  have hfails := Job.shows_error (context.scope none) selections
  rcases resolution with _ | error | resolved
  · exact .unfinished
  · let failure := ShownOutcome.failure error collected.field (Path.root.join (.key key))
    have hfailure : (ShownResponse.ofField key failure).Selected (context.scope none) selections :=
      ShownResponse.selected_ofField hcollect (.leaf .null fun _ => ⟨rfl, rfl⟩)
    exact hreply (ResponseStream.shows_consume_single hfailure bound count)
  · have hrecord : ∀ label, callRecord (Path.root.join (.key (label key)))
        (collected.relabel label).field resolved = _ := fun label =>
      callRecord_relabel label (Path.root.join (.key key)) collected.field resolved
    simp only [startField, Job.map_noting, Job.watch_noting, hrecord]
    refine Job.Shows.noting _ ?_
    obtain ⟨type, arguments, node⟩ := resolved
    cases node with
    | stream source => exact hreply (ResponseStream.shows_consume hcollect type bound count source)
    | ready _ _ | effect _ _ _ =>
      exact (hfails (.subscription (.notAStream collected.field.name))).noting
        (releaseRecord (Path.root.join (.key key)) _)

end Started

/-- A response has the keys that have been selected, unless its data are null. -/
theorem SelectedFields.selected_ofFields {context : Context ref} {runtime : Option String}
    {selections : List Selection} {outcomes : Entries ShownOutcome}
    (h : context.SelectedFields runtime selections outcomes) :
    (ShownResponse.ofFields outcomes).Selected (context.scope none) selections := by
  rw [ShownResponse.Selected, ShownResponse.ofFields]
  split
  · exact .leaf .null fun _ => ⟨rfl, rfl⟩
  · exact h.selected

/-- What is seen of a subscription under all labels. -/
theorem shows_subscribe (context : Context ref) (bound count : Nat) (root : ObjectType ref)
    (selections : List Selection) :
    Job.Shows (SelectedAnswer (context.scope none) selections) viewAnswer fun label =>
      Job.watch bound count (((context.relabel label).subscribe bound root
        (selections.map (Selection.relabel label))).map startedReply) := by
  have hcollect : ∀ label, label.Injective →
      collect ((context.relabel label).scope (some root.name))
        (selections.map (Selection.relabel label)) =
      Entries.relabel label (CollectedField.relabel label)
        (collect (context.scope (some root.name)) selections) := fun label hlabel =>
    collect_relabel hlabel (context.scope (some root.name)) selections
  have hfails := Job.shows_error (context.scope none) selections
  rcases hfields : collect (context.scope (some root.name)) selections with
    _ | ⟨⟨key, collected⟩, _ | ⟨second, others⟩⟩
  · refine (hfails (.subscription (.fieldCount 0))).congr fun label hlabel => ?_
    rw [subscribe, hcollect label hlabel, hfields]
    rfl
  · by_cases htype : collected.field.name = typenameField
    · refine (hfails (.subscription (.notAStream collected.field.name))).congr ?_
      intro label hlabel
      rw [subscribe, hcollect label hlabel, hfields]
      have hname : (collected.relabel label).field.name = typenameField := htype
      simp only [Entries.relabel, List.map_cons, List.map_nil, if_pos hname]
      rfl
    have hresolve : ∀ label, (context.relabel label).resolve bound root
        (collected.relabel label).field = context.resolve bound root collected.field :=
      fun _ => rfl
    refine (shows_startField hfields bound count
      (context.resolve bound root collected.field).run).congr fun label hlabel => ?_
    have hone := hcollect label hlabel
    rw [hfields] at hone
    rw [subscribe_eq_startField hone htype, hresolve]
  · refine (hfails (.subscription (.fieldCount (others.length + 2)))).congr fun label hlabel => ?_
    rw [subscribe, hcollect label hlabel, hfields]
    simp only [Entries.relabel, List.map_cons, List.length_cons, List.length_map]
    rfl

end Context

/-! ## Documents -/

/-- Of a document with other labels the same operation is picked. -/
theorem ExecutableDocument.operation_relabel (label : String → String)
    (document : ExecutableDocument) (name : Option String) :
    (document.relabel label).operation name =
      (document.operation name).map (Operation.relabel label) := by
  obtain ⟨fragments, operations⟩ := document
  cases name with
  | none =>
    rcases operations with _ | ⟨only, _ | ⟨second, others⟩⟩
    · rfl
    · rfl
    · simp only [operation, relabel, List.map_cons, List.length_cons, List.length_map]
      rfl
  | some name =>
    simp only [operation, relabel, List.find?_map]
    have hname : (fun operation : Operation => decide (operation.name = some name)) ∘
        Operation.relabel label = fun operation => decide (operation.name = some name) := rfl
    rw [hname]
    cases operations.find? fun operation => decide (operation.name = some name) <;> rfl

namespace Service

/-- What is read when the fields of an operation are collected. -/
def operationScope (service : Service ref) (document : ExecutableDocument) (operation : Operation)
    (bindings : Variables) : Collection.Scope :=
  ⟨service.schema.types, document.fragments, operation.complete bindings, none⟩

/-- An operation is executed alike under all labels. -/
theorem shows_run (service : Service ref) (objects : ref → ObjectType ref) (bound count : Nat)
    (document : ExecutableDocument) (operation : Operation) (root : ObjectType ref)
    (bindings : Variables) :
    Job.Shows (SelectedAnswer (service.operationScope document operation bindings)
        operation.selections) viewAnswer fun label =>
      (service.run objects bound (document.relabel label) (operation.relabel label) root
        bindings).watch bound count := by
  let context := service.context objects document (operation.complete bindings)
  have hfields : Job.Shows (SelectedAnswer (context.scope none) operation.selections) viewAnswer
      fun label => Job.watch bound count
        (((context.relabel label).executeFields bound (service.rootWidth context operation.kind)
          root .root (operation.selections.map (Selection.relabel label))).map fun outcomes =>
            (.ok (.response outcomes.response) : Except RequestError (Reply ref))) := by
    have hresponse := ((context.shows bound).fields (service.rootWidth context operation.kind) root
      .root operation.selections).map (fun _ => Outcomes.response) ShownResponse.ofFields
      ShownResponse.view_ofFields fun outcomes houtcomes => houtcomes.selected_ofFields
    refine (hresponse.map (fun _ only => Except.ok (Reply.View.response only))
      (fun only => Except.ok (ShownReply.response only)) (fun _ _ => rfl) ?_).congr
        fun label _ => ?_
    · rintro only honly _ ⟨⟩
      exact honly
    · exact (congrArg (Job.watch bound count) (Job.map_map Outcomes.response _ _).symm).trans
        (Job.watch_response _)
  obtain ⟨name, kind, declared, selections⟩ := operation
  cases kind with
  | subscription => exact context.shows_subscribe bound count root selections
  | query | mutation => exact hfields

/-- What is seen of a reply is the same under all labels. -/
theorem shows_watch (service : Service ref) (objects : ref → ObjectType ref) (bound count : Nat)
    (document : ExecutableDocument) (name : Option String) (bindings : Variables) :
    Job.Shows (fun answer => ∀ operation, document.operation name = .ok operation →
        SelectedAnswer (service.operationScope document operation bindings) operation.selections
          answer) viewAnswer fun label =>
      (service.executeDocument objects bound (document.relabel label) name bindings).watch bound
        count := by
  simp only [executeDocument, ExecutableDocument.operation_relabel]
  cases hoperation : document.operation name with
  | error error => exact Job.Shows.done (Except.error (RequestError.operation error)) (by simp)
  | ok operation =>
    have hkind : ∀ label, (operation.relabel label).kind = operation.kind := fun _ => rfl
    have hright : ∀ answer,
        SelectedAnswer (service.operationScope document operation bindings) operation.selections
          answer →
        ∀ other, (.ok operation : Except OperationError Operation) = .ok other →
          SelectedAnswer (service.operationScope document other bindings) other.selections
            answer := by
      rintro answer h _ ⟨⟩
      exact h
    simp only [Except.map, hkind]
    cases service.schema.root operation.kind with
    | none => exact (Job.shows_error _ _ (.operation (.unsupported operation.kind))).imp hright
    | some root =>
      exact (service.shows_run objects bound count document operation root bindings).imp hright

end Service

/-- Aliases that say what was said before change nothing. -/
theorem ExecutableDocument.watch_relabel_id (service : Service ref)
    (objects : ref → ObjectType ref) (document : ExecutableDocument) (name : Option String)
    (bindings : Variables) (bound count : Nat) :
    (service.executeDocument objects bound (document.relabel id) name bindings).watch bound count =
      (service.executeDocument objects bound document name bindings).watch bound count := by
  let related (left right : List Selection) : Prop := right = left.map (Selection.relabel id)
  have hoperations : List.Forall₂ (Operation.Alike related) document.operations
      (document.relabel id).operations :=
    List.forall₂_map_right_iff.mpr (List.forall₂_same.mpr fun operation _ => ⟨rfl, rfl, rfl, rfl⟩)
  refine (Service.Alike.refl service).watch_executeDocument_of_covers
    (fun operation _ => ⟨?_, fun h => h⟩) (fun left h => List.map_eq_nil_iff.mp h.symm) hoperations
    name bound count
  rintro runtime left _ rfl
  let scope := { service.operationScope document operation bindings with runtime }
  show List.Forall₂ _ (collect scope left) (collect (scope.relabel id) (left.map _))
  rw [collect_relabel Function.injective_id]
  refine List.forall₂_map_right_iff.mpr (List.forall₂_same.mpr fun entry _ => ⟨rfl, ?_⟩)
  exact ⟨rfl, rfl, rfl, rfl, rfl, rfl⟩

/-- A document and the same one in which every field has its response key, under an injective
    renaming, for an alias: what is seen of the replies is the same thing under different labels.
    The renaming changes the keys of selected fields, wherever they stand in the data of responses,
    and the keys in the paths of errors and of the record. All else is the same: other values, the
    order of keys, messages, codes, places, calls, times, events and the errors of requests. -/
theorem aliases_are_labels (service : Service ref) (objects : ref → ObjectType ref)
    (document : ExecutableDocument) (name : Option String) (bindings : Variables)
    (bound count : Nat) :
    ∃ seen : Job (Except RequestError ShownReply),
      (∀ start timed, seen start = some timed →
        ∀ operation, document.operation name = .ok operation →
          SelectedAnswer (service.operationScope document operation bindings) operation.selections
            timed.value) ∧
      (service.executeDocument objects bound document name bindings).watch bound count =
        seen.under viewAnswer id ∧
      ∀ label : String → String, label.Injective →
        (service.executeDocument objects bound (document.relabel label) name bindings).watch bound
          count = seen.under viewAnswer label := by
  obtain ⟨seen, hselected, hjobs⟩ :=
    service.shows_watch objects bound count document name bindings
  refine ⟨seen, hselected, ?_, hjobs⟩
  exact (document.watch_relabel_id service objects name bindings bound count).symm.trans
    (hjobs id Function.injective_id)

namespace Sample

/-- A ship that is a record. Its log is a value, in which there is a name as well. -/
def logbook : Service Unit where
  schema := { query := ⟨"Root", [("ship", field (.named "Ship") (.ready none (.leaf (.object [
    ("name", .string "Rocinante"), ("log", .object [("name", .string "first")])]))))]⟩ }

/-- Asks for the ship under another name, for its log, and for fuel that it does not know. -/
def logbookDocument : ExecutableDocument where
  fragments := []
  operations := [⟨none, .query, [], [.field ⟨some "vessel", "ship", [],
    [select "name" [], select "log" [], select "fuel" []], true, {}, ⟨1, 1⟩⟩]⟩]

/-- A new label for a response key. -/
def mine (key : String) : String := "my " ++ key

theorem mine_injective : Function.Injective mine := by
  intro one other h
  have hchars := congrArg String.toList h
  exact String.toList_inj.mp (by simpa [mine] using hchars)

end Sample

/-- The keys of the ship and the path of the error change, the key within the log does not. -/
theorem aliases_are_labels_logbook :
    Function.Injective Sample.mine ∧
    (∃ seen : Job (Except RequestError ShownReply),
      (Sample.logbook.executeDocument (fun _ => ⟨"Ship", []⟩) 9 Sample.logbookDocument none
        []).watch 9 0 = seen.under viewAnswer id ∧
      (Sample.logbook.executeDocument (fun _ => ⟨"Ship", []⟩) 9
        (Sample.logbookDocument.relabel Sample.mine) none []).watch 9 0 =
          seen.under viewAnswer Sample.mine) ∧
    ((Sample.logbook.executeDocument (fun _ => ⟨"Ship", []⟩) 9
      (Sample.logbookDocument.relabel Sample.mine) none []).watch 9 0 0).map Timed.value =
        some (.ok (.response {
          data := some (.object [("my vessel", .object [("my name", .string "Rocinante"),
            ("my log", .object [("name", .string "first")]), ("my fuel", .null)])])
          errors := [(FieldError.unknownField "fuel" "Ship").report
            ⟨[.key "my vessel", .key "my fuel"]⟩ ⟨1, 1⟩] })) := by
  obtain ⟨seen, -, horiginal, hrelabelled⟩ := aliases_are_labels Sample.logbook
    (fun _ => ⟨"Ship", []⟩) Sample.logbookDocument none [] 9 0
  exact ⟨Sample.mine_injective, ⟨seen, horiginal, hrelabelled _ Sample.mine_injective⟩, rfl⟩

end GraphQL

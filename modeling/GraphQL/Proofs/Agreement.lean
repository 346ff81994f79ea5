import GraphQL.Proofs.Collection
import GraphQL.Proofs.InOrder
import GraphQL.Proofs.Service
import GraphQL.Proofs.Window

/-!
# Responses do not depend on time

Executions run in windows and take time, and what they give is put together when all parts are
there. The evaluation in order gives the same.

Main results:
* `foldlM_add_eq`: putting an object together on the way and at the end are the same.
* `Context.gives_inOrder`: on every level, what an execution gives is what the reference gives,
  whenever the work starts and however wide the windows are.
* `response_eq_inOrder`: the same of the response to a query or mutation. Services that differ in
  durations, labels and configuration only give the same response.
-/

namespace GraphQL

variable {ref : Type}

/-! ## Assembled objects -/

theorem foldlM_map_eq {α β γ : Type} (f : α → Option β) (step : γ → β → γ) (items : List α)
    (done : γ) :
    items.foldlM (fun done item => (f item).map (step done)) done =
      (items.mapM f).map (List.foldl step done) := by
  induction items generalizing done with
  | nil => rfl
  | cons item rest ih =>
    rw [List.foldlM_cons, List.mapM_cons]
    cases f item with
    | none => rfl
    | some first =>
      show rest.foldlM _ (step done first) = Option.map _ ((rest.mapM f).bind _)
      rw [ih]
      cases rest.mapM f <;> rfl

/-- Completing items in turn and appending each outcome gives the outcome of the list. -/
theorem foldlM_items_eq {α : Type} (complete : α → Option Outcome) (items : List α) :
    items.foldlM (fun (done : List Value × List Error) item => (complete item).map fun outcome =>
        (done.1 ++ [outcome.value], done.2 ++ outcome.errors)) ([], []) =
      (items.mapM complete).map fun outcomes =>
        (outcomes.map Outcome.value, outcomes.flatMap Outcome.errors) := by
  have hfold : ∀ (outcomes : List Outcome) (done : List Value × List Error),
      outcomes.foldl (fun done outcome => (done.1 ++ [outcome.value], done.2 ++ outcome.errors))
          done =
        (done.1 ++ outcomes.map Outcome.value, done.2 ++ outcomes.flatMap Outcome.errors) := by
    intro outcomes
    induction outcomes with
    | nil => simp
    | cons outcome rest ih => intro done; rw [List.foldl_cons, ih]; simp
  rw [foldlM_map_eq complete fun (done : List Value × List Error) outcome =>
    (done.1 ++ [outcome.value], done.2 ++ outcome.errors)]
  congr 1
  funext outcomes
  simp [hfold]

theorem mapM_eq_some_iff {α β : Type} {f : α → Option β} {items : List α} {results : List β} :
    items.mapM f = some results ↔
      List.Forall₂ (fun item result => f item = some result) items results := by
  induction items generalizing results with
  | nil => simp [eq_comm]
  | cons item rest ih =>
    rw [List.mapM_cons]
    constructor
    · intro h
      obtain ⟨first, hfirst, h⟩ := Option.bind_eq_some_iff.mp h
      obtain ⟨others, hothers, h⟩ := Option.bind_eq_some_iff.mp h
      cases h
      exact .cons hfirst (ih.mp hothers)
    · rintro (_ | ⟨hfirst, hrest⟩)
      rw [hfirst, ih.mpr hrest]
      rfl

namespace Outcomes

/-- The outcomes of all fields, put together. -/
def assemble (outcomes : Outcomes) : Assembly :=
  ⟨outcomes.fields, outcomes.errors, outcomes.countP fun entry => entry.2.failed⟩

theorem foldl_add_from (outcomes : Outcomes) (done : Assembly)
    (hnew : ∀ key ∈ Entries.keys outcomes, key ∉ Entries.keys done.object)
    (hnodup : (Entries.keys outcomes).Nodup) :
    outcomes.foldl (fun done entry => done.add entry.1 entry.2) done =
      ⟨done.object ++ outcomes.fields, done.errors ++ outcomes.errors,
        done.failed + outcomes.countP fun entry => entry.2.failed⟩ := by
  induction outcomes generalizing done with
  | nil => simp [fields, errors, Entries.mapValues]
  | cons entry rest ih =>
    obtain ⟨key, outcome⟩ := entry
    simp only [Entries.keys, List.map_cons, List.nodup_cons, List.mem_cons, forall_eq_or_imp]
      at hnew hnodup
    have hput : (done.add key outcome).object = done.object ++ [(key, outcome.value)] :=
      Entries.put_of_not_mem hnew.1 _
    rw [List.foldl_cons, ih (done.add key outcome) _ hnodup.2, hput]
    · simp [Assembly.add, fields, errors, Entries.mapValues, List.countP_cons]
      omega
    · intro other hother
      rw [hput]
      simp only [Entries.keys, List.map_append, List.map_cons, List.map_nil, List.mem_append,
        List.mem_singleton, not_or]
      exact ⟨hnew.2 other hother, fun e => hnodup.1 (e ▸ hother)⟩

/-- Adding the outcomes of distinct keys one after the other puts them together. -/
theorem foldl_add {outcomes : Outcomes} (hnodup : (Entries.keys outcomes).Nodup) :
    outcomes.foldl (fun done entry => done.add entry.1 entry.2) {} = outcomes.assemble := by
  rw [foldl_add_from outcomes {} (by simp [Entries.keys]) hnodup]
  simp [assemble]

theorem allFailed_iff (outcomes : Outcomes) :
    outcomes.allFailed = true ↔ 0 < outcomes.assemble.failed ∧
      outcomes.assemble.failed = outcomes.assemble.object.length := by
  have hlen : outcomes.assemble.object.length = outcomes.length := by
    simp [assemble, fields, Entries.mapValues]
  rw [hlen]
  show _ ↔ 0 < outcomes.countP _ ∧ outcomes.countP _ = outcomes.length
  rw [List.countP_eq_length, List.countP_pos_iff, allFailed]
  cases outcomes with
  | nil => simp
  | cons entry rest => simp +contextual

theorem response_assemble (outcomes : Outcomes) :
    outcomes.assemble.response = outcomes.response := by
  simp only [Assembly.response, ← allFailed_iff]
  rfl

end Outcomes

/-- Evaluating the entries in turn and adding each outcome gives what all of them are put
    together. -/
theorem foldlM_add_eq {α : Type} {entries : Entries α} (hnodup : (Entries.keys entries).Nodup)
    (evaluate : String × α → Option Outcome) :
    entries.foldlM (fun done entry => (evaluate entry).map (done.add entry.1)) ({} : Assembly) =
      (entries.mapM fun entry => (evaluate entry).map fun outcome => (entry.1, outcome)).map
        Outcomes.assemble := by
  have hstep : ∀ (done : Assembly) (entry : String × α),
      (evaluate entry).map (done.add entry.1) =
        ((evaluate entry).map fun outcome => (entry.1, outcome)).map
          fun pair => done.add pair.1 pair.2 := by
    intro done entry
    rw [Option.map_map]
    rfl
  simp only [hstep]
  refine (foldlM_map_eq (fun entry => (evaluate entry).map fun outcome => (entry.1, outcome))
    (fun (done : Assembly) (pair : String × Outcome) => done.add pair.1 pair.2) entries
    ({} : Assembly)).trans ?_
  cases hall : entries.mapM fun entry => (evaluate entry).map fun outcome => (entry.1, outcome) with
  | none => rfl
  | some outcomes =>
    have hkeys : Entries.keys outcomes = Entries.keys entries := by
      have hrel := mapM_eq_some_iff.mp hall
      clear hnodup hall
      induction hrel with
      | nil => rfl
      | cons hfirst _ ih =>
        obtain ⟨outcome, -, rfl⟩ := Option.map_eq_some_iff.mp hfirst
        simp only [Entries.keys, List.map_cons] at ih ⊢
        rw [ih]
    rw [Option.map_some, Option.map_some, Outcomes.foldl_add (hkeys ▸ hnodup)]

/-! ## Agreement -/

namespace Context

/-- What the reference reads from in place of a context. The width of the windows is left out. -/
def inOrder (context : Context ref) : InOrder ref where
  objects reference := (context.objects reference).timeless
  types := context.types
  fragments := context.fragments
  bindings := context.bindings

theorem resolve_inOrder (context : Context ref) (bound : Nat) (object : ObjectType ref)
    (field : Field) :
    context.inOrder.resolve bound object.timeless field =
      (context.resolve bound object field).run.map
        (Except.map fun called => (called.type, called.node.answer)) := by
  rw [InOrder.resolve, resolve, ObjectType.timeless, Entries.find?_mapValues, ← ObjectType.field?]
  cases object.field? field.name with
  | none => rfl
  | some definition =>
    simp only [Option.map_some, FieldDefinition.timeless, inOrder]
    show _ = Option.map _ (Option.map _ (coerceArguments _ _ _ _ _).run)
    cases (coerceArguments context.types context.bindings bound definition.resolver.arguments
        field).run with
    | none => rfl
    | some result => rcases result with ⟨argument, reason⟩ | arguments <;> rfl

/-- All work within the bound gives what the reference gives. -/
structure GivesInOrder (context : Context ref) (bound : Nat) : Prop where
  value (type : TypeRef) (value : Resolved ref) (collected : CollectedField) (path : Path) :
    (context.completeValue bound type value collected path).Gives
      (context.inOrder.completeSettled bound type value.settle collected path)
  node (type : TypeRef) (node : Node ref) (collected : CollectedField) (path : Path) :
    (context.completeNode bound type node collected path).Gives
      (context.inOrder.completeAnswer bound type node.answer collected path)
  field (object : ObjectType ref) (collected : CollectedField) (path : Path) :
    (context.executeField bound object collected path).Gives
      (context.inOrder.evaluateField bound object.timeless collected path)
  fields (width : Nat) (object : ObjectType ref) (path : Path) (selections : List Selection) :
    ((context.executeFields bound width object path selections).map Outcomes.assemble).Gives
      (context.inOrder.evaluateFields bound object.timeless path selections)

variable {context : Context ref} {bound : Nat}

theorem gives_value_succ (below : context.GivesInOrder bound) (type : TypeRef)
    (value : Resolved ref) (collected : CollectedField) (path : Path) :
    (context.completeValue (bound + 1) type value collected path).Gives
      (context.inOrder.completeSettled (bound + 1) type value.settle collected path) := by
  cases value with
  | leaf value =>
    simp only [completeValue, Resolved.settle, InOrder.completeSettled]
    split <;> exact .done _
  | object reference =>
    simp only [completeValue, Resolved.settle, InOrder.completeSettled]
    split
    · have h := (below.fields context.window (context.objects reference) path
        collected.selections).map
        fun assembly => (⟨.object assembly.object, assembly.errors, false⟩ : Outcome)
      rw [Job.map_map] at h
      exact h
    · exact .done _
  | list items =>
    simp only [completeValue, Resolved.settle, InOrder.completeSettled]
    rw [Node.answers_eq_map, List.zipIdx_map, List.foldlM_map, foldlM_items_eq, Option.map_map]
    exact (Window.gives_run context.window items.zipIdx fun entry _ =>
      below.node (type.itemType?.getD type) entry.1 collected (path.join (.index entry.2))).map _

theorem gives_node_succ (below : context.GivesInOrder bound) (type : TypeRef) (node : Node ref)
    (collected : CollectedField) (path : Path) :
    (context.completeNode (bound + 1) type node collected path).Gives
      (context.inOrder.completeAnswer (bound + 1) type node.answer collected path) := by
  cases node with
  | ready label value => exact below.value type value collected path
  | effect label delay outcome =>
    cases outcome with
    | ok value => exact ((below.value type value collected path).after delay).noting _
    | error cause => exact ((Job.Gives.done _).after delay).noting _
  | stream source => exact (Job.Gives.done _).noting _

theorem gives_field_succ (below : context.GivesInOrder bound) (object : ObjectType ref)
    (collected : CollectedField) (path : Path) :
    (context.executeField (bound + 1) object collected path).Gives
      (context.inOrder.evaluateField (bound + 1) object.timeless collected path) := by
  rw [executeField, InOrder.evaluateField, resolve_inOrder]
  split
  · exact .done _
  · cases (context.resolve bound object collected.field).run with
    | none => exact .unfinished
    | some result =>
      cases result with
      | error error => exact .done _
      | ok called => exact (below.node called.type called.node collected path).noting _

theorem gives_fields_succ (below : context.GivesInOrder bound) (width : Nat)
    (object : ObjectType ref) (path : Path) (selections : List Selection) :
    ((context.executeFields (bound + 1) width object path selections).map Outcomes.assemble).Gives
      (context.inOrder.evaluateFields (bound + 1) object.timeless path selections) := by
  rw [InOrder.evaluateFields]
  rw [foldlM_add_eq (nodup_keys_collect _ _)]
  refine Job.Gives.map _ (Window.gives_run width _ fun entry _ => ?_)
  exact (below.field object entry.2 (path.join (.key entry.1))).map _

/-- Whenever work is started and however wide the windows are, it gives what the reference gives. -/
theorem gives_inOrder (context : Context ref) (bound : Nat) : context.GivesInOrder bound := by
  induction bound with
  | zero => constructor <;> intros <;> exact .unfinished
  | succ bound below =>
    exact ⟨gives_value_succ below, gives_node_succ below, gives_field_succ below,
      gives_fields_succ below⟩

end Context

/-! ## Responses -/

namespace Service

variable {service : Service ref} {objects : ref → ObjectType ref} {bound : Nat}
  {document : ExecutableDocument} {name : Option String} {bindings : Variables}

theorem gives_executeRoot (service : Service ref) (objects : ref → ObjectType ref) (bound : Nat)
    (document : ExecutableDocument) (operation : Operation) (root : ObjectType ref)
    (bindings : Variables) :
    ((service.executeRoot objects bound document operation root bindings).map
        Outcomes.response).Gives
      (((service.context objects document (operation.complete bindings)).inOrder.evaluateFields
        bound root.timeless .root operation.selections).map Assembly.response) := by
  have h := ((Context.gives_inOrder (service.context objects document
    (operation.complete bindings)) bound).fields
      (service.rootWidth (service.context objects document (operation.complete bindings))
        operation.kind) root .root operation.selections).map Assembly.response
  rw [Job.map_map] at h
  have hresponse : Assembly.response ∘ Outcomes.assemble = Outcomes.response :=
    funext Outcomes.response_assemble
  rwa [hresponse] at h

theorem Selects.gives {operation : Operation} {root : ObjectType ref}
    (h : service.Selects document name operation root) :
    (service.executeDocument objects bound document name bindings).Gives
      (((service.context objects document (operation.complete bindings)).inOrder.evaluateFields
        bound root.timeless .root operation.selections).map fun assembly =>
          .ok (.response assembly.response)) := by
  have hgives := (gives_executeRoot service objects bound document operation root
    bindings).map fun response => (.ok (.response response) : Except RequestError (Reply ref))
  rw [Job.map_map, Option.map_map] at hgives
  rw [h.executeDocument]
  exact hgives

/-- A query or mutation gives what the reference gives. -/
theorem gives_executeDocument
    (h : ∀ operation, document.operation name = .ok operation → operation.kind ≠ .subscription) :
    (service.executeDocument objects bound document name bindings).Gives
      ((InOrder.execute service.schema.timeless (fun reference => (objects reference).timeless)
        bound document name bindings).map (Except.map Reply.response)) := by
  cases ho : document.operation name with
  | error error =>
    rw [executeDocument, InOrder.execute, ho]
    exact .done _
  | ok operation =>
    cases hr : service.schema.root operation.kind with
    | none =>
      rw [executeDocument, InOrder.execute, ho]
      dsimp only
      rw [Schema.root_timeless, hr]
      exact .done _
    | some root =>
      have hs : service.Selects document name operation root := ⟨ho, hr, h operation ho⟩
      rw [InOrder.execute, ho]
      dsimp only
      rw [Schema.root_timeless, hr, Option.map_some, Option.map_map]
      exact hs.gives

end Service

/-- The response to a query or mutation, or the error that stands in its place, is that of an
    evaluation in order. Whenever it is started, a service gives nothing else; more levels do not
    change it; and neither do other durations and labels or another configuration. -/
theorem response_eq_inOrder (service : Service ref) (objects : ref → ObjectType ref) (bound : Nat)
    (document : ExecutableDocument) (name : Option String) (bindings : Variables)
    (h : ∀ operation, document.operation name = .ok operation → operation.kind ≠ .subscription) :
    let reference := fun bound =>
      InOrder.execute service.schema.timeless (fun object => (objects object).timeless) bound
        document name bindings
    (∀ start, (service.executeDocument objects bound document name bindings start).map
        Timed.value = (reference bound).map (Except.map Reply.response)) ∧
    (∀ more, bound ≤ more → ∀ response,
      reference bound = some response → reference more = some response) ∧
    ∀ (other : Service ref) (others : ref → ObjectType ref),
      other.schema.timeless = service.schema.timeless →
      (∀ object, (others object).timeless = (objects object).timeless) →
      ∀ start start',
        (other.executeDocument others bound document name bindings start).map Timed.value =
          (service.executeDocument objects bound document name bindings start').map
            Timed.value := by
  refine ⟨Service.gives_executeDocument h, fun more hle => InOrder.execute_le hle, ?_⟩
  intro other others hschema hobjects start start'
  rw [Service.gives_executeDocument h start, Service.gives_executeDocument h start', hschema,
    funext hobjects]

/-- Two small services whose effects take different times, run in windows of different widths. -/
theorem response_eq_inOrder_sample :
    (∀ start, ((Sample.service 7 0).executeDocument (fun _ => Sample.ship 5) 20
        (Sample.document .query) none [] start).map Timed.value =
      ((Sample.service 3 2).executeDocument (fun _ => Sample.ship 1) 20
        (Sample.document .query) none [] 0).map Timed.value) ∧
    ((Sample.service 3 2).executeDocument (fun _ => Sample.ship 1) 20
        (Sample.document .query) none [] 0).isSome = true := by
  refine ⟨fun start => ?_, by decide +kernel⟩
  refine (response_eq_inOrder (Sample.service 3 2) (fun _ => Sample.ship 1) 20
    (Sample.document .query) none [] ?_).2.2 (Sample.service 7 0) (fun _ => Sample.ship 5) rfl
    (fun _ => rfl) start 0
  rintro operation ⟨⟩
  decide

end GraphQL

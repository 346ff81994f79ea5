import GraphQL.Proofs.Pace
import GraphQL.Proofs.Siblings
import Mathlib.Algebra.Ring.Nat

/-!
# Concurrency

How the configured concurrency shapes an execution. Every selection set and every list has a window
of its own, as wide as the configuration says; at the root of a mutation whose fields are to run one
after the other it has one slot (`Service.widthAt`).

Results:
* `Unbroken.finish_eq`: what happens one after the other takes as long as its effects together.
* `Service.exists_executeDocument_of_wider`: a service with wider windows answers no later.
* `execution_windows`: windows throughout an execution, and what their width does to its pace.
-/

namespace GraphQL

open Relation

variable {ref : Type}

/-! ## One effect after the other -/

/-- How long something takes. Calls take no time. -/
def Activity.duration : Activity → Nat
  | .call .. => 0
  | .effect _ _ duration => duration

theorem sum_duration_cons (o : Occurrence) (rest : List Occurrence) :
    ((activities (o :: rest)).map Activity.duration).sum =
      (o.finish - o.start) + ((activities rest).map Activity.duration).sum := by
  cases o with
  | ran path label start finish => rfl
  | called path field arguments time =>
    show 0 + _ = (time - time) + _
    rw [Nat.sub_self]
    rfl
  | made label time | pulled path time | released path sources time =>
    show _ = (time - time) + _
    rw [Nat.sub_self, Nat.zero_add]
    rfl

/-- Time only passes while effects run. -/
theorem Unbroken.finish_eq {start finish : Nat} {record : List Occurrence}
    (h : Unbroken start record finish) :
    finish = start + ((activities record).map Activity.duration).sum := by
  induction record generalizing start with
  | nil => exact h
  | cons o rest ih =>
    obtain ⟨hstart, hle, hrest⟩ := h
    have hfinish := ih hrest
    rw [sum_duration_cons]
    omega

/-! ## Windows of a service -/

namespace Service

variable {service wide : Service ref} {objects : ref → ObjectType ref} {bound start finish : Nat}
  {document : ExecutableDocument} {name : Option String} {bindings : Variables}
  {operation : Operation} {root : ObjectType ref} {context : Context ref}

/-- How wide the window is that siblings right below a path share. -/
def widthAt (service : Service ref) (context : Context ref) (kind : OperationKind) (path : Path) :
    Nat :=
  if path = .root then service.rootWidth context kind else context.window

theorem rootWidth_pos (service : Service ref) (context : Context ref) (kind : OperationKind) :
    0 < service.rootWidth context kind := by
  unfold rootWidth
  split
  · exact Nat.zero_lt_one
  · exact Nat.le_max_left 1 context.width

theorem windows_widthAt (service : Service ref) (context : Context ref) (kind : OperationKind) :
    context.Windows (service.widthAt context kind) where
  pos path := by
    unfold widthAt
    split
    · exact rootWidth_pos service context kind
    · exact Nat.le_max_left 1 context.width
  below hpath := if_neg hpath

/-- The work of an execution begins with the root object. -/
theorem takes_executeRoot {outcomes : Outcomes} {record : List Occurrence}
    (h : service.executeRoot objects bound document operation root bindings start =
      some ⟨outcomes, finish, record⟩) :
    let context := service.context objects document (operation.complete bindings)
    context.Takes (service.widthAt context operation.kind)
      (.root, .object root operation.selections) start finish record :=
  ⟨bound, outcomes, h⟩

/-- Root fields have no fewer slots if all windows are wider. -/
theorem rootWidth_le {context wider : Context ref}
    (hserial : wide.configuration.execution.serialMutations =
      service.configuration.execution.serialMutations)
    (hwindow : context.window ≤ wider.window) (kind : OperationKind) :
    service.rootWidth context kind ≤ wide.rootWidth wider kind := by
  unfold rootWidth
  rw [hserial]
  split
  · exact Nat.le_refl 1
  · exact hwindow

/-- A service with the same schema and wider windows gives the same response no later, and all that
    happens on the way happens no later. -/
theorem exists_executeDocument_of_wider {response : Response Error} {record : List Occurrence}
    (h : service.executeDocument objects bound document name bindings start =
      some ⟨.ok (.response response), finish, record⟩)
    (hschema : wide.schema = service.schema)
    (hserial : wide.configuration.execution.serialMutations =
      service.configuration.execution.serialMutations)
    (hwidth : max 1 service.configuration.execution.maxConcurrency ≤
      max 1 wide.configuration.execution.maxConcurrency) :
    ∃ finish' record', wide.executeDocument objects bound document name bindings start =
        some ⟨.ok (.response response), finish', record'⟩ ∧ finish' ≤ finish ∧
      List.Forall₂ Occurrence.NoLater record' record := by
  obtain ⟨operation, root, outcomes, hselects, hrun, rfl⟩ := executeDocument_eq_response_iff.mp h
  -- The other service executes the same in a context that only has another width.
  let context := service.context objects document (operation.complete bindings)
  let wider : Context ref :=
    { context with width := wide.configuration.execution.maxConcurrency }
  have hcontext : wide.context objects document (operation.complete bindings) = wider := by
    unfold Service.context
    rw [hschema]
    rfl
  have hwindow : context.window ≤ wider.window := hwidth
  have hroot : service.rootWidth context operation.kind ≤ wide.rootWidth wider operation.kind :=
    rootWidth_le hserial hwindow operation.kind
  obtain ⟨⟨outcomes', finish', record'⟩, hwide, hnoLater⟩ :=
    (Context.quicker hwindow bound).fields hroot (rootWidth_pos _ _ _) root .root
      operation.selections start start (Nat.le_refl start) _ hrun
  obtain rfl : outcomes' = outcomes := hnoLater.value
  have hselected : wide.Selects document name operation root :=
    ⟨hselects.picked, hschema ▸ hselects.served, hselects.kind_ne⟩
  refine ⟨finish', record', ?_, hnoLater.finish, hnoLater.record⟩
  refine executeDocument_eq_response_iff.mpr ⟨operation, root, outcomes', hselected, ?_, rfl⟩
  rw [executeRoot, hcontext]
  exact hwide

/-- With one slot in every window the root fields are executed without a break. -/
theorem unbroken_executeRoot {outcomes : Outcomes} {record : List Occurrence}
    (h : service.executeRoot objects bound document operation root bindings start =
      some ⟨outcomes, finish, record⟩)
    (hwidth : max 1 service.configuration.execution.maxConcurrency = 1) :
    Unbroken start record finish := by
  have hwindow : (service.context objects document (operation.complete bindings)).window = 1 :=
    hwidth
  have hroot : service.rootWidth (service.context objects document (operation.complete bindings))
      operation.kind = 1 := by
    unfold rootWidth
    split
    · rfl
    · exact hwindow
  exact ((unbrokenRules hwindow).holds bound).fields h hroot

end Service

/-- Wherever the execution of a query or mutation comes by, the siblings there (the fields of an
    object or the items of a list) start in order in a window as wide as the configuration says: one
    starts when the one that stands a whole window before it is handed over, and at no time are more
    of them started and not handed over than the window is wide. Each sibling has a part of the
    record to itself. Wider windows give the same response no later, and every call and every effect
    begins and ends no later. With one slot in every window, whatever happens begins when the last
    thing is over, so the response is there when the effects that ran have taken their time one
    after the other. -/
theorem execution_windows {service : Service ref} {objects : ref → ObjectType ref}
    {bound start finish : Nat} {document : ExecutableDocument} {name : Option String}
    {bindings : Variables} {response : Response Error} {record : List Occurrence}
    (h : service.executeDocument objects bound document name bindings start =
      some ⟨.ok (.response response), finish, record⟩) :
    (∃ operation root, service.Selects document name operation root ∧
      let context := service.context objects document (operation.complete bindings)
      let width := service.widthAt context operation.kind
      ∀ place, ReflTransGen context.Leads (.root, .object root operation.selections) place →
        ∃ opened spans, Window.Spaced (width place.1) opened spans ∧
          List.Forall₂ (context.Part width record) (context.siblings place) spans) ∧
    (∀ wide : Service ref, wide.schema = service.schema →
      wide.configuration.execution.serialMutations =
        service.configuration.execution.serialMutations →
      max 1 service.configuration.execution.maxConcurrency ≤
        max 1 wide.configuration.execution.maxConcurrency →
      ∃ finish' record', wide.executeDocument objects bound document name bindings start =
          some ⟨.ok (.response response), finish', record'⟩ ∧ finish' ≤ finish ∧
        List.Forall₂ Occurrence.NoLater record' record) ∧
    (max 1 service.configuration.execution.maxConcurrency = 1 →
      Unbroken start record finish ∧
        finish = start + ((activities record).map Activity.duration).sum) := by
  refine ⟨?_, fun wide => Service.exists_executeDocument_of_wider h, fun hwidth => ?_⟩
  · obtain ⟨operation, root, outcomes, hselects, hrun, -⟩ :=
      Service.executeDocument_eq_response_iff.mp h
    refine ⟨operation, root, hselects, fun place hreach => ?_⟩
    exact Context.spans_of_reaches (service.windows_widthAt _ operation.kind)
      (fun _ => ⟨root, operation.selections, rfl⟩) (Service.takes_executeRoot hrun) hreach
  · obtain ⟨operation, root, outcomes, -, hrun, -⟩ :=
      Service.executeDocument_eq_response_iff.mp h
    have hunbroken : Unbroken start record finish := Service.unbroken_executeRoot hrun hwidth
    exact ⟨hunbroken, hunbroken.finish_eq⟩

/-- The ship, its name and its fuel, and the ship and the fuel of the fleet come one after the other
    in windows of one slot, three units of time each. With two slots they are there no later. -/
theorem execution_windows_ship :
    ∃ response record,
      (Sample.service 3 1).executeDocument (fun _ => Sample.ship 3) 20 (Sample.document .query) none
        [] 0 = some ⟨.ok (.response response), 15, record⟩ ∧
      ((activities record).map Activity.duration).sum = 15 ∧
      (∃ finish' record',
        (Sample.service 3 2).executeDocument (fun _ => Sample.ship 3) 20 (Sample.document .query)
          none [] 0 = some ⟨.ok (.response response), finish', record'⟩ ∧ finish' ≤ 15) ∧
      ∃ opened spans, Window.Spaced 1 opened spans ∧ spans.length = 2 := by
  have hrun : ((Sample.service 3 1).executeRoot (fun _ => Sample.ship 3) 20
      (Sample.document .query) (Sample.operation .query) (Sample.root 3) [] 0).map Timed.finish =
        some 15 := by decide +kernel
  obtain ⟨⟨outcomes, _, record⟩, hroot, rfl⟩ := Option.map_eq_some_iff.mp hrun
  have h := Service.executeDocument_eq_response_iff.mpr
    ⟨_, _, outcomes, Sample.selects_query 3 1, hroot, rfl⟩
  obtain ⟨⟨operation, root, hselects, hspans⟩, hwider, hsum⟩ := execution_windows h
  obtain ⟨finish', record', hwide, hle, -⟩ := hwider (Sample.service 3 2) rfl rfl (by decide)
  obtain ⟨-, hfinish⟩ := hsum rfl
  refine ⟨_, record, h, by omega, ⟨finish', record', hwide, hle⟩, ?_⟩
  cases hselects.picked
  cases hselects.served
  obtain ⟨opened, spans, hspaced, hparts⟩ := hspans _ .refl
  exact ⟨opened, spans, hspaced, hparts.length_eq.symm⟩

end GraphQL

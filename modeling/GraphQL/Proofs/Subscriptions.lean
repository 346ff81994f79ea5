import GraphQL.Proofs.Agreement
import GraphQL.Proofs.Collection
import GraphQL.Proofs.Service
import GraphQL.Proofs.Sources

/-!
# Subscriptions

A subscription that has started holds a source and answers its items one at a time.
`ResponseStream.next_live_cases` says what asking for one response can come to, and
`Subscription.Course` what a consumer sees who asks for some responses and drops the stream then:
the due items are answered in turn, each is pulled when the response before it is there, and the
source is released once, when nothing can follow.

Results:
* `ResponseStream.course`: responses that come take this course.
* `ResponseStream.take_eq_none`: only an item that cannot be completed keeps them from coming.
* `subscription_course`: both for the subscriptions of a document, from their start on.
-/

namespace GraphQL

variable {ref : Type}

namespace Subscription

variable {subscription : Subscription ref} {bound asked : Nat}

/-! ## One response -/

/-- How an item is answered when a response was asked for: it is pulled when it is there, and then
    completed. If it failed, the source is released with it. -/
structure Answers (subscription : Subscription ref) (bound : Nat) (item : Event (Resolved ref))
    (asked : Nat) (response : Timed (Response Error)) : Prop
    extends Timed.Within asked response where
  completed : ∃ completed,
    subscription.complete bound item.outcome (asked + item.delay) = some completed ∧
      response.value = completed.value ∧ response.finish = completed.finish
  source : ∃ sources > 0, sourceRecord subscription.path response.record =
    .pulled subscription.path (asked + item.delay) ::
      if item.failed then [.released subscription.path sources (asked + item.delay)] else []

/-- A completed item is answered if the notes before tell what they should of the source. -/
theorem answers_note {item : Event (Resolved ref)} {completed : Timed (Response Error)}
    {notes : List Occurrence} {sources : Nat}
    (h : subscription.complete bound item.outcome (asked + item.delay) = some completed)
    (htime : ∀ o ∈ notes, o.start = asked + item.delay ∧ o.finish = asked + item.delay)
    (hpos : 0 < sources)
    (hsource : sourceRecord subscription.path notes =
      .pulled subscription.path (asked + item.delay) ::
        if item.failed then [.released subscription.path sources (asked + item.delay)] else []) :
    subscription.Answers bound item asked (completed.note notes) := by
  have hinside := complete_inside h
  refine ⟨hinside.toWithin.wait.note fun o ho => ?_, ⟨completed, h, rfl, rfl⟩, sources, hpos, ?_⟩
  · obtain ⟨hstart, hfinish⟩ := htime o ho
    have hle := hinside.start_le
    omega
  · rw [Timed.note_record, sourceRecord_append, hinside.sourceRecord_eq_nil, List.append_nil,
      hsource]

/-- An answer pulls one item. -/
theorem Answers.countP_isPull {item : Event (Resolved ref)} {response : Timed (Response Error)}
    (h : subscription.Answers bound item asked response) :
    (sourceRecord subscription.path response.record).countP Occurrence.isPull = 1 := by
  obtain ⟨sources, -, hsource⟩ := h.source
  rw [hsource]
  cases item.failed <;> rfl

/-- The answer to an item that did not fail tells of the pull only. -/
theorem Answers.sourceRecord_eq {item : Event (Resolved ref)} {response : Timed (Response Error)}
    (h : subscription.Answers bound item asked response) (hfailed : item.failed = false) :
    sourceRecord subscription.path response.record =
      [.pulled subscription.path (asked + item.delay)] := by
  obtain ⟨sources, -, hsource⟩ := h.source
  simpa only [hfailed, Bool.false_eq_true, ite_false] using hsource

/-- Behind the answer to an item that did not fail a record still tells of pulls only. -/
theorem Answers.isPull_of_mem {item : Event (Resolved ref)} {response : Timed (Response Error)}
    {record : List Occurrence} (h : subscription.Answers bound item asked response)
    (hfailed : item.failed = false)
    (hrecord : ∀ o ∈ sourceRecord subscription.path record, o.isPull = true) :
    ∀ o ∈ sourceRecord subscription.path (response.record ++ record), o.isPull = true := by
  intro o ho
  rw [sourceRecord_append, h.sourceRecord_eq hfailed] at ho
  rcases List.mem_cons.mp ho with rfl | ho
  · rfl
  · exact hrecord o ho

/-- Whether an item can be completed does not depend on when that is tried. -/
theorem complete_eq_none {outcome : Except String (Resolved ref)} {start : Nat}
    (h : subscription.complete bound outcome start = none) (time : Nat) :
    subscription.complete bound outcome time = none := by
  cases outcome with
  | error cause => cases h
  | ok value =>
    have hgives := ((subscription.context.gives_inOrder bound).value subscription.type value
      subscription.collected subscription.path).map fun outcome => outcome.response subscription.key
    have hstart := hgives start
    have htime := hgives time
    change (subscription.complete bound (.ok value) start).map Timed.value = _ at hstart
    change (subscription.complete bound (.ok value) time).map Timed.value = _ at htime
    rw [h, Option.map_none] at hstart
    rwa [← hstart, Option.map_eq_none_iff] at htime

end Subscription

namespace ResponseStream

variable {subscription : Subscription ref} {source : Source ref} {bound count start : Nat}

/-- Asking for a response ends the stream if the source has no items left. Otherwise it answers the
    next item; the stream behind a failed item has ended. -/
theorem next_live_cases {timed : Timed (Option (Response Error) × ResponseStream ref)}
    (h : (live subscription source).next bound start = some timed) :
    (source.next? = none ∧
      timed = ⟨(none, ended), start,
        Context.releaseRecord subscription.path source.parts start⟩) ∨
    ∃ step response, source.next? = some step ∧
      subscription.Answers bound step.event start response ∧
      timed = response.map fun value =>
        (some value, if step.event.failed then ended else live subscription step.rest) := by
  cases hnext : source.next? with
  | none =>
    simp only [next, hnext, Job.noting_eq_some_iff, Job.done_eq_some_iff] at h
    obtain ⟨_, rfl, rfl⟩ := h
    exact .inl ⟨rfl, by simp [Timed.note]⟩
  | some step =>
    obtain ⟨⟨delay, outcome⟩, rest, made⟩ := step
    have hpulled : ∀ o ∈ Occurrence.pulled subscription.path (start + delay) ::
        Context.makeRecord made (start + delay),
        o.start = start + delay ∧ o.finish = start + delay := by
      intro o ho
      rcases List.mem_cons.mp ho with rfl | ho
      · exact ⟨rfl, rfl⟩
      · exact start_finish_of_mem_makeRecord _ ho
    cases outcome with
    | ok value =>
      simp only [next, hnext, Job.after, Job.noting_eq_some_iff, Job.map_eq_some_iff] at h
      obtain ⟨_, ⟨completed, hcompleted, rfl⟩, rfl⟩ := h
      refine .inr ⟨_, _, rfl, Subscription.answers_note hcompleted hpulled Nat.one_pos ?_, rfl⟩
      simp [Event.failed]
    | error cause =>
      simp only [next, hnext, Job.after, Job.noting_eq_some_iff, Job.map_eq_some_iff] at h
      obtain ⟨_, ⟨_, ⟨completed, hcompleted, rfl⟩, rfl⟩, rfl⟩ := h
      refine .inr ⟨_, completed.note ((.pulled subscription.path (start + delay) ::
          Context.makeRecord made (start + delay)) ++
            Context.releaseRecord subscription.path rest.parts (start + delay)), rfl,
        Subscription.answers_note hcompleted ?_ rest.sources_parts_pos ?_, ?_⟩
      · intro o ho
        rcases List.mem_append.mp ho with ho | ho
        · exact hpulled o ho
        · rw [List.mem_singleton.mp ho]
          exact ⟨rfl, rfl⟩
      · simp [Event.failed]
      · simp [Timed.note, Timed.map, Event.failed]

/-- Only an item that cannot be completed keeps a response from coming. -/
theorem next_live_eq_none (h : (live subscription source).next bound start = none) :
    ∃ step, source.next? = some step ∧
      ∀ time, subscription.complete bound step.event.outcome time = none := by
  cases hnext : source.next? with
  | none => simp [next, hnext, Job.noting, Job.done] at h
  | some step =>
    obtain ⟨⟨delay, outcome⟩, rest, made⟩ := step
    have hpulled : subscription.complete bound outcome (start + delay) = none := by
      cases outcome <;>
        simpa only [next, hnext, Job.after, Job.noting, Job.map, Option.map_eq_none_iff] using h
    exact ⟨_, rfl, Subscription.complete_eq_none hpulled⟩

end ResponseStream

/-! ## Several responses -/

namespace Subscription

/-- What a consumer sees who asks the stream behind a source for `count` responses, or as many as
    there are, and drops it then. -/
structure Course (subscription : Subscription ref) (bound count : Nat) (source : Source ref)
    (start : Nat) (taken : ResponseStream.Taken ref) (dropped : Timed Unit) : Prop where
  /-- The due items are answered in turn. Each of them is asked for when the one before it has been
      answered. -/
  answered : ∃ items,
    (∀ position item, items[position]? = some item ↔
      position < count ∧ source.Due position item) ∧
    Window.InTurn (subscription.Answers bound) start items taken.responses
  /-- With so many responses so many items have been pulled. -/
  pulled : ∀ position ≤ taken.responses.length,
    (sourceRecord subscription.path ((taken.responses.take position).flatMap Timed.record)).countP
      Occurrence.isPull = position
  /-- In the end the source has been released once, and nothing was pulled from it but the items
      that have been answered, all of them before. -/
  released : ∃ pulls sources time, pulls.length = taken.responses.length ∧
    (∀ o ∈ pulls, o.isPull = true) ∧ 0 < sources ∧
    sourceRecord subscription.path
        (taken.responses.flatMap Timed.record ++ taken.rest.record ++ dropped.record) =
      pulls ++ [.released subscription.path sources time]
  /-- Without as many responses as were asked for the stream has ended. -/
  ended : taken.responses.length < count → taken.rest.value = .ended
  /-- As long as responses follow, the source has not been released. -/
  kept : ∀ position < taken.responses.length,
    ∀ o ∈ sourceRecord subscription.path ((taken.responses.take position).flatMap Timed.record),
      o.isPull = true
  /-- The source of a stream that has ended does not wait for the drop. -/
  freed : taken.rest.value = .ended → sourceRecord subscription.path dropped.record = []
  /-- The source of a stream that has not ended is there until the drop. -/
  held : taken.rest.value ≠ .ended →
    ∀ o ∈ sourceRecord subscription.path
      (taken.responses.flatMap Timed.record ++ taken.rest.record), o.isPull = true

namespace Course

variable {subscription : Subscription ref} {bound count start : Nat} {source : Source ref}
  {step : Source.Step ref} {response : Timed (Response Error)}

/-- Nothing was asked for. -/
theorem drop (subscription : Subscription ref) (bound start : Nat) (source : Source ref) :
    subscription.Course bound 0 source start ⟨[], ⟨.live subscription source, start, []⟩⟩
      ⟨(), start, Context.releaseRecord subscription.path source.parts start⟩ where
  answered := ⟨[], by simp, .nil⟩
  pulled := by simp
  released := ⟨[], _, start, rfl, by simp, source.sources_parts_pos, by simp⟩
  ended := by simp
  kept := by simp
  freed := by simp
  held := by simp

/-- The source had no items left. -/
theorem exhausted (h : source.next? = none) (subscription : Subscription ref)
    (bound count start : Nat) :
    subscription.Course bound count source start
      ⟨[], ⟨.ended, start, Context.releaseRecord subscription.path source.parts start⟩⟩
      ⟨(), start, []⟩ where
  answered := ⟨[], fun _ _ => by simp [Source.not_due_of_next?_eq_none h], .nil⟩
  pulled := by simp
  released := ⟨[], _, start, rfl, by simp, source.sources_parts_pos, by simp⟩
  ended _ := rfl
  kept := by simp
  freed _ := rfl
  held h := absurd rfl h

/-- The first item failed. -/
theorem failed (h : source.next? = some step)
    (hanswers : subscription.Answers bound step.event start response)
    (hfailed : step.event.failed = true) (count : Nat) :
    subscription.Course bound (count + 1) source start
      ⟨[response], ⟨.ended, response.finish, []⟩⟩ ⟨(), response.finish, []⟩ where
  answered := by
    refine ⟨[step.event], fun position item => ?_, .cons hanswers .nil⟩
    cases position with
    | zero => simp [Source.due_zero h, eq_comm]
    | succ position => simp [Source.due_succ h, hfailed]
  pulled position hle := by
    cases position with
    | zero => rfl
    | succ position =>
      obtain rfl : position = 0 := Nat.le_zero.mp (Nat.le_of_succ_le_succ hle)
      simpa using hanswers.countP_isPull
  released := by
    obtain ⟨sources, hpos, hsource⟩ := hanswers.source
    exact ⟨[.pulled subscription.path (start + step.event.delay)], sources,
      start + step.event.delay, rfl, by simp [Occurrence.isPull], hpos, by simp [hsource, hfailed]⟩
  ended _ := rfl
  kept position hlt := by
    obtain rfl : position = 0 := Nat.lt_one_iff.mp hlt
    simp
  freed _ := rfl
  held h := absurd rfl h

/-- The first item did not fail, and then the rest took its course. -/
theorem next {taken : ResponseStream.Taken ref} {dropped : Timed Unit}
    (h : source.next? = some step) (hanswers : subscription.Answers bound step.event start response)
    (hfailed : step.event.failed = false)
    (hrest : subscription.Course bound count step.rest response.finish taken dropped) :
    subscription.Course bound (count + 1) source start
      { taken with responses := response :: taken.responses } dropped where
  answered := by
    obtain ⟨items, hitems, hturn⟩ := hrest.answered
    refine ⟨step.event :: items, fun position item => ?_, .cons hanswers hturn⟩
    cases position with
    | zero => simp [Source.due_zero h, eq_comm]
    | succ position => simp [Source.due_succ h, hfailed, hitems]
  pulled position hle := by
    cases position with
    | zero => rfl
    | succ position =>
      rw [List.take_succ_cons, List.flatMap_cons, sourceRecord_append, List.countP_append,
        hanswers.countP_isPull, hrest.pulled position (Nat.le_of_succ_le_succ hle), Nat.add_comm]
  released := by
    obtain ⟨pulls, sources, time, hlength, hpulls, hpos, hsource⟩ := hrest.released
    refine ⟨.pulled subscription.path (start + step.event.delay) :: pulls, sources, time,
      congrArg Nat.succ hlength, ?_, hpos, ?_⟩
    · intro o ho
      rcases List.mem_cons.mp ho with rfl | ho
      · rfl
      · exact hpulls o ho
    · rw [List.flatMap_cons, List.append_assoc, List.append_assoc, sourceRecord_append,
        hanswers.sourceRecord_eq hfailed, ← List.append_assoc, hsource]
      rfl
  ended hlt := hrest.ended (Nat.lt_of_succ_lt_succ hlt)
  kept position hlt := by
    cases position with
    | zero => simp
    | succ position =>
      rw [List.take_succ_cons, List.flatMap_cons]
      exact hanswers.isPull_of_mem hfailed (hrest.kept position (Nat.lt_of_succ_lt_succ hlt))
  freed := hrest.freed
  held hne := by
    rw [List.flatMap_cons, List.append_assoc]
    exact hanswers.isPull_of_mem hfailed (hrest.held hne)

end Course

end Subscription

namespace ResponseStream

variable {subscription : Subscription ref} {source : Source ref} {bound count start : Nat}

theorem take_ended (bound count start : Nat) :
    (ended : ResponseStream ref).take bound count start = some ⟨[], ⟨ended, start, []⟩⟩ := by
  cases count <;> rfl

/-- Responses that come take their course. -/
theorem course {taken : Taken ref}
    (h : (live subscription source).take bound count start = some taken) :
    ∃ dropped, taken.rest.value.release taken.rest.finish = some dropped ∧
      subscription.Course bound count source start taken dropped := by
  induction count generalizing source start taken with
  | zero =>
    cases h
    exact ⟨_, rfl, .drop subscription bound start source⟩
  | succ count ih =>
    rw [take] at h
    cases hnext : (live subscription source).next bound start with
    | none => simp [hnext] at h
    | some timed =>
      rw [hnext] at h
      rcases next_live_cases hnext with ⟨hnone, rfl⟩ | ⟨step, response, hstep, hanswers, rfl⟩
      · cases h
        exact ⟨_, rfl, .exhausted hnone subscription bound _ start⟩
      · obtain ⟨others, hothers, rfl⟩ := Option.map_eq_some_iff.mp h
        cases hfailed : step.event.failed with
        | true =>
          simp only [hfailed, ite_true, take_ended, Option.some.injEq] at hothers
          subst hothers
          exact ⟨_, rfl, .failed hstep hanswers hfailed count⟩
        | false =>
          rw [hfailed] at hothers
          obtain ⟨dropped, hdropped, hcourse⟩ := ih hothers
          exact ⟨dropped, hdropped, .next hstep hanswers hfailed hcourse⟩

/-- Only an item that is due and cannot be completed keeps the responses from coming. -/
theorem take_eq_none (h : (live subscription source).take bound count start = none) :
    ∃ position < count, ∃ item, source.Due position item ∧
      ∀ time, subscription.complete bound item.outcome time = none := by
  induction count generalizing source start with
  | zero => cases h
  | succ count ih =>
    rw [take] at h
    cases hnext : (live subscription source).next bound start with
    | none =>
      obtain ⟨step, hstep, hstuck⟩ := next_live_eq_none hnext
      exact ⟨0, Nat.succ_pos count, step.event, (Source.due_zero hstep).mpr rfl, hstuck⟩
    | some timed =>
      rw [hnext] at h
      rcases next_live_cases hnext with ⟨-, rfl⟩ | ⟨step, response, hstep, -, rfl⟩
      · cases h
      · replace h := Option.map_eq_none_iff.mp h
        cases hfailed : step.event.failed with
        | true =>
          simp [hfailed, take_ended] at h
        | false =>
          rw [hfailed] at h
          obtain ⟨position, hlt, item, hdue, hstuck⟩ := ih h
          exact ⟨position + 1, Nat.succ_lt_succ hlt, item,
            (Source.due_succ hstep).mpr ⟨hfailed, hdue⟩, hstuck⟩

end ResponseStream

/-! ## From the start -/

/-- What a subscription was started with: the one field that is selected and the call that resolved
    it. -/
structure Subscription.Starts (subscription : Subscription ref) (context : Context ref)
    (bound : Nat) (root : ObjectType ref) (selections : List Selection)
    (called : ResolvedField ref) : Prop where
  context_eq : subscription.context = context
  collect_eq : collect (context.scope (some root.name)) selections =
    [(subscription.key, subscription.collected)]
  name_ne : subscription.collected.field.name ≠ typenameField
  resolve_eq : (context.resolve bound root subscription.collected.field).run = some (.ok called)
  type_eq : subscription.type = called.type

theorem Context.subscribe_starts {context : Context ref} {bound begun start : Nat}
    {root : ObjectType ref} {selections : List Selection} {subscription : Subscription ref}
    {source : Source ref} {opening : List Occurrence}
    (h : context.subscribe bound root selections begun =
      some ⟨.ok (.live subscription source), start, opening⟩) :
    ∃ called : ResolvedField ref, subscription.Starts context bound root selections called ∧
      called.node = .stream source ∧
      opening = callRecord subscription.path subscription.collected.field called begun := by
  unfold subscribe at h
  rcases hcollect : collect (context.scope (some root.name)) selections with
    _ | ⟨⟨key, collected⟩, _ | ⟨second, others⟩⟩
  · simp [hcollect, Job.done] at h
  · have hkey : collected.field.responseKey = key :=
      responseKey_of_find?_collect (by rw [hcollect, Entries.find?_cons]; simp)
    simp only [hcollect] at h
    by_cases ht : collected.field.name = typenameField
    · simp [ht, Job.done] at h
    · simp only [ht, ite_false] at h
      rcases hr : (context.resolve bound root collected.field).run with _ | error | called
      · simp [hr, Job.unfinished] at h
      · simp [hr, Job.done] at h
      · simp only [hr, Job.noting_eq_some_iff] at h
        obtain ⟨first, hfirst, htimed⟩ := h
        cases hnode : called.node with
        | stream answered =>
          rw [hnode, Job.done_eq_some_iff] at hfirst
          subst hfirst
          cases htimed
          refine ⟨called, ⟨rfl, ?_, ht, hr, rfl⟩, hnode, ?_⟩
          · simp only [hcollect, Subscription.key, hkey]
          · simp only [Subscription.path, Subscription.key, hkey, List.append_nil]
        | _ =>
          simp only [hnode, Job.noting_eq_some_iff, Job.done_eq_some_iff] at hfirst
          obtain ⟨_, rfl, rfl⟩ := hfirst
          cases htimed
  · simp [hcollect, Job.done] at h

/-- A subscription that starts on a source has called the resolver that answered with the source,
    and nothing else. -/
theorem Context.subscribe_eq_live {context : Context ref} {bound begun start : Nat}
    {root : ObjectType ref} {selections : List Selection} {subscription : Subscription ref}
    {source : Source ref} {opening : List Occurrence}
    (h : context.subscribe bound root selections begun =
      some ⟨.ok (.live subscription source), start, opening⟩) :
    ∃ called : ResolvedField ref, called.node = .stream source ∧
      opening = callRecord subscription.path subscription.collected.field called begun := by
  obtain ⟨called, -, hcalled⟩ := subscribe_starts h
  exact ⟨called, hcalled⟩

/-- Only an operation that is a subscription is answered with a stream. -/
theorem Service.subscribe_of_executeDocument_eq_stream {service : Service ref}
    {objects : ref → ObjectType ref} {bound begun start : Nat} {document : ExecutableDocument}
    {name : Option String} {bindings : Variables} {stream : ResponseStream ref}
    {opening : List Occurrence}
    (h : service.executeDocument objects bound document name bindings begun =
      some ⟨.ok (.stream stream), start, opening⟩) :
    ∃ (operation : Operation) (root : ObjectType ref), document.operation name = .ok operation ∧
      service.schema.subscription = some root ∧
      (service.context objects document (operation.complete bindings)).subscribe bound root
        operation.selections begun = some ⟨.ok stream, start, opening⟩ := by
  rw [executeDocument] at h
  cases hpicked : document.operation name with
  | error error => simp [hpicked, Job.done] at h
  | ok operation =>
    simp only [hpicked] at h
    cases hroot : service.schema.root operation.kind with
    | none => simp [hroot, Job.done] at h
    | some root =>
      simp only [hroot, run] at h
      cases hkind : operation.kind with
      | subscription =>
        simp only [hkind, Job.map_eq_some_iff] at h
        obtain ⟨⟨result, finish, record⟩, hfirst, htimed⟩ := h
        cases result with
        | error error => cases htimed
        | ok answered =>
          cases htimed
          rw [hkind] at hroot
          exact ⟨operation, root, rfl, hroot, hfirst⟩
      | query | mutation =>
        simp only [hkind, Job.map_eq_some_iff] at h
        obtain ⟨_, -, htimed⟩ := h
        cases htimed

/-- Only a subscription is answered with a stream. -/
theorem Service.executeDocument_eq_stream {service : Service ref} {objects : ref → ObjectType ref}
    {bound begun start : Nat} {document : ExecutableDocument} {name : Option String}
    {bindings : Variables} {stream : ResponseStream ref} {opening : List Occurrence}
    (h : service.executeDocument objects bound document name bindings begun =
      some ⟨.ok (.stream stream), start, opening⟩) :
    ∃ (context : Context ref) (root : ObjectType ref) (selections : List Selection),
      context.subscribe bound root selections begun = some ⟨.ok stream, start, opening⟩ := by
  obtain ⟨_, root, -, -, hsubscribe⟩ := subscribe_of_executeDocument_eq_stream h
  exact ⟨_, root, _, hsubscribe⟩

/-- A subscription of a document that starts on a source has called the resolver which answered with
    it, and has neither pulled an item from it nor released it. However many responses a consumer
    asks for before dropping the stream, they come and take their course, unless an item is due that
    cannot be completed. -/
theorem subscription_course {service : Service ref} {objects : ref → ObjectType ref}
    {bound begun start : Nat} {document : ExecutableDocument} {name : Option String}
    {bindings : Variables} {subscription : Subscription ref} {source : Source ref}
    {opening : List Occurrence}
    (h : service.executeDocument objects bound document name bindings begun =
      some ⟨.ok (.stream (.live subscription source)), start, opening⟩) (limit count : Nat) :
    (∃ called : ResolvedField ref, called.node = .stream source ∧
      opening = Context.callRecord subscription.path subscription.collected.field called begun) ∧
    sourceRecord subscription.path opening = [] ∧
    ((∃ taken dropped,
        (ResponseStream.live subscription source).take limit count start = some taken ∧
        taken.rest.value.release taken.rest.finish = some dropped ∧
        subscription.Course limit count source start taken dropped) ∨
      (ResponseStream.live subscription source).take limit count start = none ∧
        ∃ position < count, ∃ item, source.Due position item ∧
          ∀ time, subscription.complete limit item.outcome time = none) := by
  obtain ⟨_, _, _, hsubscribe⟩ := Service.executeDocument_eq_stream h
  obtain ⟨called, hnode, rfl⟩ := Context.subscribe_eq_live hsubscribe
  refine ⟨⟨called, hnode, rfl⟩, sourceRecord_callRecord .., ?_⟩
  cases htake : (ResponseStream.live subscription source).take limit count start with
  | none => exact .inr ⟨rfl, ResponseStream.take_eq_none htake⟩
  | some taken =>
    obtain ⟨dropped, hdropped, hcourse⟩ := ResponseStream.course htake
    exact .inl ⟨taken, dropped, rfl, hdropped, hcourse⟩

namespace Sample

/-- A tick that takes some time, one that fails at once, and one that never comes. -/
def ticks : Source Unit := .prepared [
  ⟨2, .ok (.leaf (.string "tick"))⟩, ⟨0, .error "lost signal"⟩, ⟨1, .ok (.leaf (.string "tock"))⟩]

/-- A service that can be subscribed to. -/
def ticker : Service Unit where
  schema := {
    query := root 0
    subscription := some ⟨"Ticker", [("ticks", field .string (.stream ticks))]⟩ }

/-- Subscribes to the ticks. -/
def listening : ExecutableDocument := ⟨[], [⟨none, .subscription, [], [select "ticks" []]⟩]⟩

end Sample

/-- The consumer who asks for five ticks sees two responses, both at the time of the first tick. -/
theorem subscription_course_sample :
    ∃ (subscription : Subscription Unit) (start : Nat) (opening : List Occurrence),
      Sample.ticker.executeDocument (fun _ => Sample.ship 0) 20 Sample.listening none [] 0 =
        some ⟨.ok (.stream (.live subscription Sample.ticks)), start, opening⟩ ∧
      ∃ taken dropped, taken.responses.map Timed.finish = [2, 2] ∧
        subscription.Course 20 5 Sample.ticks start taken dropped := by
  have h : Sample.ticker.executeDocument (fun _ => Sample.ship 0) 20 Sample.listening none [] 0 =
    some ⟨.ok (.stream (.live _ Sample.ticks)), 0, _⟩ := rfl
  obtain ⟨-, -, ⟨taken, dropped, htake, -, hcourse⟩ | ⟨hnone, -⟩⟩ := subscription_course h 20 5
  · refine ⟨_, _, _, h, taken, dropped, ?_, hcourse⟩
    have hfinish := congrArg (Option.map fun taken => taken.responses.map Timed.finish) htake
    exact Option.some.inj (hfinish.symm.trans (by decide +kernel))
  · exact absurd (congrArg Option.isSome hnone) (by decide +kernel)

end GraphQL

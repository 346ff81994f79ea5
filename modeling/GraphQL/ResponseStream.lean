import GraphQL.Execution.Completion
import GraphQL.RequestError
import GraphQL.Response

/-!
# Response streams

A subscription selects one root field, whose resolver answers with a source of events. Its responses
are the completed events, one for each event and in order. An event is not asked for before the
response to the one before it is complete. The first event that failed is answered too and is the
last one.

`ResponseStream.next` asks for one response, `ResponseStream.take` for several, and
`ResponseStream.release` gives the stream up. The record of these steps tells when an event is
pulled from the source and when the source is released, together with the sources in the events that
it still has.
-/

namespace GraphQL

/-- Model of `event_response`: the response that shows the outcome of a single root field. -/
def Outcome.response (outcome : Outcome) (key : String) : Response Error where
  data := some (.object [(key, outcome.value)])
  errors := outcome.errors

/-- Model of `SubscriptionField`: the root field of a subscription. -/
structure Subscription (ref : Type) where
  context : Context ref
  collected : CollectedField
  type : TypeRef

namespace Subscription

variable {ref : Type}

/-- The name of the field in the response. -/
def key (subscription : Subscription ref) : String := subscription.collected.field.responseKey

/-- The path of the field. -/
def path (subscription : Subscription ref) : Path := Path.root.join (.key subscription.key)

/-- Model of what `execute_subscription` does with an event: completes an event that has just been
    pulled. -/
def complete (subscription : Subscription ref) (bound : Nat)
    (event : Except String (Resolved ref)) : Job (Response Error) :=
  let outcome : Job Outcome :=
    match event with
    | .ok value =>
      subscription.context.completeValue bound subscription.type value subscription.collected
        subscription.path
    | .error cause =>
      .done (.failure (.effectFailed cause) subscription.collected.field subscription.path)
  outcome.map fun outcome => outcome.response subscription.key

end Subscription

/-- The responses that are still to come. -/
inductive ResponseStream (ref : Type) where
  /-- None. -/
  | ended
  /-- One that is there already. -/
  | single (response : Response Error)
  /-- Those to the events of a source. -/
  | live (subscription : Subscription ref) (source : Source ref)

namespace ResponseStream

variable {ref : Type}

/-- Model of `until_first_error`: asks for the next response. What is answered is the response, if
    there is one, and the stream behind it. -/
def next (bound : Nat) : ResponseStream ref → Job (Option (Response Error) × ResponseStream ref)
  | .ended => .done (none, .ended)
  | .single response => .done (some response, .ended)
  | .live subscription source =>
    let path := subscription.path
    match source.next? with
    | none => Job.noting (Context.releaseRecord path source.parts) (.done (none, .ended))
    | some ⟨event, rest, made⟩ =>
      let pulled (time : Nat) : List Occurrence :=
        .pulled path time :: Context.makeRecord made time
      let completed := subscription.complete bound event.outcome
      Job.after event.delay (Job.noting pulled
        (match event.outcome with
        | .ok _ => completed.map fun response => (some response, .live subscription rest)
        | .error _ =>
          Job.noting (Context.releaseRecord path rest.parts)
            (completed.map fun response => (some response, .ended))))

/-- Gives up what has not been asked for. -/
def release : ResponseStream ref → Job Unit
  | .ended | .single _ => .done ()
  | .live subscription source =>
    Job.noting (Context.releaseRecord subscription.path source.parts) (.done ())

/-- Responses that have been asked for one after the other, each with its time and record. -/
structure Taken (ref : Type) where
  responses : List (Timed (Response Error))
  /-- The stream behind them, at the time of the last answer; its record tells of an answer that was
      no response. -/
  rest : Timed (ResponseStream ref)

/-- Asks for responses until there are `count` of them or the stream ends. -/
def take (bound : Nat) : Nat → ResponseStream ref → Nat → Option (Taken ref)
  | 0, stream, start => some ⟨[], { value := stream, finish := start }⟩
  | count + 1, stream, start =>
    match stream.next bound start with
    | none => none
    | some ⟨(none, rest), finish, record⟩ => some ⟨[], ⟨rest, finish, record⟩⟩
    | some ⟨(some response, rest), finish, record⟩ =>
      (take bound count rest finish).map fun taken =>
        { taken with responses := ⟨response, finish, record⟩ :: taken.responses }

end ResponseStream

namespace Context

variable {ref : Type}

/-- Model of `execute_subscription`. Starts a subscription: it must select exactly one field, and
    the resolver of the field must answer with a stream. A field that cannot be resolved fails the
    only response and not the request. -/
def subscribe (context : Context ref) (bound : Nat) (root : ObjectType ref)
    (selections : List Selection) : Job (Except SubscriptionError (ResponseStream ref)) :=
  match collect (context.scope (some root.name)) selections with
  | [(key, collected)] =>
    let field := collected.field
    let path := Path.root.join (.key key)
    if field.name = typenameField then .done (.error (.notAStream field.name))
    else
      match (context.resolve bound root field).run with
      | none => .unfinished
      | some (.error error) =>
        .done (.ok (.single ((Outcome.failure error field path).response key)))
      | some (.ok resolved) =>
        Job.noting (callRecord path field resolved)
          (match resolved.node with
          | .stream source => .done (.ok (.live ⟨context, collected, resolved.type⟩ source))
          | .ready _ _ | .effect _ _ _ =>
            Job.noting (releaseRecord path resolved.node.parts)
              (.done (.error (.notAStream field.name))))
  | fields => .done (.error (.fieldCount fields.length))

end Context

end GraphQL

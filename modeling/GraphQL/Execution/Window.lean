import GraphQL.Execution.Timeline

/-!
# Windows

Siblings (the fields of a selection set, the items of a list) run at the same time, but only so many
of them: a window has a number of slots, a sibling takes the slot that is free first, and it keeps
its slot until it and all siblings before it are done. So the results come in order, and a sibling
starts when the one that stands a whole window before it has been handed over.
-/

namespace GraphQL.Window

/-- Runs jobs one after the other into the slots. `slots` are the times at which the slots are free,
    in the order in which they are taken, and `handed` is the time at which the job before was
    handed over. A window without slots takes one job at a time. -/
def runFrom {α : Type} (handed : Nat) (slots : List Nat) :
    List (Job α) → Option (Timed (List α))
  | [] => some { value := [], finish := handed }
  | job :: rest =>
    match job (slots.head?.getD handed) with
    | none => none
    | some first =>
      let next := max handed first.finish
      match runFrom next (slots.drop 1 ++ [next]) rest with
      | none => none
      | some others => some {
          value := first.value :: others.value
          finish := others.finish
          record := first.record ++ others.record }

/-- Runs jobs with at most `width` of them started and not handed over. -/
def run {α : Type} (width : Nat) (jobs : List (Job α)) : Job (List α) := fun start =>
  runFrom start (List.replicate (min width jobs.length) start) jobs

end GraphQL.Window

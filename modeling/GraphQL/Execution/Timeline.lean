import GraphQL.Path
import GraphQL.Value

/-!
# Timelines

Execution runs in a time of its own, which passes only while effects run and streams wait. A `Job`
is work that can be started at any time; what it gives is `Timed`: a value, the time at which it is
there, and a record of what happened on the way.

Jobs need not end. `none` says that one does not end within the bound that it was given.
-/

namespace GraphQL

/-- Something that happened during an execution. -/
inductive Occurrence where
  /-- The resolver of a field was called with these arguments. -/
  | called (path : Path) (field : String) (arguments : Fields) (time : Nat)
  /-- A labelled node was made that holds its value already. -/
  | made (label : String) (time : Nat)
  /-- An effect ran. -/
  | ran (path : Path) (label : Option String) (start finish : Nat)
  /-- The source at this path produced an item. -/
  | pulled (path : Path) (time : Nat)
  /-- What stood at this path was given up, and with it so many sources. -/
  | released (path : Path) (sources : Nat) (time : Nat)

/-- A value that is there at some time, and what happened on the way to it. -/
structure Timed (α : Type) where
  value : α
  finish : Nat
  record : List Occurrence := []

/-- Work that can be started at any time. -/
abbrev Job (α : Type) := Nat → Option (Timed α)

namespace Job

variable {α β : Type}

/-- Work without an end. -/
def unfinished : Job α := fun _ => none

/-- No work: the value is there at once. -/
def done (value : α) : Job α := fun start => some { value, finish := start }

/-- Applies a function to the value. -/
def map (f : α → β) (job : Job α) : Job β := fun start =>
  (job start).map fun timed => { timed with value := f timed.value }

/-- Notes occurrences at the time of the start, then goes on. -/
def noting (occurrences : Nat → List Occurrence) (job : Job α) : Job α := fun start =>
  (job start).map fun timed => { timed with record := occurrences start ++ timed.record }

/-- Lets some time pass, then goes on. -/
def after (delay : Nat) (job : Job α) : Job α := fun start => job (start + delay)

/-- Goes on with what the value says. -/
def andThen (job : Job α) (next : α → Job β) : Job β := fun start =>
  (job start).bind fun first =>
    (next first.value first.finish).map fun second =>
      { second with record := first.record ++ second.record }

end Job

end GraphQL

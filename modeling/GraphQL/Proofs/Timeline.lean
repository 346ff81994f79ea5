import GraphQL.Execution.Timeline

/-!
# Jobs and their records

A job that ends gives a `Timed` value. The lemmas on `Job.done`, `Job.map`, `Job.noting` and
`Job.after` say when such a job ends and with what; `Job.Gives` is the part of that which time has
no influence on.

Results:
* `Timed.Within`: everything in the record of a job lies between its start and its end. Noting
  something at the start and waiting before the start keep this (`Within.note`, `Within.wait`).
* `Gives.map`, `Gives.noting`, `Gives.after`: what a job gives does not depend on when it starts.
-/

namespace GraphQL

/-! ## Occurrences -/

namespace Occurrence

/-- The time at which an occurrence begins. -/
def start : Occurrence → Nat
  | .called _ _ _ time | .made _ time | .pulled _ time | .released _ _ time => time
  | .ran _ _ start _ => start

/-- The time at which an occurrence is over. -/
def finish : Occurrence → Nat
  | .called _ _ _ time | .made _ time | .pulled _ time | .released _ _ time => time
  | .ran _ _ _ finish => finish

/-- The path at which something occurs. That a labelled node was made is noted without one. -/
def path? : Occurrence → Option Path
  | .called path _ _ _ | .ran path _ _ _ | .pulled path _ | .released path _ _ => some path
  | .made _ _ => none

end Occurrence

/-! ## Timed values -/

namespace Timed

variable {α β : Type}

/-- Applies a function to the value. -/
def map (f : α → β) (timed : Timed α) : Timed β := { timed with value := f timed.value }

/-- Puts occurrences in front of the record. -/
def note (occurrences : List Occurrence) (timed : Timed α) : Timed α :=
  { timed with record := occurrences ++ timed.record }

@[simp] theorem map_value (f : α → β) (timed : Timed α) : (timed.map f).value = f timed.value := rfl

@[simp] theorem map_finish (f : α → β) (timed : Timed α) : (timed.map f).finish = timed.finish :=
  rfl

@[simp] theorem map_record (f : α → β) (timed : Timed α) : (timed.map f).record = timed.record :=
  rfl

@[simp] theorem note_value (occurrences : List Occurrence) (timed : Timed α) :
    (timed.note occurrences).value = timed.value := rfl

@[simp] theorem note_finish (occurrences : List Occurrence) (timed : Timed α) :
    (timed.note occurrences).finish = timed.finish := rfl

@[simp] theorem note_record (occurrences : List Occurrence) (timed : Timed α) :
    (timed.note occurrences).record = occurrences ++ timed.record := rfl

/-- A job that was started at `start` ended no earlier, and all that it noted lies in between. -/
structure Within (start : Nat) (timed : Timed α) : Prop where
  start_le : start ≤ timed.finish
  record : ∀ o ∈ timed.record, start ≤ o.start ∧ o.start ≤ o.finish ∧ o.finish ≤ timed.finish

namespace Within

variable {start : Nat} {timed : Timed α}

theorem done (value : α) (start : Nat) : Within start ⟨value, start, []⟩ :=
  ⟨Nat.le_refl start, by simp⟩

theorem map (f : α → β) (h : Within start timed) : Within start (timed.map f) :=
  ⟨h.start_le, h.record⟩

/-- Waiting moves the start of a job ahead. -/
theorem wait {delay : Nat} (h : Within (start + delay) timed) : Within start timed := by
  refine ⟨by have := h.start_le; omega, fun o ho => ?_⟩
  obtain ⟨h1, h2⟩ := h.record o ho
  exact ⟨by omega, h2⟩

theorem note {occurrences : List Occurrence}
    (ho : ∀ o ∈ occurrences, start ≤ o.start ∧ o.start ≤ o.finish ∧ o.finish ≤ timed.finish)
    (h : Within start timed) : Within start (timed.note occurrences) := by
  refine ⟨h.start_le, fun o hm => ?_⟩
  rcases List.mem_append.mp hm with hm | hm
  · exact ho o hm
  · exact h.record o hm

end Within

end Timed

/-! ## When jobs end -/

namespace Job

variable {α β : Type} {job : Job α} {start : Nat}

theorem done_eq_some_iff {value : α} {timed : Timed α} :
    done value start = some timed ↔ timed = ⟨value, start, []⟩ := by
  simp [done, eq_comm]

theorem map_eq_some_iff {f : α → β} {timed : Timed β} :
    job.map f start = some timed ↔ ∃ first, job start = some first ∧ timed = first.map f := by
  show (job start).map (Timed.map f) = some timed ↔ _
  rw [Option.map_eq_some_iff]
  exact exists_congr fun first => and_congr_right fun _ => eq_comm

theorem map_map {γ : Type} (f : α → β) (g : β → γ) (job : Job α) :
    (job.map f).map g = job.map (g ∘ f) := by
  funext start
  simp only [map, Option.map_map]
  rfl

theorem noting_eq_some_iff {occurrences : Nat → List Occurrence} {timed : Timed α} :
    noting occurrences job start = some timed ↔
      ∃ first, job start = some first ∧ timed = first.note (occurrences start) := by
  show (job start).map (Timed.note (occurrences start)) = some timed ↔ _
  rw [Option.map_eq_some_iff]
  exact exists_congr fun first => and_congr_right fun _ => eq_comm

/-! ## What jobs give -/

/-- Whenever the job is started, it gives this value, or does not end if there is none. -/
def Gives (job : Job α) (value : Option α) : Prop :=
  ∀ start, (job start).map Timed.value = value

namespace Gives

variable {value : Option α}

theorem unfinished : Gives (unfinished : Job α) none := fun _ => rfl

theorem done (value : α) : Gives (done value) (some value) := fun _ => rfl

theorem map (f : α → β) (h : Gives job value) : Gives (job.map f) (value.map f) := by
  intro start
  rw [← h start]
  simp only [Job.map, Option.map_map]
  rfl

theorem noting (occurrences : Nat → List Occurrence) (h : Gives job value) :
    Gives (job.noting occurrences) value := by
  intro start
  rw [← h start]
  simp only [Job.noting, Option.map_map]
  rfl

theorem after (delay : Nat) (h : Gives job value) : Gives (job.after delay) value :=
  fun start => h (start + delay)

end Gives

end Job

end GraphQL

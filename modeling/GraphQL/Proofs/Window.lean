import GraphQL.Execution.Window
import GraphQL.Proofs.Timeline
import Mathlib.Data.List.Forall2

/-!
# Runs in a window

`Window.run` starts a job when the job that stands a window before it has been handed over.
`Window.Runs` says the same of items and a relation that tells how the work for an item ends, so
that what is known of single jobs carries over to all of them.

Results:
* `run_eq_some_iff`: a window ends exactly in the ways that `Runs` admits.
* `Runs.results`: values come in the order of the items, and the records stand one behind the other.
* `Runs.within`, `Runs.mem_record`: the record of a window lies between its start and its end.
* `Runs.inTurn`: in a window of one slot an item is started when the one before it is done.
* `gives_run`: what a window gives does not depend on its width or on its start.
-/

namespace GraphQL.Window

variable {ι α : Type}

/-- The times at which the slots of a window are free when it is opened. -/
def slots (width count start : Nat) : List Nat := List.replicate (min width count) start

/-- Items run in a window: `work item start run` says that the work for `item`, started at `start`,
    can end as `run`. The other arguments are those of `runFrom`. -/
inductive Runs (work : ι → Nat → Timed α → Prop) :
    Nat → List Nat → List ι → Timed (List α) → Prop
  | nil {handed : Nat} {slots : List Nat} : Runs work handed slots [] ⟨[], handed, []⟩
  | cons {handed : Nat} {slots : List Nat} {item : ι} {rest : List ι} {first : Timed α}
      {others : Timed (List α)} :
      work item (slots.head?.getD handed) first →
      Runs work (max handed first.finish) (slots.drop 1 ++ [max handed first.finish]) rest others →
      Runs work handed slots (item :: rest)
        ⟨first.value :: others.value, others.finish, first.record ++ others.record⟩

theorem runFrom_cons_eq_some_iff {job : Job α} {rest : List (Job α)} {handed : Nat}
    {slots : List Nat} {timed : Timed (List α)} :
    runFrom handed slots (job :: rest) = some timed ↔
      ∃ first others, job (slots.head?.getD handed) = some first ∧
        runFrom (max handed first.finish) (slots.drop 1 ++ [max handed first.finish]) rest =
          some others ∧
        timed = ⟨first.value :: others.value, others.finish, first.record ++ others.record⟩ := by
  rw [runFrom]
  constructor
  · intro h
    split at h
    · cases h
    · next first hfirst =>
      dsimp only at h
      split at h
      · cases h
      · next others hothers =>
        cases h
        exact ⟨first, others, hfirst, hothers, rfl⟩
  · rintro ⟨first, others, hfirst, hothers, rfl⟩
    rw [hfirst]
    dsimp only
    rw [hothers]

theorem runFrom_eq_some_iff {job : ι → Job α} {items : List ι} {handed : Nat} {slots : List Nat}
    {timed : Timed (List α)} :
    runFrom handed slots (items.map job) = some timed ↔
      Runs (fun item start run => job item start = some run) handed slots items timed := by
  induction items generalizing handed slots timed with
  | nil =>
    constructor
    · rintro ⟨⟩; exact .nil
    · rintro ⟨⟩; rfl
  | cons item rest ih =>
    rw [List.map_cons, runFrom_cons_eq_some_iff]
    constructor
    · rintro ⟨first, others, hfirst, hothers, rfl⟩
      exact .cons hfirst (ih.mp hothers)
    · rintro (_ | ⟨hfirst, hrest⟩)
      exact ⟨_, _, hfirst, ih.mpr hrest, rfl⟩

/-- A window ends exactly as `Runs` admits. -/
theorem run_eq_some_iff {job : ι → Job α} {items : List ι} {width start : Nat}
    {timed : Timed (List α)} :
    run width (items.map job) start = some timed ↔
      Runs (fun item start run => job item start = some run) start
        (slots width items.length start) items timed := by
  rw [run, runFrom_eq_some_iff, List.length_map, slots]

namespace Runs

variable {work : ι → Nat → Timed α → Prop} {handed start : Nat} {slots : List Nat}
  {items : List ι} {timed : Timed (List α)}

theorem imp {other : ι → Nat → Timed α → Prop} (h : Runs work handed slots items timed)
    (hw : ∀ item ∈ items, ∀ start run, work item start run → other item start run) :
    Runs other handed slots items timed := by
  induction h with
  | nil => exact .nil
  | cons hfirst _ ih =>
    exact .cons (hw _ (by simp) _ _ hfirst) (ih fun item hm => hw item (by simp [hm]))

/-- Each item has a run, and the window has their values and records in order. -/
theorem results (h : Runs work handed slots items timed) :
    ∃ runs : List (Timed α),
      List.Forall₂ (fun item run => ∃ start, work item start run) items runs ∧
        timed.value = runs.map Timed.value ∧ timed.record = runs.flatMap Timed.record := by
  induction h with
  | nil => exact ⟨[], .nil, rfl, rfl⟩
  | cons hfirst _ ih =>
    obtain ⟨runs, hruns, hvalue, hrecord⟩ := ih
    exact ⟨_ :: runs, .cons ⟨_, hfirst⟩ hruns, by simp [hvalue], by simp [hrecord]⟩

/-- The value at an index is that of the item there. -/
theorem value_getElem? (h : Runs work handed slots items timed) {i : Nat} {a : α}
    (ha : timed.value[i]? = some a) :
    ∃ item start run, items[i]? = some item ∧ work item start run ∧ run.value = a := by
  induction h generalizing i with
  | nil => cases ha
  | cons hfirst _ ih =>
    cases i with
    | zero => exact ⟨_, _, _, rfl, hfirst, Option.some.inj ha⟩
    | succ i => exact ih ha

/-- The item at an index has its value there. -/
theorem getElem? (h : Runs work handed slots items timed) {i : Nat} {item : ι}
    (hi : items[i]? = some item) :
    ∃ start run, work item start run ∧ timed.value[i]? = some run.value := by
  induction h generalizing i with
  | nil => cases hi
  | @cons _ slots _ _ first _ hfirst _ ih =>
    cases i with
    | zero =>
      cases hi
      exact ⟨_, first, hfirst, rfl⟩
    | succ i => exact ih hi

/-- What stands in the record is there for one of the items. -/
theorem mem_record (h : Runs work handed slots items timed) {o : Occurrence}
    (ho : o ∈ timed.record) :
    ∃ item ∈ items, ∃ start run, work item start run ∧ o ∈ run.record := by
  induction h with
  | nil => cases ho
  | cons hfirst _ ih =>
    rcases List.mem_append.mp ho with ho | ho
    · exact ⟨_, by simp, _, _, hfirst, ho⟩
    · obtain ⟨item, hm, start, run, hrun, hmem⟩ := ih ho
      exact ⟨item, by simp [hm], start, run, hrun, hmem⟩

/-- If each value shows something of its item, the values show it in the order of the items. -/
theorem value_map {β : Type} (h : Runs work handed slots items timed) (f : ι → β) (g : α → β)
    (hw : ∀ item ∈ items, ∀ start run, work item start run → g run.value = f item) :
    timed.value.map g = items.map f := by
  induction h with
  | nil => rfl
  | cons hfirst _ ih =>
    rw [List.map_cons, List.map_cons, hw _ (by simp) _ _ hfirst,
      ih fun item hm => hw item (by simp [hm])]

/-- If the work for each item stays within its time, the window does. -/
theorem within_from (h : Runs work handed slots items timed)
    (hw : ∀ item ∈ items, ∀ start run, work item start run → Timed.Within start run)
    (hh : start ≤ handed) (hs : ∀ slot ∈ slots, start ≤ slot) :
    handed ≤ timed.finish ∧
      ∀ o ∈ timed.record, start ≤ o.start ∧ o.start ≤ o.finish ∧ o.finish ≤ timed.finish := by
  induction h with
  | nil => exact ⟨Nat.le_refl _, by simp⟩
  | @cons handed slots item rest first others hfirst _ ih =>
    obtain ⟨hle, hrec⟩ := ih (fun item hm => hw item (by simp [hm])) (by omega) (by
      intro slot hm
      rcases List.mem_append.mp hm with hm | hm
      · exact hs slot (List.mem_of_mem_drop hm)
      · rw [List.mem_singleton.mp hm]; omega)
    have hslot : start ≤ slots.head?.getD handed := by
      cases slots with
      | nil => exact hh
      | cons slot _ => exact hs slot (by simp)
    have hin := hw item (by simp) _ _ hfirst
    refine ⟨by dsimp only; omega, fun o hm => ?_⟩
    rcases List.mem_append.mp hm with hm | hm
    · obtain ⟨h1, h2, h3⟩ := hin.record o hm
      exact ⟨by omega, h2, by dsimp only; omega⟩
    · exact hrec o hm

/-- The record of a window lies between its start and its end. -/
theorem within {width : Nat}
    (h : Runs work start (Window.slots width items.length start) items timed)
    (hw : ∀ item ∈ items, ∀ start run, work item start run → Timed.Within start run) :
    Timed.Within start timed := by
  obtain ⟨h1, h2⟩ := h.within_from hw (Nat.le_refl start) (by
    intro slot hm
    exact Nat.le_of_eq (List.eq_of_mem_replicate hm).symm)
  exact ⟨h1, h2⟩

end Runs

/-! ## One slot -/

/-- Items that are done one after the other: the work for an item starts when that for the item
    before it has ended. -/
inductive InTurn (work : ι → Nat → Timed α → Prop) : Nat → List ι → List (Timed α) → Prop
  | nil {start : Nat} : InTurn work start [] []
  | cons {start : Nat} {item : ι} {rest : List ι} {first : Timed α} {others : List (Timed α)} :
      work item start first → InTurn work first.finish rest others →
      InTurn work start (item :: rest) (first :: others)

/-- The only slot is free when the item before has been handed over. -/
theorem one_slot {handed : Nat} {slots : List Nat} (h : slots = [] ∨ slots = [handed]) :
    slots.head?.getD handed = handed ∧ slots.drop 1 = [] := by
  rcases h with rfl | rfl
  · exact ⟨rfl, rfl⟩
  · exact ⟨rfl, rfl⟩

/-- With one slot, or none, items are done in turn. -/
theorem Runs.inTurn {work : ι → Nat → Timed α → Prop} {handed : Nat} {slots : List Nat}
    {items : List ι} {timed : Timed (List α)} (h : Runs work handed slots items timed)
    (hs : slots = [] ∨ slots = [handed])
    (hw : ∀ item ∈ items, ∀ start run, work item start run → start ≤ run.finish) :
    ∃ runs, InTurn work handed items runs ∧ timed.value = runs.map Timed.value ∧
      timed.record = runs.flatMap Timed.record := by
  induction h with
  | nil => exact ⟨[], .nil, rfl, rfl⟩
  | @cons handed slots item rest first others hfirst _ ih =>
    obtain ⟨hstart, hdrop⟩ := one_slot hs
    rw [hstart] at hfirst
    have hnext : max handed first.finish = first.finish :=
      Nat.max_eq_right (hw item (by simp) _ _ hfirst)
    rw [hnext, hdrop] at ih
    obtain ⟨runs, hruns, hvalue, hrecord⟩ :=
      ih (.inr rfl) fun item hm => hw item (by simp [hm])
    exact ⟨first :: runs, .cons hfirst hruns, by simp [hvalue], by simp [hrecord]⟩

theorem slots_one (count start : Nat) :
    slots 1 count start = [] ∨ slots 1 count start = [start] := by
  unfold slots
  rcases Nat.eq_zero_or_pos count with rfl | h
  · exact .inl rfl
  · rw [Nat.min_eq_left h]; exact .inr rfl

namespace InTurn

variable {work : ι → Nat → Timed α → Prop} {start : Nat} {items : List ι} {runs : List (Timed α)}

theorem start_le (h : InTurn work start items runs)
    (hw : ∀ item ∈ items, ∀ start run, work item start run → Timed.Within start run) :
    ∀ run ∈ runs, ∀ o ∈ run.record, start ≤ o.start := by
  induction h with
  | nil => simp
  | @cons start item rest first others hfirst _ ih =>
    have hin := hw item (by simp) _ _ hfirst
    intro run hm o ho
    rcases List.mem_cons.mp hm with rfl | hm
    · exact (hin.record o ho).1
    · exact Nat.le_trans hin.start_le
        (ih (fun item hm => hw item (by simp [hm])) run hm o ho)

theorem exists_of_mem (h : InTurn work start items runs) {run : Timed α} (hm : run ∈ runs) :
    ∃ item ∈ items, ∃ start, work item start run := by
  induction h with
  | nil => cases hm
  | cons hfirst _ ih =>
    rcases List.mem_cons.mp hm with rfl | hm
    · exact ⟨_, by simp, _, hfirst⟩
    · obtain ⟨item, hitem, start, hwork⟩ := ih hm
      exact ⟨item, by simp [hitem], start, hwork⟩

theorem exists_of_getElem? (h : InTurn work start items runs) {position : Nat} {run : Timed α}
    (hrun : runs[position]? = some run) :
    ∃ item start, items[position]? = some item ∧ work item start run := by
  induction h generalizing position with
  | nil => cases hrun
  | cons hfirst _ ih =>
    cases position with
    | zero =>
      cases hrun
      exact ⟨_, _, rfl, hfirst⟩
    | succ position => exact ih hrun

/-- Work whose values are changed is done in turn if the work itself is. -/
theorem of_map {β : Type} {part : ι → Nat → Timed β → Prop} {f : ι → β → α}
    (h : InTurn (fun item start run => ∃ first, part item start first ∧ run = first.map (f item))
      start items runs) :
    ∃ firsts, InTurn part start items firsts ∧
      runs.flatMap Timed.record = firsts.flatMap Timed.record := by
  induction h with
  | nil => exact ⟨[], .nil, rfl⟩
  | cons hfirst _ ih =>
    obtain ⟨first, hpart, rfl⟩ := hfirst
    obtain ⟨firsts, hturn, hrecord⟩ := ih
    exact ⟨first :: firsts, .cons hpart hturn, by simp [hrecord]⟩

/-- What an item leaves in the record is over before anything of a later item begins. -/
theorem pairwise (h : InTurn work start items runs)
    (hw : ∀ item ∈ items, ∀ start run, work item start run → Timed.Within start run) :
    runs.Pairwise fun earlier later =>
      ∀ o ∈ earlier.record, ∀ o' ∈ later.record, o.finish ≤ o'.start := by
  induction h with
  | nil => exact .nil
  | @cons start item rest first others hfirst hothers ih =>
    have hrest : ∀ item ∈ rest, ∀ start run, work item start run → Timed.Within start run :=
      fun item hm => hw item (by simp [hm])
    refine .cons (fun run hm o ho o' ho' => ?_) (ih hrest)
    have h1 := ((hw item (by simp) _ _ hfirst).record o ho).2.2
    have h2 := hothers.start_le hrest run hm o' ho'
    omega

end InTurn

/-! ## Values -/

theorem gives_runFrom {job : ι → Job α} {value : ι → Option α} (items : List ι)
    (h : ∀ item ∈ items, (job item).Gives (value item)) (handed : Nat) (slots : List Nat) :
    (runFrom handed slots (items.map job)).map Timed.value = items.mapM value := by
  induction items generalizing handed slots with
  | nil => rfl
  | cons item rest ih =>
    rw [List.map_cons, runFrom, List.mapM_cons]
    have hitem := h item (by simp) (slots.head?.getD handed)
    have hrest := ih fun item hm => h item (by simp [hm])
    cases hfirst : job item (slots.head?.getD handed) with
    | none =>
      rw [hfirst] at hitem
      rw [← hitem]
      rfl
    | some first =>
      rw [hfirst] at hitem
      rw [← hitem, ← hrest (max handed first.finish) (slots.drop 1 ++ [max handed first.finish])]
      dsimp only
      cases runFrom (max handed first.finish) (slots.drop 1 ++ [max handed first.finish])
        (rest.map job) <;> rfl

/-- If the jobs give values that do not depend on time, their window gives the list of them. -/
theorem gives_run {job : ι → Job α} {value : ι → Option α} (width : Nat) (items : List ι)
    (h : ∀ item ∈ items, (job item).Gives (value item)) :
    (run width (items.map job)).Gives (items.mapM value) :=
  fun start => gives_runFrom items h start _

end GraphQL.Window

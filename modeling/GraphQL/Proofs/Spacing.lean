import GraphQL.Proofs.Window

/-!
# How siblings are spaced

`Window.Runs` tells how the work of a window is done, with the slots that are free at each moment.
What comes of it can be said without slots (`Window.Spaced`): the first siblings start when the
window is opened and every other one when the sibling a whole window before it is handed over, which
happens as soon as it and all siblings before that are done. So they start in order, and there are
never more of them started and not handed over than the window is wide.

A `Schedule` stands between the two: it has the slots, but not the work.

Results:
* `Schedule.starts_prefix`: the times at which slots become free are those at which siblings start.
* `Schedule.countP_isOpen_le`: never are there more siblings in a window than it has slots.
* `Runs.exists_spaced`: whatever is run in a window is spaced.
-/

namespace GraphQL.Window

/-- The part that one of the siblings takes. -/
structure Span where
  start : Nat
  /-- When its own work is done. -/
  finish : Nat
  /-- When it is handed over. -/
  handed : Nat
  /-- What is noted in its work. -/
  record : List Occurrence

/-- Whether it has been started and has not been handed over. -/
def Span.isOpen (time : Nat) (span : Span) : Bool :=
  decide (span.start ≤ time) && decide (time < span.handed)

/-- Siblings that share a window. -/
structure Spaced (width opened : Nat) (spans : List Span) : Prop where
  /-- As many as the window is wide start when it is opened, every other one when the one that
      stands a whole window before it is handed over. -/
  starts : spans.map Span.start =
    (List.replicate width opened ++ spans.map Span.handed).take spans.length
  /-- A sibling is handed over when it and all before it are done. -/
  handed : opened :: spans.map Span.handed = (spans.map Span.finish).scanl max opened
  /-- They start in order. -/
  ordered : spans.Pairwise fun earlier later => earlier.start ≤ later.start
  /-- At no time are there more of them started and not handed over than the window is wide. -/
  bounded (time : Nat) : spans.countP (Span.isOpen time) ≤ width

/-- No siblings are spaced in any way. -/
theorem Spaced.nil (width opened : Nat) : Spaced width opened [] :=
  ⟨by simp, rfl, .nil, fun _ => Nat.zero_le _⟩

/-- Siblings that take the slots of a window. The other arguments are those of `runFrom`. -/
inductive Schedule : Nat → List Nat → List Span → Prop
  | nil {handed : Nat} {slots : List Nat} : Schedule handed slots []
  | cons {handed : Nat} {slots : List Nat} {span : Span} {rest : List Span} :
      span.start = slots.head?.getD handed →
      span.handed = max handed span.finish →
      Schedule span.handed (slots.drop 1 ++ [span.handed]) rest →
      Schedule handed slots (span :: rest)

namespace Schedule

variable {handed width opened : Nat} {slots : List Nat} {spans : List Span}

/-- Nothing is handed over before what was handed over already. -/
theorem le_handed (h : Schedule handed slots spans) : ∀ span ∈ spans, handed ≤ span.handed := by
  induction h with
  | nil => simp
  | @cons handed slots span rest _ hhanded _ ih =>
    intro other hm
    have hle : handed ≤ span.handed := by omega
    rcases List.mem_cons.mp hm with rfl | hm
    · exact hle
    · exact Nat.le_trans hle (ih other hm)

theorem pairwise_handed (h : Schedule handed slots spans) :
    (spans.map Span.handed).Pairwise (· ≤ ·) := by
  induction h with
  | nil => exact .nil
  | cons _ _ hrest ih =>
    rw [List.map_cons]
    refine .cons (fun time hm => ?_) ih
    obtain ⟨other, hother, rfl⟩ := List.mem_map.mp hm
    exact hrest.le_handed other hother

theorem scanl_finish (h : Schedule handed slots spans) :
    handed :: spans.map Span.handed = (spans.map Span.finish).scanl max handed := by
  induction h with
  | nil => rfl
  | cons _ hhanded _ ih =>
    rw [List.map_cons, List.map_cons, List.scanl_cons, ih, hhanded]

/-- A slot that a sibling leaves is free behind all others. So siblings start at the times at which
    the slots were free in the beginning, then at those at which siblings are handed over. -/
theorem starts_prefix (h : Schedule handed slots spans) (hslots : slots ≠ []) :
    spans.map Span.start <+: slots ++ spans.map Span.handed := by
  induction h with
  | nil => exact List.nil_prefix
  | @cons handed slots span rest hstart _ _ ih =>
    obtain ⟨slot, others, rfl⟩ := List.exists_cons_of_ne_nil hslots
    have hslot : span.start = slot := hstart
    have hrest : rest.map Span.start <+: others ++ [span.handed] ++ rest.map Span.handed :=
      ih (by simp)
    rw [List.append_assoc, List.singleton_append] at hrest
    rw [List.map_cons, List.map_cons, hslot, List.cons_append]
    exact (List.prefix_cons_inj slot).mpr hrest

/-- Never are more siblings started and not handed over than there are slots. -/
theorem countP_isOpen_le (h : Schedule handed slots spans) (hslots : slots ≠ []) (time : Nat) :
    spans.countP (Span.isOpen time) ≤ slots.length := by
  induction h with
  | nil => exact Nat.zero_le _
  | @cons handed slots span rest hstart hhanded hrest ih =>
    have hall : Schedule handed slots (span :: rest) := .cons hstart hhanded hrest
    by_cases htime : time < span.handed
    · -- Nothing has been handed over yet, so whatever has started has one of the slots at hand.
      have hnone : ((span :: rest).map Span.handed).countP (fun t => decide (t ≤ time)) = 0 := by
        refine List.countP_eq_zero.mpr fun t hm => ?_
        obtain ⟨other, hother, rfl⟩ := List.mem_map.mp hm
        have hle : span.handed ≤ other.handed := by
          rcases List.mem_cons.mp hother with rfl | hother
          · exact Nat.le_refl _
          · exact hrest.le_handed other hother
        simp only [decide_eq_true_eq]
        omega
      calc (span :: rest).countP (Span.isOpen time)
          ≤ (span :: rest).countP (fun span => decide (span.start ≤ time)) :=
            List.countP_mono_left fun other _ hopen => (Bool.and_eq_true_iff.mp hopen).1
        _ = ((span :: rest).map Span.start).countP (fun t => decide (t ≤ time)) := by
            rw [List.countP_map]
            rfl
        _ ≤ (slots ++ (span :: rest).map Span.handed).countP (fun t => decide (t ≤ time)) :=
            (hall.starts_prefix hslots).sublist.countP_le
        _ ≤ slots.length := by
            rw [List.countP_append, hnone, Nat.add_zero]
            exact List.countP_le_length
    · -- The first one is gone and has left its slot to the others.
      have hgone : ¬ span.isOpen time = true := by
        simp only [Span.isOpen, Bool.and_eq_true, decide_eq_true_eq]
        omega
      obtain ⟨slot, others, rfl⟩ := List.exists_cons_of_ne_nil hslots
      rw [List.countP_cons_of_neg hgone]
      have hcount := ih (by simp)
      simpa using hcount

/-- In a window that has just been opened, siblings are spaced. -/
theorem spaced (h : Schedule opened (Window.slots width spans.length opened) spans)
    (hwidth : 0 < width) : Spaced width opened spans := by
  rcases eq_or_ne spans [] with rfl | hne
  · exact .nil width opened
  have hcount : 0 < spans.length := List.length_pos_of_ne_nil hne
  have hslots : Window.slots width spans.length opened ≠ [] := by
    refine List.ne_nil_of_length_pos ?_
    rw [Window.slots, List.length_replicate]
    omega
  have hprefix := h.starts_prefix hslots
  refine ⟨?_, h.scanl_finish, ?_, fun time => ?_⟩
  · -- Slots that nobody takes make no difference.
    have htake := List.prefix_iff_eq_take.mp hprefix
    rw [List.length_map, Window.slots, List.take_append, List.length_replicate,
      List.take_replicate] at htake
    rw [htake, List.take_append, List.length_replicate, List.take_replicate]
    congr 2 <;> omega
  · have hsorted : (Window.slots width spans.length opened ++
        spans.map Span.handed).Pairwise (· ≤ ·) := by
      refine List.pairwise_append.mpr ⟨?_, h.pairwise_handed, fun slot hslot time htime => ?_⟩
      · exact List.pairwise_replicate.mpr (.inr (Nat.le_refl opened))
      · obtain ⟨span, hspan, rfl⟩ := List.mem_map.mp htime
        rw [List.eq_of_mem_replicate hslot]
        exact h.le_handed span hspan
    exact List.pairwise_map.mp (hsorted.sublist hprefix.sublist)
  · have hle := h.countP_isOpen_le hslots time
    rw [Window.slots, List.length_replicate] at hle
    omega

end Schedule

/-- Whatever is run in a window has a schedule, and its record is put together from those of the
    siblings. -/
theorem Runs.exists_schedule {ι α : Type} {work : ι → Nat → Timed α → Prop} {handed : Nat}
    {slots : List Nat} {items : List ι} {timed : Timed (List α)}
    (h : Runs work handed slots items timed) :
    ∃ spans, Schedule handed slots spans ∧
      List.Forall₂ (fun item span =>
        ∃ value, work item span.start ⟨value, span.finish, span.record⟩) items spans ∧
      timed.record = spans.flatMap Span.record := by
  induction h with
  | nil => exact ⟨[], .nil, .nil, rfl⟩
  | @cons handed slots item rest first others hfirst _ ih =>
    obtain ⟨spans, hspans, hwork, hrecord⟩ := ih
    let span : Span :=
      ⟨slots.head?.getD handed, first.finish, max handed first.finish, first.record⟩
    refine ⟨span :: spans, .cons rfl rfl hspans, .cons ⟨first.value, hfirst⟩ hwork, ?_⟩
    rw [List.flatMap_cons, ← hrecord]

/-- Whatever is run in a window is spaced. -/
theorem Runs.exists_spaced {ι α : Type} {work : ι → Nat → Timed α → Prop} {width opened : Nat}
    {items : List ι} {timed : Timed (List α)}
    (h : Runs work opened (Window.slots width items.length opened) items timed)
    (hwidth : 0 < width) :
    ∃ spans, Spaced width opened spans ∧
      List.Forall₂ (fun item span =>
        ∃ value, work item span.start ⟨value, span.finish, span.record⟩) items spans ∧
      timed.record = spans.flatMap Span.record := by
  obtain ⟨spans, hschedule, hwork, hrecord⟩ := h.exists_schedule
  rw [hwork.length_eq] at hschedule
  exact ⟨spans, hschedule.spaced hwidth, hwork, hrecord⟩

end GraphQL.Window

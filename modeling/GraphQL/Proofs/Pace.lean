import GraphQL.Proofs.Whereabouts

/-!
# The pace of an execution

How long an execution takes depends on its windows. With windows of one slot everything happens one
after the other (`Unbroken`), so the time that passes is what the effects take together. Wider
windows are never slower. `Job.NoLater` says of two jobs that the first one, when it is started no
later, comes to the same value no later, and notes the same things in the same order, each of them
no later. Every step of an execution keeps this, although slots are taken in order and what siblings
take depends on the windows below them.

For a window this needs an invariant. Of the slots of the wider one, the last ones are free no later
than those of the narrower one, slot by slot (`Window.Ahead`); since slots are taken in the order in
which they become free, so is the one that is taken next.

Results:
* `unbrokenRules`: with windows of one slot, whatever happens begins when the last thing is over.
* `Window.noLater_run`: a wider window of jobs that are not later is not later.
* `Context.quicker`: an execution with wider windows is not later.
-/

namespace GraphQL

variable {α β : Type}

/-! ## One thing after the other -/

/-- From `start` to `finish` the occurrences follow upon each other: each begins when the one before
    it is over. -/
def Unbroken : Nat → List Occurrence → Nat → Prop
  | start, [], finish => finish = start
  | start, o :: rest, finish => o.start = start ∧ o.start ≤ o.finish ∧ Unbroken o.finish rest finish

namespace Unbroken

variable {start middle finish : Nat} {record others : List Occurrence}

theorem le (h : Unbroken start record finish) : start ≤ finish := by
  induction record generalizing start with
  | nil => exact Nat.le_of_eq h.symm
  | cons o rest ih =>
    obtain ⟨hstart, hle, hrest⟩ := h
    have hlater := ih hrest
    omega

theorem append (h : Unbroken start record middle) (hothers : Unbroken middle others finish) :
    Unbroken start (record ++ others) finish := by
  induction record generalizing start with
  | nil =>
    obtain rfl : middle = start := h
    exact hothers
  | cons o rest ih =>
    obtain ⟨hstart, hle, hrest⟩ := h
    exact ⟨hstart, hle, ih hrest⟩

/-- What takes no time can be noted in front. -/
theorem note (hnoted : ∀ o ∈ others, o.start = start ∧ o.finish = start)
    (h : Unbroken start record finish) : Unbroken start (others ++ record) finish := by
  induction others with
  | nil => exact h
  | cons o rest ih =>
    obtain ⟨hstart, hfinish⟩ := hnoted o List.mem_cons_self
    have hrest := ih fun o hm => hnoted o (List.mem_cons_of_mem _ hm)
    refine ⟨hstart, by omega, ?_⟩
    rw [hfinish]
    exact hrest

end Unbroken

/-- In a window of one slot, work that is unbroken follows upon each other. -/
theorem Window.Runs.unbroken {ι : Type} {work : ι → Nat → Timed α → Prop} {items : List ι}
    {handed : Nat} {slots : List Nat} {timed : Timed (List α)}
    (h : Runs work handed slots items timed) (hslots : slots = [] ∨ slots = [handed])
    (hwork : ∀ item ∈ items, ∀ start run, work item start run →
      Unbroken start run.record run.finish) :
    Unbroken handed timed.record timed.finish := by
  induction h with
  | nil => exact rfl
  | @cons handed slots item rest first others hfirst _ ih =>
    obtain ⟨hstart, hdrop⟩ := one_slot hslots
    rw [hstart] at hfirst
    have hitem : Unbroken handed first.record first.finish := hwork item (by simp) _ _ hfirst
    have hnext : max handed first.finish = first.finish := Nat.max_eq_right hitem.le
    rw [hnext, hdrop] at ih
    exact hitem.append (ih (.inr rfl) fun item hm => hwork item (by simp [hm]))

/-- All kinds of work are unbroken, in windows of one slot. -/
def unbroken (ref : Type) : Property ref where
  value _ _ _ _ start timed := Unbroken start timed.record timed.finish
  node _ _ _ _ start timed := Unbroken start timed.record timed.finish
  field _ _ _ start timed := Unbroken start timed.record timed.finish
  fields width _ _ _ start timed := width = 1 → Unbroken start timed.record timed.finish

/-- With windows of one slot every step of an execution is unbroken. -/
theorem unbrokenRules {ref : Type} {context : Context ref} (hwindow : context.window = 1) :
    context.Rules (unbroken ref) where
  picked _ := rfl
  leaf _ := rfl
  object _ h := h hwindow
  unselected _ := rfl
  list h := h.unbroken (hwindow ▸ Window.slots_one _ _) fun _ _ _ _ hrun => hrun
  ready h := h
  effect h := ⟨rfl, Nat.le_add_right _ _, h⟩
  failed := ⟨rfl, Nat.le_add_right _ _, rfl⟩
  stream := ⟨rfl, Nat.le_refl _, rfl⟩
  typename _ := rfl
  unresolved _ _ := rfl
  resolved _ _ h := h.note fun _ ho =>
    ⟨(callRecord_confined ho).1, (callRecord_confined ho).2.1⟩
  fields h := by
    rintro rfl
    refine h.unbroken (Window.slots_one _ _) ?_
    rintro entry - start _ ⟨outcome, houtcome, rfl⟩
    exact houtcome

/-! ## Nothing is later -/

/-- The same happens, and no later. An effect takes as long. -/
inductive Occurrence.NoLater : Occurrence → Occurrence → Prop
  | called {path : Path} {field : String} {arguments : Fields} {time late : Nat} :
      time ≤ late → NoLater (.called path field arguments time) (.called path field arguments late)
  | made {label : String} {time late : Nat} :
      time ≤ late → NoLater (.made label time) (.made label late)
  | ran {path : Path} {label : Option String} {start late : Nat} (delay : Nat) :
      start ≤ late →
      NoLater (.ran path label start (start + delay)) (.ran path label late (late + delay))
  | pulled {path : Path} {time late : Nat} :
      time ≤ late → NoLater (.pulled path time) (.pulled path late)
  | released {path : Path} {sources time late : Nat} :
      time ≤ late → NoLater (.released path sources time) (.released path sources late)

theorem Occurrence.NoLater.start_le {o late : Occurrence} (h : o.NoLater late) :
    o.start ≤ late.start := by
  cases h <;> assumption

/-- The same value is there no later, and the same has happened on the way, in the same order. -/
structure Timed.NoLater (timed late : Timed α) : Prop where
  value : timed.value = late.value
  finish : timed.finish ≤ late.finish
  record : List.Forall₂ Occurrence.NoLater timed.record late.record

/-- Started no later, the job ends no later, if the other one ends at all. -/
def Job.NoLater (job late : Job α) : Prop :=
  ∀ start begun, start ≤ begun → ∀ timed, late begun = some timed →
    ∃ first, job start = some first ∧ first.NoLater timed

namespace Job.NoLater

variable {job late : Job α}

theorem unfinished (job : Job α) : job.NoLater .unfinished := by
  intro start begun _ timed h
  cases h

theorem done (value : α) : (Job.done value).NoLater (.done value) := by
  intro start begun hle timed h
  obtain rfl := Job.done_eq_some_iff.mp h
  exact ⟨_, rfl, ⟨rfl, hle, .nil⟩⟩

theorem map (f : α → β) (h : job.NoLater late) : (job.map f).NoLater (late.map f) := by
  intro start begun hle timed hmapped
  obtain ⟨timed, hrun, rfl⟩ := Job.map_eq_some_iff.mp hmapped
  obtain ⟨first, hfirst, hnoLater⟩ := h start begun hle timed hrun
  exact ⟨_, Job.map_eq_some_iff.mpr ⟨first, hfirst, rfl⟩,
    ⟨congrArg f hnoLater.value, hnoLater.finish, hnoLater.record⟩⟩

theorem noting {occurrences : Nat → List Occurrence} (h : job.NoLater late)
    (hnoted : ∀ start begun, start ≤ begun →
      List.Forall₂ Occurrence.NoLater (occurrences start) (occurrences begun)) :
    (job.noting occurrences).NoLater (late.noting occurrences) := by
  intro start begun hle timed hnoting
  obtain ⟨timed, hrun, rfl⟩ := Job.noting_eq_some_iff.mp hnoting
  obtain ⟨first, hfirst, hnoLater⟩ := h start begun hle timed hrun
  exact ⟨_, Job.noting_eq_some_iff.mpr ⟨first, hfirst, rfl⟩,
    ⟨hnoLater.value, hnoLater.finish, List.rel_append (hnoted start begun hle) hnoLater.record⟩⟩

theorem after (delay : Nat) (h : job.NoLater late) : (job.after delay).NoLater (late.after delay) :=
  fun start begun hle => h (start + delay) (begun + delay) (Nat.add_le_add_right hle delay)

end Job.NoLater

/-! ## Windows -/

namespace Window

/-- The slots are taken in the order in which they are free, all of them are free by now, and the
    last ones are free no later than the slots of another window, one by one. -/
structure Ahead (handed : Nat) (slots lates : List Nat) : Prop where
  sorted : slots.Pairwise (· ≤ ·)
  free : ∀ slot ∈ slots, slot ≤ handed
  last : ∃ front back, slots = front ++ back ∧ List.Forall₂ (· ≤ ·) back lates
  nonempty : lates ≠ []

namespace Ahead

variable {handed : Nat} {slots lates : List Nat}

/-- The slot that is taken next is free no later. -/
theorem head_le (h : Ahead handed slots lates) (handed late : Nat) :
    slots.head?.getD handed ≤ lates.head?.getD late := by
  obtain ⟨front, back, rfl, hback⟩ := h.last
  obtain ⟨other, others, rfl⟩ := List.exists_cons_of_ne_nil h.nonempty
  cases hback with
  | @cons slot _ rest _ hle _ =>
    cases front with
    | nil => exact hle
    | cons first front =>
      have hfirst : first ≤ slot := List.rel_of_pairwise_cons h.sorted (by simp)
      exact Nat.le_trans hfirst hle

/-- A slot is taken and given back. -/
theorem next (h : Ahead handed slots lates) {next late : Nat} (hhanded : handed ≤ next)
    (hle : next ≤ late) : Ahead next (slots.drop 1 ++ [next]) (lates.drop 1 ++ [late]) where
  sorted := by
    refine List.pairwise_append.mpr ⟨h.sorted.drop, List.pairwise_singleton _ _, ?_⟩
    intro slot hslot last hlast
    rw [List.mem_singleton.mp hlast]
    exact Nat.le_trans (h.free slot (List.mem_of_mem_drop hslot)) hhanded
  free := by
    intro slot hslot
    rcases List.mem_append.mp hslot with hslot | hslot
    · exact Nat.le_trans (h.free slot (List.mem_of_mem_drop hslot)) hhanded
    · exact Nat.le_of_eq (List.mem_singleton.mp hslot)
  last := by
    obtain ⟨front, back, rfl, hback⟩ := h.last
    obtain ⟨other, others, rfl⟩ := List.exists_cons_of_ne_nil h.nonempty
    cases hback with
    | @cons slot _ rest _ _ hrest =>
      have hlast : List.Forall₂ (· ≤ ·) (rest ++ [next]) (others ++ [late]) :=
        List.rel_append hrest (.cons hle .nil)
      cases front with
      | nil => exact ⟨[], rest ++ [next], rfl, hlast⟩
      | cons first front => exact ⟨front ++ [slot], rest ++ [next], by simp, hlast⟩
  nonempty := by simp

end Ahead

/-- A window is ahead of a narrower one that is opened no earlier. -/
theorem ahead_slots {start begun width narrow count : Nat} (hle : start ≤ begun)
    (hwidth : narrow ≤ width) (hnarrow : 0 < narrow) (hcount : 0 < count) :
    Ahead start (slots width count start) (slots narrow count begun) where
  sorted := List.pairwise_replicate.mpr (.inr (Nat.le_refl start))
  free slot hslot := Nat.le_of_eq (List.eq_of_mem_replicate hslot)
  last := by
    refine ⟨List.replicate (min width count - min narrow count) start,
      List.replicate (min narrow count) start, ?_, ?_⟩
    · rw [slots, List.replicate_append_replicate]
      congr 1
      omega
    · rw [slots]
      induction min narrow count with
      | zero => exact .nil
      | succ _ ih => exact .cons hle ih
  nonempty := by
    refine List.ne_nil_of_length_pos ?_
    rw [slots, List.length_replicate]
    omega

/-- Jobs that are not later are not later in a window that is ahead. -/
theorem noLater_runFrom {jobs lates : List (Job α)} (h : List.Forall₂ Job.NoLater jobs lates)
    {handed late : Nat} {free slots : List Nat} (hle : handed ≤ late)
    (hahead : Ahead handed free slots) {timed : Timed (List α)}
    (hrun : runFrom late slots lates = some timed) :
    ∃ first, runFrom handed free jobs = some first ∧ first.NoLater timed := by
  induction h generalizing handed late free slots timed with
  | nil =>
    cases hrun
    exact ⟨_, rfl, ⟨rfl, hle, .nil⟩⟩
  | @cons job lateJob jobs lates hjob _ ih =>
    obtain ⟨lateHead, lateRest, hhead, htail, rfl⟩ := runFrom_cons_eq_some_iff.mp hrun
    obtain ⟨head, hrunHead, hnoLater⟩ := hjob _ _ (hahead.head_le handed late) lateHead hhead
    have hfinish := hnoLater.finish
    have hnext : max handed head.finish ≤ max late lateHead.finish := by omega
    obtain ⟨rest, hrunRest, hrest⟩ :=
      ih hnext (hahead.next (Nat.le_max_left handed head.finish) hnext) htail
    refine ⟨_, runFrom_cons_eq_some_iff.mpr ⟨head, rest, hrunHead, hrunRest, rfl⟩, ?_⟩
    exact {
      value := congrArg₂ List.cons hnoLater.value hrest.value
      finish := hrest.finish
      record := List.rel_append hnoLater.record hrest.record }

/-- A wider window of jobs that are not later is not later. -/
theorem noLater_run {jobs lates : List (Job α)} (h : List.Forall₂ Job.NoLater jobs lates)
    {width narrow : Nat} (hwidth : narrow ≤ width) (hnarrow : 0 < narrow) :
    (run width jobs).NoLater (run narrow lates) := by
  intro start begun hle timed hrun
  cases h with
  | nil =>
    cases hrun
    exact ⟨_, rfl, ⟨rfl, hle, .nil⟩⟩
  | @cons job lateJob jobs lates hjob hjobs =>
    have hlength : (job :: jobs).length = (lateJob :: lates).length :=
      (List.Forall₂.cons hjob hjobs).length_eq
    have hahead := ahead_slots hle hwidth hnarrow (Nat.succ_pos lates.length)
    rw [run, hlength]
    exact noLater_runFrom (.cons hjob hjobs) hle hahead hrun

end Window

/-! ## Executions -/

namespace Context

variable {ref : Type} {context : Context ref} {width bound : Nat}

theorem callRecord_noLater (path : Path) (field : Field) (called : ResolvedField ref)
    {start begun : Nat} (hle : start ≤ begun) :
    List.Forall₂ Occurrence.NoLater (callRecord path field called start)
      (callRecord path field called begun) := by
  refine .cons (.called hle) ?_
  rw [makeRecord, makeRecord, List.forall₂_map_left_iff, List.forall₂_map_right_iff]
  exact List.forall₂_same.mpr fun label _ => .made hle

/-- Within the bound, nothing is later with windows of the given width. -/
structure Quicker (context : Context ref) (width bound : Nat) : Prop where
  value (type : TypeRef) (value : Resolved ref) (collected : CollectedField) (path : Path) :
    ({ context with width }.completeValue bound type value collected path).NoLater
      (context.completeValue bound type value collected path)
  node (type : TypeRef) (node : Node ref) (collected : CollectedField) (path : Path) :
    ({ context with width }.completeNode bound type node collected path).NoLater
      (context.completeNode bound type node collected path)
  field (object : ObjectType ref) (collected : CollectedField) (path : Path) :
    ({ context with width }.executeField bound object collected path).NoLater
      (context.executeField bound object collected path)
  fields {narrow wide : Nat} (hle : narrow ≤ wide) (hpos : 0 < narrow) (object : ObjectType ref)
      (path : Path) (selections : List Selection) :
    ({ context with width }.executeFields bound wide object path selections).NoLater
      (context.executeFields bound narrow object path selections)

namespace Quicker

theorem value_succ (hwindow : context.window ≤ { context with width }.window)
    (below : context.Quicker width bound)
    (type : TypeRef) (value : Resolved ref) (collected : CollectedField) (path : Path) :
    ({ context with width }.completeValue (bound + 1) type value collected path).NoLater
      (context.completeValue (bound + 1) type value collected path) := by
  have hpos : 0 < context.window := Nat.le_max_left 1 context.width
  cases value with
  | leaf value =>
    simp only [completeValue]
    split
    · exact .done _
    · exact .done _
  | object reference =>
    simp only [completeValue]
    split
    · exact (below.fields hwindow hpos _ _ _).map _
    · exact .done _
  | list items =>
    simp only [completeValue]
    refine Job.NoLater.map _ (Window.noLater_run ?_ hwindow hpos)
    rw [List.forall₂_map_left_iff, List.forall₂_map_right_iff]
    exact List.forall₂_same.mpr fun entry _ => below.node _ entry.1 collected _

theorem node_succ (below : context.Quicker width bound) (type : TypeRef) (node : Node ref)
    (collected : CollectedField) (path : Path) :
    ({ context with width }.completeNode (bound + 1) type node collected path).NoLater
      (context.completeNode (bound + 1) type node collected path) := by
  cases node with
  | ready label value => exact below.value type value collected path
  | effect label delay outcome =>
    refine Job.NoLater.noting (.after delay ?_) fun start begun hle => .cons (.ran delay hle) .nil
    cases outcome with
    | ok value => exact below.value type value collected path
    | error cause => exact .done _
  | stream source =>
    exact Job.NoLater.noting (.done _) fun start begun hle => .cons (.released hle) .nil

theorem field_succ (below : context.Quicker width bound) (object : ObjectType ref)
    (collected : CollectedField) (path : Path) :
    ({ context with width }.executeField (bound + 1) object collected path).NoLater
      (context.executeField (bound + 1) object collected path) := by
  have hresolve : { context with width }.resolve bound object collected.field =
      context.resolve bound object collected.field := rfl
  simp only [executeField, hresolve]
  split
  · exact .done _
  · split
    · exact .unfinished _
    · exact .done _
    · exact (below.node _ _ collected path).noting fun start begun =>
        callRecord_noLater path collected.field _

theorem fields_succ (below : context.Quicker width bound) {narrow wide : Nat}
    (hle : narrow ≤ wide) (hpos : 0 < narrow) (object : ObjectType ref) (path : Path)
    (selections : List Selection) :
    ({ context with width }.executeFields (bound + 1) wide object path selections).NoLater
      (context.executeFields (bound + 1) narrow object path selections) := by
  refine Window.noLater_run ?_ hle hpos
  have hscope : { context with width }.scope (some object.name) =
      context.scope (some object.name) := rfl
  rw [hscope, List.forall₂_map_left_iff, List.forall₂_map_right_iff]
  exact List.forall₂_same.mpr fun entry _ => (below.field object entry.2 _).map _

end Quicker

/-- With wider windows nothing is later. -/
theorem quicker (hwindow : context.window ≤ { context with width }.window) (bound : Nat) :
    context.Quicker width bound := by
  induction bound with
  | zero =>
    exact ⟨fun _ _ _ _ => .unfinished _, fun _ _ _ _ => .unfinished _, fun _ _ _ => .unfinished _,
      fun _ _ _ _ _ => .unfinished _⟩
  | succ bound below =>
    exact ⟨Quicker.value_succ hwindow below, Quicker.node_succ below, Quicker.field_succ below,
      Quicker.fields_succ below⟩

end Context

end GraphQL

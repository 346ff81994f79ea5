import GraphQL.Proofs.Completion
import Mathlib.Data.List.Nodup

/-!
# Whereabouts

What an execution notes is confined: in time to what lies between its start and its end, and in the
response to the path that it works on and what lies under it.

Results:
* `Path.Under.join_inj`: nothing lies under two different steps from one path.
* `Path.nodup_key_segments`, `Path.nodup_index_segments`: fields and items stand at distinct steps.
* `Window.Runs.confined`: a window is confined if the work for each of its items is.
* `confinedRules`: every step of an execution is confined.
-/

namespace GraphQL

/-! ## Paths -/

namespace Path

/-- The second path is the first one or leads on from it. -/
def Under (path below : Path) : Prop := path.segments <+: below.segments

theorem join_ne_root (path : Path) (segment : Segment) : path.join segment ≠ .root := by
  intro h
  have hsegments : path.segments ++ [segment] = [] := congrArg Path.segments h
  exact List.append_ne_nil_of_right_ne_nil _ (List.cons_ne_nil _ _) hsegments

namespace Under

variable {path below : Path} {a b : Segment}

theorem refl (path : Path) : path.Under path := List.prefix_refl _

theorem trans {lowest : Path} (h : path.Under below) (h' : below.Under lowest) :
    path.Under lowest :=
  List.IsPrefix.trans h h'

theorem of_join (h : (path.join a).Under below) : path.Under below :=
  (List.prefix_append _ _).trans h

theorem ne_of_join (h : (path.join a).Under below) : below ≠ path := by
  rintro rfl
  have hlen := List.IsPrefix.length_le h
  rw [join, List.length_append, List.length_singleton] at hlen
  omega

/-- The step from a path to what lies under it is settled. -/
theorem join_inj (ha : (path.join a).Under below) (hb : (path.join b).Under below) : a = b := by
  obtain ⟨rest, hrest⟩ := ha
  obtain ⟨rest', hrest'⟩ := hb
  have heq := hrest.trans hrest'.symm
  rw [join, join, List.append_assoc, List.append_assoc] at heq
  have hcons := List.append_cancel_left heq
  exact (List.cons.inj hcons).1

/-- A step leads from a path to all that lies further down. -/
theorem exists_join {lower : Path} (h : path.Under lower) (hbelow : (lower.join a).Under below) :
    ∃ step, (path.join step).Under below := by
  obtain ⟨rest, hrest⟩ := h
  obtain ⟨lowest, hlowest⟩ := hbelow
  have hsplit : below.segments = path.segments ++ (rest ++ a :: lowest) := by
    rw [← hlowest, join, ← hrest]
    simp
  obtain ⟨step, others, hothers⟩ := List.exists_cons_of_ne_nil
    (List.append_ne_nil_of_right_ne_nil rest (List.cons_ne_nil a lowest))
  refine ⟨step, others, ?_⟩
  rw [hsplit, hothers, join, List.append_assoc, List.singleton_append]

end Under

theorem join_injective (path : Path) : Function.Injective path.join := fun a _ h =>
  (Under.refl (path.join a)).join_inj (h ▸ Under.refl _)

/-- Distinct keys are distinct steps. -/
theorem nodup_key_segments {α : Type} {entries : Entries α} (h : (Entries.keys entries).Nodup) :
    (entries.map fun entry => Segment.key entry.1).Nodup := by
  have hkeys := List.Nodup.map (fun _ _ h => Segment.key.inj h) h
  rwa [Entries.keys, List.map_map] at hkeys

/-- The items of a list stand at distinct steps. -/
theorem nodup_index_segments {α : Type} (items : List α) :
    (items.zipIdx.map fun entry => Segment.index entry.2).Nodup := by
  have hsnd : (items.zipIdx.map Prod.snd).Nodup := by
    rw [List.zipIdx_map_snd]
    exact List.nodup_range'
  have hindex := List.Nodup.map (fun _ _ h => Segment.index.inj h) hsnd
  rwa [List.map_map] at hindex

end Path

/-- An occurrence at a path or under it. -/
def Occurrence.Under (o : Occurrence) (path : Path) : Prop :=
  ∃ below, o.path? = some below ∧ path.Under below

theorem Occurrence.Under.of_join {o : Occurrence} {path : Path} {segment : Path.Segment}
    (h : o.Under (path.join segment)) : o.Under path := by
  obtain ⟨below, hbelow, hunder⟩ := h
  exact ⟨below, hbelow, Path.Under.of_join hunder⟩

theorem Occurrence.Under.key_eq {o : Occurrence} {path : Path} {a b : String}
    (ha : o.Under (path.join (.key a))) (hb : o.Under (path.join (.key b))) : a = b := by
  obtain ⟨p, hp, hpa⟩ := ha
  obtain ⟨q, hq, hqb⟩ := hb
  obtain rfl : p = q := Option.some.inj (hp.symm.trans hq)
  exact Path.Segment.key.inj (hpa.join_inj hqb)

/-! ## Confined work -/

/-- Work at a path that was started at `start`: all that it noted lies between its start and its
    end, and under the path. -/
structure Timed.Confined {α : Type} (path : Path) (start : Nat) (timed : Timed α) : Prop
    extends Timed.Within start timed where
  under : ∀ o ∈ timed.record, ∀ below, o.path? = some below → path.Under below

namespace Timed.Confined

variable {α β : Type} {path : Path} {start : Nat} {timed : Timed α}

theorem done (path : Path) (value : α) (start : Nat) : Confined path start ⟨value, start, []⟩ :=
  ⟨.done value start, by simp⟩

theorem map (f : α → β) (h : Confined path start timed) : Confined path start (timed.map f) :=
  ⟨h.toWithin.map f, h.under⟩

theorem of_join {segment : Path.Segment} (h : Confined (path.join segment) start timed) :
    Confined path start timed :=
  ⟨h.toWithin, fun o ho below hbelow => (h.under o ho below hbelow).of_join⟩

theorem wait {delay : Nat} (h : Confined path (start + delay) timed) : Confined path start timed :=
  ⟨h.toWithin.wait, h.under⟩

/-- Noting what happens at the path itself keeps the work confined. -/
theorem note {occurrences : List Occurrence}
    (ho : ∀ o ∈ occurrences, start ≤ o.start ∧ o.start ≤ o.finish ∧ o.finish ≤ timed.finish ∧
      ∀ below, o.path? = some below → below = path)
    (h : Confined path start timed) : Confined path start (timed.note occurrences) := by
  refine ⟨h.toWithin.note fun o hm => ?_, ?_⟩
  · obtain ⟨h1, h2, h3, -⟩ := ho o hm
    exact ⟨h1, h2, h3⟩
  · intro o hm below hbelow
    rcases List.mem_append.mp hm with hm | hm
    · rw [(ho o hm).2.2.2 below hbelow]
      exact .refl path
    · exact h.under o hm below hbelow

/-- Work that notes one thing, at the path itself. -/
theorem single {value : α} {finish : Nat} {o : Occurrence} (hstart : start ≤ o.start)
    (hle : o.start ≤ o.finish) (hfinish : o.finish ≤ finish)
    (hpath : ∀ below, o.path? = some below → below = path) :
    Confined path start ⟨value, finish, [o]⟩ := by
  refine ⟨⟨by dsimp only; omega, fun o' ho => ?_⟩, fun o' ho below hbelow => ?_⟩
  · rw [List.mem_singleton.mp ho]
    exact ⟨hstart, hle, hfinish⟩
  · rw [List.mem_singleton.mp ho] at hbelow
    rw [hpath below hbelow]
    exact .refl path

end Timed.Confined

/-- A window is confined if the work for each of its items is. -/
theorem Window.Runs.confined {ι α : Type} {work : ι → Nat → Timed α → Prop} {items : List ι}
    {width start : Nat} {timed : Timed (List α)} {path : Path}
    (h : Runs work start (Window.slots width items.length start) items timed)
    (hw : ∀ item ∈ items, ∀ start run, work item start run → run.Confined path start) :
    timed.Confined path start := by
  refine ⟨h.within fun item hm start run hrun => (hw item hm start run hrun).toWithin, ?_⟩
  intro o ho
  obtain ⟨item, hm, start, run, hrun, hmem⟩ := h.mem_record ho
  exact (hw item hm start run hrun).under o hmem

/-! ## Executions -/

variable {ref : Type}

/-- All kinds of work are confined to their path. -/
def confined (ref : Type) : Property ref where
  value _ _ _ path start timed := timed.Confined path start
  node _ _ _ path start timed := timed.Confined path start
  field _ _ path start timed := timed.Confined path start
  fields _ _ path _ start timed := timed.Confined path start

theorem callRecord_confined {path : Path} {field : Field} {called : ResolvedField ref}
    {time : Nat} {o : Occurrence} (ho : o ∈ Context.callRecord path field called time) :
    o.start = time ∧ o.finish = time ∧ ∀ below, o.path? = some below → below = path := by
  rcases List.mem_cons.mp ho with rfl | ho
  · refine ⟨rfl, rfl, ?_⟩
    rintro below ⟨⟩
    rfl
  · obtain ⟨label, -, rfl⟩ := List.mem_map.mp ho
    refine ⟨rfl, rfl, ?_⟩
    rintro below ⟨⟩

/-- Every step of an execution is confined. -/
theorem confinedRules (context : Context ref) : context.Rules (confined ref) where
  picked _ := .done _ _ _
  leaf _ := .done _ _ _
  object _ h := h.map _
  unselected _ := .done _ _ _
  list h := (h.confined fun _ _ _ _ hrun => hrun.of_join).map _
  ready h := h
  effect h := by
    refine h.wait.note fun o ho => ?_
    rw [List.mem_singleton.mp ho]
    exact ⟨Nat.le_refl _, Nat.le_add_right _ _, h.start_le,
      fun below hbelow => (Option.some.inj hbelow).symm⟩
  failed := .single (Nat.le_refl _) (Nat.le_add_right _ _) (Nat.le_refl _) fun _ h =>
    (Option.some.inj h).symm
  stream := .single (Nat.le_refl _) (Nat.le_refl _) (Nat.le_refl _) fun _ h =>
    (Option.some.inj h).symm
  typename _ := .done _ _ _
  unresolved _ _ := .done _ _ _
  resolved _ _ h := by
    refine h.note fun o ho => ?_
    obtain ⟨hstart, hfinish, hpath⟩ := callRecord_confined ho
    have hle := h.start_le
    exact ⟨by omega, by omega, by omega, hpath⟩
  fields h := by
    refine h.confined ?_
    rintro entry - start _ ⟨outcome, houtcome, rfl⟩
    exact houtcome.of_join.map _

end GraphQL

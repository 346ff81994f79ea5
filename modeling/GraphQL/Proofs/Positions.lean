import GraphQL.FieldError
import Mathlib.Data.List.Basic
import Mathlib.Data.List.Nodup

/-!
# Positions in values

A list of segments leads from a value to a value in it (`Value.at?`). Positions of which neither
lies inside the other come in depth-first order: where they part, the fields of an object in the
order of the object and the items of a list by index (`Value.Precedes`).

Results:
* `Precedes.not_prefix`: of two positions in depth-first order none is the beginning of the other.
* `Faults.object`, `Faults.list`: if the errors in each part of a value stand at nulls of that part
  in depth-first order, those of the whole do.
-/

namespace GraphQL

namespace Value

/-- The value one step below. -/
def child? : Value → Path.Segment → Option Value
  | .object fields, .key name => Entries.find? fields name
  | .list items, .index i => items[i]?
  | _, _ => none

/-- The value at a position. -/
def at? (value : Value) : List Path.Segment → Option Value
  | [] => some value
  | segment :: rest => (value.child? segment).bind fun below => below.at? rest

/-- Which of two steps comes first. -/
def Before : Value → Path.Segment → Path.Segment → Prop
  | .object fields, .key a, .key b =>
    (Entries.keys fields).idxOf a < (Entries.keys fields).idxOf b
  | .list _, .index i, .index j => i < j
  | _, _, _ => False

/-- Depth-first order of positions that do not lie in each other. -/
inductive Precedes : Value → List Path.Segment → List Path.Segment → Prop
  | here {value : Value} {a b : Path.Segment} {p q : List Path.Segment} :
      value.Before a b → Precedes value (a :: p) (b :: q)
  | deeper {value inner : Value} {a : Path.Segment} {p q : List Path.Segment} :
      value.child? a = some inner → Precedes inner p q → Precedes value (a :: p) (a :: q)

theorem Before.ne {value : Value} {a b : Path.Segment} (h : value.Before a b) : a ≠ b := by
  rintro rfl
  cases value <;> cases a <;> simp [Before] at h

theorem Precedes.not_prefix {value : Value} {p q : List Path.Segment} (h : value.Precedes p q) :
    ¬ p <+: q ∧ ¬ q <+: p := by
  induction h with
  | here hab => exact ⟨fun hp => hab.ne (List.cons_prefix_cons.mp hp).1,
      fun hp => hab.ne (List.cons_prefix_cons.mp hp).1.symm⟩
  | deeper _ _ ih => exact ⟨fun hp => ih.1 (List.cons_prefix_cons.mp hp).2,
      fun hp => ih.2 (List.cons_prefix_cons.mp hp).2⟩

/-- The places hold nulls and come in depth-first order. -/
structure Marks (value : Value) (places : List (List Path.Segment)) : Prop where
  null : ∀ place ∈ places, value.at? place = some .null
  ordered : places.Pairwise value.Precedes

end Value

/-- Without repetition, a list is in the order of its indices. -/
theorem pairwise_idxOf {α : Type} [BEq α] [LawfulBEq α] {items : List α} (h : items.Nodup) :
    items.Pairwise fun a b => items.idxOf a < items.idxOf b := by
  rw [List.pairwise_iff_getElem]
  intro i j hi hj hij
  rw [h.idxOf_getElem i hi, h.idxOf_getElem j hj]
  exact hij

/-! ## Errors and the values they belong to -/

/-- The errors in a value that stands at `path`: their paths lead to nulls in it, in depth-first
    order. -/
def Faults (path : Path) (value : Value) (errors : List Error) : Prop :=
  ∃ places, errors.map Error.path = places.map (fun place => some ⟨path.segments ++ place⟩) ∧
    value.Marks places

namespace Faults

variable {path : Path} {value : Value}

theorem none (path : Path) (value : Value) : Faults path value [] :=
  ⟨[], rfl, by simp, .nil⟩

/-- A field that failed is null and has one error, with its own path. -/
theorem failure (error : FieldError) (location : Location) (path : Path) :
    Faults path .null [error.report path location] :=
  ⟨[[]], by simp [FieldError.report, Error.withCode], by simp [Value.at?], by simp⟩

/-- Errors of parts that stand one behind the other below a value. -/
theorem exists_places {parts : List (Path.Segment × Value × List Error)}
    (hparts : ∀ part ∈ parts, value.child? part.1 = some part.2.1 ∧
      Faults (path.join part.1) part.2.1 part.2.2)
    (hbefore : parts.Pairwise fun a b => value.Before a.1 b.1) :
    ∃ places, (parts.flatMap fun part => part.2.2).map Error.path =
        places.map (fun place => some ⟨path.segments ++ place⟩) ∧
      value.Marks places ∧ ∀ place ∈ places, ∃ part ∈ parts, ∃ rest, place = part.1 :: rest := by
  induction parts with
  | nil => exact ⟨[], rfl, ⟨by simp, .nil⟩, by simp⟩
  | cons part parts ih =>
    obtain ⟨hchild, first, hfirst, hnull, hordered⟩ := hparts part (by simp)
    obtain ⟨hhead, htail⟩ := List.pairwise_cons.mp hbefore
    obtain ⟨others, hothers, hmarks, hunder⟩ :=
      ih (fun part hm => hparts part (by simp [hm])) htail
    refine ⟨first.map (part.1 :: ·) ++ others, ?_, ⟨?_, ?_⟩, ?_⟩
    · rw [List.flatMap_cons, List.map_append, hothers, hfirst]
      simp [Path.join]
    · intro place hm
      rcases List.mem_append.mp hm with hm | hm
      · obtain ⟨place, hplace, rfl⟩ := List.mem_map.mp hm
        simp only [Value.at?, hchild, Option.bind_some, hnull place hplace]
      · exact hmarks.null place hm
    · refine List.pairwise_append.mpr ⟨?_, hmarks.ordered, ?_⟩
      · exact List.pairwise_map.mpr (hordered.imp fun h => .deeper hchild h)
      · intro p hp q hq
        obtain ⟨p, -, rfl⟩ := List.mem_map.mp hp
        obtain ⟨other, hm, q, rfl⟩ := hunder q hq
        exact .here (hhead other hm)
    · intro place hm
      rcases List.mem_append.mp hm with hm | hm
      · obtain ⟨place, -, rfl⟩ := List.mem_map.mp hm
        exact ⟨part, by simp, place, rfl⟩
      · obtain ⟨other, hother, rest, rfl⟩ := hunder place hm
        exact ⟨other, by simp [hother], rest, rfl⟩

theorem children {parts : List (Path.Segment × Value × List Error)}
    (hparts : ∀ part ∈ parts, value.child? part.1 = some part.2.1 ∧
      Faults (path.join part.1) part.2.1 part.2.2)
    (hbefore : parts.Pairwise fun a b => value.Before a.1 b.1) :
    Faults path value (parts.flatMap fun part => part.2.2) := by
  obtain ⟨places, hpaths, hmarks, -⟩ := exists_places hparts hbefore
  exact ⟨places, hpaths, hmarks⟩

/-- The errors in the fields of an object with distinct keys. -/
theorem object {α : Type} {entries : Entries α} (content : α → Value) (errors : α → List Error)
    (hnodup : (Entries.keys entries).Nodup)
    (h : ∀ entry ∈ entries, Faults (path.join (.key entry.1)) (content entry.2) (errors entry.2)) :
    Faults path (.object (Entries.mapValues content entries))
      (entries.flatMap fun entry => errors entry.2) := by
  have hkeys : Entries.keys (Entries.mapValues content entries) = Entries.keys entries := by
    simp [Entries.keys, Entries.mapValues]
  have hall : Faults path (.object (Entries.mapValues content entries))
      ((entries.map fun entry =>
        (Path.Segment.key entry.1, content entry.2, errors entry.2)).flatMap
          fun part => part.2.2) := by
    refine children ?_ ?_
    · intro part hm
      obtain ⟨entry, hentry, rfl⟩ := List.mem_map.mp hm
      refine ⟨?_, h entry hentry⟩
      rw [Value.child?, Entries.find?_mapValues, Entries.find?_of_mem hnodup hentry,
        Option.map_some]
    · have hidx := pairwise_idxOf hnodup
      rw [Entries.keys, List.pairwise_map] at hidx
      rw [List.pairwise_map]
      refine hidx.imp fun {a b} hab => ?_
      show List.idxOf a.1 _ < List.idxOf b.1 _
      rw [hkeys]
      exact hab
  rwa [List.flatMap_map] at hall

/-- The errors in the items of a list. -/
theorem list {α : Type} {items : List α} (content : α → Value) (errors : α → List Error)
    (h : ∀ i a, items[i]? = some a → Faults (path.join (.index i)) (content a) (errors a)) :
    Faults path (.list (items.map content)) (items.flatMap errors) := by
  have hall : Faults path (.list (items.map content))
      ((items.zipIdx.map fun entry =>
        (Path.Segment.index entry.2, content entry.1, errors entry.1)).flatMap
          fun part => part.2.2) := by
    refine children ?_ ?_
    · intro part hm
      obtain ⟨entry, hentry, rfl⟩ := List.mem_map.mp hm
      have hget := List.mem_zipIdx_iff_getElem?.mp hentry
      refine ⟨?_, h _ _ hget⟩
      rw [Value.child?, List.getElem?_map, hget, Option.map_some]
    · rw [List.pairwise_map, List.pairwise_iff_getElem]
      intro i j hi hj hij
      simp [Value.Before, hij]
  have hfst : items.flatMap errors = items.zipIdx.flatMap fun entry => errors entry.1 := by
    conv_lhs => rw [← List.zipIdx_map_fst 0 items, List.flatMap_map]
  rw [hfst]
  rwa [List.flatMap_map] at hall

end Faults

end GraphQL

import GraphQL.Proofs.Grouping
import GraphQL.Proofs.Service

/-!
# Merged schemas

Merging goes through five tables and three root objects, and not in the same way everywhere: root
objects and most tables take what the left schema lacks, an abstract type takes the object types of
both, and a root that only one schema has is taken over as it is. `Schema.Combines` says what has to
come of it, look-up by look-up: the answer of the first schema that has one, and for abstract types
the answers of all.

Implementers are joined under each name, so that joining reads every entry of the right table; a
name that stood there twice would be read twice. Tables are built so that none does
(`Types.DistinctImplementers`).

Results:
* `Entries.union_assoc`, `Types.addWords_assoc`: taking what is lacking is associative.
* `Schema.merge_assoc`: so is merging schemas, down to the order of fields.
* `Schema.Combines.merge`: what the merged schema answers, from what its parts answer.
* `merges_regroup`: both for three schemas, whatever is asked of them.
-/

namespace GraphQL

/-! ## Taking what is lacking -/

namespace Entries

variable {α : Type}

theorem has_union (left right : Entries α) (key : String) :
    has (union left right) key = (has left key || has right key) := by
  rw [has, find?_union, Option.isSome_or]
  rfl

theorem union_add (left right : Entries α) (key : String) (a : α) :
    union left (add right key a) = add (union left right) key a := by
  by_cases h : has right key = true
  · rw [add, if_pos h, add, if_pos (by rw [has_union, h, Bool.or_true])]
  · rw [add, if_neg h]
    exact List.foldl_append ..

theorem union_assoc (first second third : Entries α) :
    union (union first second) third = union first (union second third) := by
  induction third generalizing second with
  | nil => rfl
  | cons head rest ih =>
    obtain ⟨key, a⟩ := head
    calc union (union first second) ((key, a) :: rest)
        = union (add (union first second) key a) rest := rfl
      _ = union (union first (add second key a)) rest := by rw [union_add]
      _ = union first (union (add second key a) rest) := ih _

/-- Entries with the same distinct names are the same if they are so under each name. -/
theorem ext_find? {xs ys : Entries α} (hnodup : (keys xs).Nodup) (hkeys : keys ys = keys xs)
    (h : ∀ key, find? ys key = find? xs key) : ys = xs := by
  have hrelated : List.Forall₂ (fun x y => y.1 = x.1 ∧ x.2 = y.2) xs ys :=
    forall₂_of_find? hnodup hkeys fun key a b ha hb =>
      Option.some.inj (ha.symm.trans ((h key).symm.trans hb))
  have hsame : List.Forall₂ (· = ·) xs ys :=
    hrelated.imp fun x y hxy => Prod.ext hxy.1.symm hxy.2
  rw [List.forall₂_eq_eq_eq] at hsame
  exact hsame.symm

end Entries

namespace Types

theorem mem_addWords {word : String} {words more : List String} :
    word ∈ addWords words more ↔ word ∈ words ∨ word ∈ more := by
  induction more generalizing words with
  | nil => simp [addWords]
  | cons first rest ih =>
    rw [addWords, List.foldl_cons, ← addWords, ih, List.mem_cons, ← or_assoc]
    refine or_congr_left ?_
    by_cases h : first ∈ words
    · simp only [List.contains_eq_mem, h, decide_true, ite_true]
      exact ⟨.inl, fun hm => hm.elim id fun he => he ▸ h⟩
    · simp [h]

theorem contains_addWords (words more : List String) (word : String) :
    (addWords words more).contains word = (words.contains word || more.contains word) := by
  simp only [List.contains_eq_mem, mem_addWords, Bool.decide_or]

theorem addWords_singleton (first second : List String) (word : String) :
    addWords (addWords first second) [word] = addWords first (addWords second [word]) := by
  by_cases h : word ∈ second
  · have hboth : word ∈ addWords first second := mem_addWords.mpr (.inr h)
    have hkept : ∀ words, word ∈ words → addWords words [word] = words := fun words hm => by
      simp [addWords, hm]
    rw [hkept _ hboth, hkept _ h]
  · have hnew : addWords second [word] = second ++ [word] := by simp [addWords, h]
    rw [hnew]
    exact List.foldl_append.symm

theorem addWords_assoc (first second third : List String) :
    addWords (addWords first second) third = addWords first (addWords second third) := by
  induction third generalizing second with
  | nil => rfl
  | cons word rest ih =>
    calc addWords (addWords first second) (word :: rest)
        = addWords (addWords (addWords first second) [word]) rest := rfl
      _ = addWords (addWords first (addWords second [word])) rest := by rw [addWords_singleton]
      _ = addWords first (addWords (addWords second [word]) rest) := ih _

/-! ## Abstract types -/

/-- Every interface and union is listed once, with all of its object types. -/
def DistinctImplementers (types : Types) : Prop := (Entries.keys types.implementers).Nodup

instance (types : Types) : Decidable types.DistinctImplementers :=
  inferInstanceAs (Decidable (List.Nodup _))

theorem DistinctImplementers.addImplementers {types : Types} (h : types.DistinctImplementers)
    (name : String) (objects : List String) :
    (types.addImplementers name objects).DistinctImplementers :=
  Entries.nodup_keys_put h _ _

/-- Joins one more abstract type with those that are known. -/
def joinEntry (known : Entries (List String)) (entry : String × List String) :
    Entries (List String) :=
  Entries.put known entry.1 (addWords ((Entries.find? known entry.1).getD []) entry.2)

/-- The object types of an abstract type that is known to one or both of two schemas. -/
def joinObjects (known : Option (List String)) : Option (List String) → Option (List String)
  | none => known
  | some objects => some (addWords (known.getD []) objects)

theorem implementers_merge (left right : Types) :
    (left.merge right).implementers = right.implementers.foldl joinEntry left.implementers := rfl

theorem joinObjects_assoc (first second third : Option (List String)) :
    joinObjects (joinObjects first second) third = joinObjects first (joinObjects second third) := by
  cases third with
  | none => rfl
  | some words =>
    cases second with
    | none => exact congrArg some (addWords_assoc (first.getD []) [] words)
    | some others => exact congrArg some (addWords_assoc (first.getD []) others words)

theorem keys_joinEntry (known : Entries (List String)) (entry : String × List String) :
    Entries.keys (joinEntry known entry) = addWords (Entries.keys known) [entry.1] := by
  rw [joinEntry, Entries.keys_put]
  simp [addWords]

theorem keys_foldl_joinEntry (left right : Entries (List String)) :
    Entries.keys (right.foldl joinEntry left) =
      addWords (Entries.keys left) (Entries.keys right) := by
  induction right generalizing left with
  | nil => rfl
  | cons entry rest ih =>
    rw [List.foldl_cons, ih, keys_joinEntry]
    rfl

theorem find?_foldl_joinEntry {right : Entries (List String)} (h : (Entries.keys right).Nodup)
    (left : Entries (List String)) (key : String) :
    Entries.find? (right.foldl joinEntry left) key =
      joinObjects (Entries.find? left key) (Entries.find? right key) := by
  induction right generalizing left with
  | nil => rfl
  | cons entry rest ih =>
    obtain ⟨name, objects⟩ := entry
    obtain ⟨hnew, hrest⟩ := List.nodup_cons.mp h
    rw [List.foldl_cons, ih hrest, joinEntry, Entries.find?_put, Entries.find?_cons]
    by_cases hkey : key = name
    · subst hkey
      rw [if_pos rfl, if_pos rfl, (Entries.find?_eq_none_iff rest key).mpr hnew]
      rfl
    · rw [if_neg hkey, if_neg hkey]

/-- Merging keeps every abstract type listed once. -/
theorem DistinctImplementers.merge {left : Types} (h : left.DistinctImplementers) (right : Types) :
    (left.merge right).DistinctImplementers := by
  rw [DistinctImplementers, implementers_merge]
  exact List.foldlRecOn (motive := fun known => (Entries.keys known).Nodup)
    right.implementers joinEntry h fun _ hknown _ _ => Entries.nodup_keys_put hknown _ _

theorem isSubtype_merge {right : Types} (h : right.DistinctImplementers) (left : Types)
    (abstract object : String) :
    (left.merge right).isSubtype abstract object =
      (left.isSubtype abstract object || right.isSubtype abstract object) := by
  simp only [isSubtype, implementers_merge, find?_foldl_joinEntry h]
  cases Entries.find? right.implementers abstract with
  | none => simp only [joinObjects, Option.getD_none, List.contains_nil, Bool.or_false]
  | some objects => simp only [joinObjects, Option.getD_some, contains_addWords]

/-- Merging the types of schemas is associative. -/
theorem merge_assoc {first second third : Types} (hfirst : first.DistinctImplementers)
    (hsecond : second.DistinctImplementers) (hthird : third.DistinctImplementers) :
    (first.merge second).merge third = first.merge (second.merge third) := by
  -- The other tables are unions. This one is joined entry by entry, so it is compared by its names
  -- and by what is found under each of them.
  have himplementers : ((first.merge second).merge third).implementers =
      (first.merge (second.merge third)).implementers := by
    refine Entries.ext_find? (hfirst.merge _) ?_ fun key => ?_
    · simp only [implementers_merge, keys_foldl_joinEntry, addWords_assoc]
    · have hboth : (Entries.keys (third.implementers.foldl joinEntry second.implementers)).Nodup :=
        hsecond.merge third
      simp only [implementers_merge, find?_foldl_joinEntry hsecond, find?_foldl_joinEntry hthird,
        find?_foldl_joinEntry hboth, joinObjects_assoc]
  calc (first.merge second).merge third
      = ⟨_, _, ((first.merge second).merge third).implementers, _⟩ := rfl
    _ = first.merge (second.merge third) := by
      rw [himplementers]
      simp only [merge, Entries.union_assoc]

end Types

/-! ## Root objects -/

variable {ref : Type}

theorem ObjectType.field?_merge (left right : ObjectType ref) (name : String) :
    (left.merge right).field? name = (left.field? name).or (right.field? name) :=
  Entries.find?_union ..

theorem ObjectType.merge_assoc (first second third : ObjectType ref) :
    (first.merge second).merge third = first.merge (second.merge third) := by
  simp only [merge, Entries.union_assoc]

namespace Schema

theorem root_merge (left right : Schema ref) (kind : OperationKind) :
    (left.merge right).root kind = mergeRoots (left.root kind) (right.root kind) := by
  cases kind <;> rfl

theorem mergeRoots_assoc (first second third : Option (ObjectType ref)) :
    mergeRoots (mergeRoots first second) third = mergeRoots first (mergeRoots second third) := by
  cases first with
  | none => cases second <;> rfl
  | some first =>
    cases second with
    | none => rfl
    | some second =>
      cases third with
      | none => rfl
      | some third => exact congrArg some (ObjectType.merge_assoc first second third)

theorem name_mergeRoots (left right : Option (ObjectType ref)) :
    (mergeRoots left right).map ObjectType.name =
      (left.map ObjectType.name).or (right.map ObjectType.name) := by
  cases left <;> cases right <;> rfl

theorem field?_mergeRoots (left right : Option (ObjectType ref)) (name : String) :
    (mergeRoots left right).bind (·.field? name) =
      (left.bind (·.field? name)).or (right.bind (·.field? name)) := by
  cases left with
  | none => rfl
  | some left =>
    cases right with
    | none => exact Option.or_none.symm
    | some right => exact ObjectType.field?_merge left right name

/-- Merging schemas is associative. -/
theorem merge_assoc {first second third : Schema ref}
    (hfirst : first.types.DistinctImplementers) (hsecond : second.types.DistinctImplementers)
    (hthird : third.types.DistinctImplementers) :
    (first.merge second).merge third = first.merge (second.merge third) := by
  simp only [merge, ObjectType.merge_assoc, mergeRoots_assoc,
    Types.merge_assoc hfirst hsecond hthird]

/-! ## What a merged schema answers -/

/-- A schema answers for several others: what it is asked, the first one that knows it has answered,
    and an abstract type has the object types that any of them gives it. -/
structure Combines (merged : Schema ref) (parts : List (Schema ref)) : Prop where
  /-- There is a root object if one of the parts has it, and it has the first one's name. -/
  name (kind : OperationKind) : (merged.root kind).map ObjectType.name =
    parts.findSome? fun part => (part.root kind).map ObjectType.name
  /-- The fields of the root objects, with their resolvers. -/
  field (kind : OperationKind) (name : String) : (merged.root kind).bind (·.field? name) =
    parts.findSome? fun part => (part.root kind).bind (·.field? name)
  enum (name : String) : Entries.find? merged.types.enums name =
    parts.findSome? fun part => Entries.find? part.types.enums name
  input (name : String) : Entries.find? merged.types.inputs name =
    parts.findSome? fun part => Entries.find? part.types.inputs name
  scalar (name : String) : Entries.find? merged.types.scalars name =
    parts.findSome? fun part => Entries.find? part.types.scalars name
  subtype (abstract object : String) : merged.types.isSubtype abstract object =
    parts.any fun part => part.types.isSubtype abstract object

namespace Combines

theorem single (schema : Schema ref) : schema.Combines [schema] where
  name _ := (List.findSome?_singleton ..).symm
  field _ _ := (List.findSome?_singleton ..).symm
  enum _ := (List.findSome?_singleton ..).symm
  input _ := (List.findSome?_singleton ..).symm
  scalar _ := (List.findSome?_singleton ..).symm
  subtype _ _ := (Bool.or_false _).symm

/-- A merged schema answers for all that its two parts answer for, the left ones first. -/
theorem merge {left right : Schema ref} {lefts rights : List (Schema ref)}
    (hleft : left.Combines lefts) (hright : right.Combines rights)
    (hdistinct : right.types.DistinctImplementers) :
    (left.merge right).Combines (lefts ++ rights) where
  name kind := by
    rw [root_merge, name_mergeRoots, hleft.name, hright.name, List.findSome?_append]
  field kind name := by
    rw [root_merge, field?_mergeRoots, hleft.field, hright.field, List.findSome?_append]
  enum name := by
    rw [List.findSome?_append, ← hleft.enum, ← hright.enum]
    exact Entries.find?_union ..
  input name := by
    rw [List.findSome?_append, ← hleft.input, ← hright.input]
    exact Entries.find?_union ..
  scalar name := by
    rw [List.findSome?_append, ← hleft.scalar, ← hright.scalar]
    exact Entries.find?_union ..
  subtype abstract object := by
    rw [List.any_append, ← hleft.subtype, ← hright.subtype]
    exact Types.isSubtype_merge hdistinct ..

end Combines

end Schema

/-- Three schemas can be merged in either grouping. The same schema comes of it: its root objects
    have the same names and the same fields in the same order, every look-up is answered by the
    first schema that knows the name, an abstract type has the object types of all three, and every
    request is answered alike. -/
theorem merges_regroup {first second third : Schema ref}
    (hfirst : first.types.DistinctImplementers) (hsecond : second.types.DistinctImplementers)
    (hthird : third.types.DistinctImplementers) :
    (first.merge second).merge third = first.merge (second.merge third) ∧
    ((first.merge second).merge third).Combines [first, second, third] ∧
    ∀ (configuration : Configuration) (objects : ref → ObjectType ref) (bound : Nat)
      (request : Request),
      (Service.mk ((first.merge second).merge third) configuration).execute objects bound request =
        (Service.mk (first.merge (second.merge third)) configuration).execute objects bound
          request := by
  have hassoc := Schema.merge_assoc hfirst hsecond hthird
  have hpair : (first.merge second).Combines [first, second] :=
    (Schema.Combines.single first).merge (.single second) hsecond
  refine ⟨hassoc, hpair.merge (.single third) hthird, fun configuration objects bound request => ?_⟩
  rw [hassoc]

namespace Sample

/-- A field that tells a name. -/
def told (name : String) : FieldDefinition Unit := field .string (.ready none (.leaf (.string name)))

/-- Serves ships. -/
def ships : Schema Unit where
  query := { name := "Query", fields := [("ship", told "Rocinante")] }
  types := (Types.addEnum {} "Size" ["LARGE"]).addImplementers "Vessel" ["Ship"]

/-- Serves boats and ships of its own, and lets boats be named. -/
def boats : Schema Unit where
  query := { name := "Boats", fields := [("boat", told "Razorback"), ("ship", told "Donnager")] }
  mutation := some { name := "BoatChanges", fields := [("name", told "Razorback")] }
  types := (Types.addEnum {} "Size" ["SMALL"]).addImplementers "Vessel" ["Boat", "Ship"]

/-- Serves crews, lets crews be named, and knows one more vessel. -/
def crews : Schema Unit where
  query := { name := "Crews", fields := [("crew", told "Belters"), ("boat", told "Skiff")] }
  mutation := some { name := "CrewChanges", fields := [("name", told "Belters")] }
  types := (Types.addEnum {} "Rank" ["CAPTAIN"]).addImplementers "Vessel" ["Raft"]

end Sample

open Sample in
/-- Three schemas with overlaps of all kinds. -/
theorem merges_regroup_fleet :
    let merged := (ships.merge boats).merge crews
    merged = ships.merge (boats.merge crews) ∧
    (Entries.keys merged.query.fields = ["ship", "boat", "crew"] ∧
      merged.query.field? "ship" = some (told "Rocinante") ∧
      merged.query.field? "boat" = some (told "Razorback")) ∧
    ((merged.root .mutation).map ObjectType.name = some "BoatChanges" ∧
      Entries.find? merged.types.enums "Size" = some ["LARGE"] ∧
      Entries.find? merged.types.enums "Rank" = some ["CAPTAIN"]) ∧
    ∀ vessel ∈ ["Ship", "Boat", "Raft"], merged.types.isSubtype "Vessel" vessel = true := by
  obtain ⟨hassoc, hcombines, -⟩ :=
    @merges_regroup Unit ships boats crews (by decide) (by decide) (by decide)
  refine ⟨hassoc, ⟨by decide, rfl, rfl⟩, ⟨?_, ?_, ?_⟩, fun vessel hvessel => ?_⟩
  · rw [hcombines.name]
    rfl
  · rw [hcombines.enum]
    rfl
  · rw [hcombines.enum]
    rfl
  · rw [hcombines.subtype]
    revert vessel
    decide

end GraphQL

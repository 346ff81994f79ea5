import GraphQL.Proofs.Merging
import GraphQL.Proofs.Reading
import GraphQL.Proofs.Replies

/-!
# The order of merging

Schemas that declare different things can be merged in either order: the fields of the roots and
the entries of the tables stand in another order then, which no execution can see.

The schema that declares nothing has a query root all the same, for there always is one. It has no
fields, but it has a name (`Schema.withDefaultName`), and of two names the left one stays. So this
schema changes nothing on the right, while on the left it gives its name to the query root. Roots of
the other kinds are only there if they are declared, and a schema without them changes nothing about
those of another, on either side.

Results:
* `Schema.Apart.alike`, `merges_commute`: merging schemas that declare different things commutes.
* `Schema.merge_empty`, `Schema.empty_merge_alike`, `empty_merges`: what is merged with the schema
  that declares nothing, on the right, on the left and in general.
* `undeclared_root_names`: on the left it is not neutral.
-/

namespace GraphQL

variable {ref : Type}

namespace Schema

/-- Whatever is asked of services with these schemas, the same is seen: the same request error, the
    same response or the same responses of a stream, with all that is noted on the way. -/
def Indistinguishable (one other : Schema ref) : Prop :=
  ∀ (configuration : Configuration) (objects : ref → ObjectType ref) (request : Request)
    (bound count : Nat),
    ((Service.mk other configuration).execute objects bound request).watch bound count =
      ((Service.mk one configuration).execute objects bound request).watch bound count

theorem Alike.indistinguishable {one other : Schema ref} (h : one.Alike other) :
    one.Indistinguishable other := by
  intro configuration objects request bound count
  have halike : (Service.mk one configuration).Alike (Service.mk other configuration) := ⟨h, rfl⟩
  exact halike.watch_execute request bound count

end Schema

/-! ## Schemas that declare different things -/

/-- Tables without a common name answer alike in either order. -/
theorem Entries.find?_union_comm {α : Type} {left right : Entries α}
    (h : (keys left).Disjoint (keys right)) (key : String) :
    find? (union right left) key = find? (union left right) key := by
  rw [find?_union, find?_union]
  by_cases hm : key ∈ keys left
  · have hright : find? right key = none := (find?_eq_none_iff right key).mpr fun hr => h hm hr
    rw [hright, Option.none_or, Option.or_none]
  · have hleft : find? left key = none := (find?_eq_none_iff left key).mpr hm
    rw [hleft, Option.none_or, Option.or_none]

namespace Schema

/-- Roots of one kind have the same name and different fields, and no enum, input object or scalar
    is declared on both sides. Abstract types may be. -/
structure Apart (left right : Schema ref) : Prop where
  name {kind : OperationKind} {one other : ObjectType ref} :
    left.root kind = some one → right.root kind = some other → other.name = one.name
  fields {kind : OperationKind} {one other : ObjectType ref} :
    left.root kind = some one → right.root kind = some other →
      (Entries.keys one.fields).Disjoint (Entries.keys other.fields)
  enums : (Entries.keys left.types.enums).Disjoint (Entries.keys right.types.enums)
  inputs : (Entries.keys left.types.inputs).Disjoint (Entries.keys right.types.inputs)
  scalars : (Entries.keys left.types.scalars).Disjoint (Entries.keys right.types.scalars)

namespace Apart

variable {left right : Schema ref}

theorem types_alike (h : left.Apart right) (hleft : left.types.DistinctImplementers)
    (hright : right.types.DistinctImplementers) :
    (left.types.merge right.types).Alike (right.types.merge left.types) where
  enum := Entries.find?_union_comm h.enums
  input := Entries.find?_union_comm h.inputs
  scalar := Entries.find?_union_comm h.scalars
  subtype abstract object := by
    rw [Types.isSubtype_merge hleft, Types.isSubtype_merge hright, Bool.or_comm]

theorem roots_alike (h : left.Apart right) (kind : OperationKind) :
    Option.Rel ObjectType.Alike ((left.merge right).root kind) ((right.merge left).root kind) := by
  rw [root_merge, root_merge]
  cases hleft : left.root kind with
  | none =>
    cases right.root kind with
    | none => exact .none
    | some root => exact .some (.refl root)
  | some one =>
    cases hright : right.root kind with
    | none => exact .some (.refl one)
    | some other =>
      have hname : other.name = one.name := h.name hleft hright
      have halike : (one.merge other).Alike (other.merge one) :=
        ⟨hname, Entries.find?_union_comm (h.fields hleft hright)⟩
      exact .some halike

/-- Merged in either order, the schemas answer alike. -/
theorem alike (h : left.Apart right) (hleft : left.types.DistinctImplementers)
    (hright : right.types.DistinctImplementers) :
    (left.merge right).Alike (right.merge left) :=
  ⟨h.roots_alike, h.types_alike hleft hright⟩

end Apart

end Schema

/-- Schemas that declare different things can be merged in either order. Every request has the same
    outcome, whatever the configuration. -/
theorem merges_commute {left right : Schema ref} (h : left.Apart right)
    (hleft : left.types.DistinctImplementers) (hright : right.types.DistinctImplementers) :
    (left.merge right).Indistinguishable (right.merge left) :=
  (h.alike hleft hright).indistinguishable

namespace Sample

/-- Serves crews under the same name as ships, and knows a vessel that ships know too. -/
def crewShips : Schema Unit where
  query := { name := "Query", fields := [("crew", told "Belters")] }
  mutation := some { name := "CrewChanges", fields := [("name", told "Belters")] }
  types := (Types.addEnum {} "Rank" ["CAPTAIN"]).addImplementers "Vessel" ["Raft", "Ship"]

end Sample

open Sample in
/-- Ships and crews are apart, although both know vessels, and they are told alike in either
    order. -/
theorem merges_commute_crews :
    ships.Apart crewShips ∧ ¬ crewShips.merge ships = ships.merge crewShips ∧
    (ships.merge crewShips).Indistinguishable (crewShips.merge ships) := by
  have hapart : ships.Apart crewShips := by
    refine ⟨fun {kind} _ _ hleft hright => ?_, fun {kind} _ _ hleft hright => ?_,
      List.disjoint_left.mpr (by decide), List.disjoint_left.mpr (by decide),
      List.disjoint_left.mpr (by decide)⟩
    · cases kind with
      | query =>
        cases hleft
        cases hright
        rfl
      | mutation => cases hleft
      | subscription => cases hleft
    · cases kind with
      | query =>
        cases hleft
        cases hright
        exact List.disjoint_left.mpr (by decide)
      | mutation => cases hleft
      | subscription => cases hleft
  refine ⟨hapart, fun hsame => ?_, merges_commute hapart (by decide) (by decide)⟩
  have horder := congrArg (fun schema => Entries.keys schema.query.fields) hsame
  exact absurd horder (by decide)

/-! ## A schema that declares nothing -/

namespace Schema

/-- The schema with its query root named as one that is not declared. -/
def withDefaultName (schema : Schema ref) : Schema ref :=
  { schema with query := { schema.query with name := OperationKind.query.text } }

theorem mergeRoots_none (root : Option (ObjectType ref)) : mergeRoots root none = root := by
  cases root <;> rfl

/-- On the right it changes nothing. -/
theorem merge_empty (schema : Schema ref) : schema.merge empty = schema := by
  have hmutation : mergeRoots schema.mutation none = schema.mutation := mergeRoots_none _
  have hsubscription : mergeRoots schema.subscription none = schema.subscription :=
    mergeRoots_none _
  calc schema.merge empty
      = ⟨schema.query, mergeRoots schema.mutation none, mergeRoots schema.subscription none,
          schema.types⟩ := rfl
    _ = schema := by rw [hmutation, hsubscription]

/-- A query root that is not declared takes the fields of another one, but not its name. -/
theorem query_merge_alike (schema : Schema ref) {left : Schema ref}
    (h : left.query = (empty : Schema ref).query) :
    schema.withDefaultName.query.Alike (left.merge schema).query := by
  have hquery : (left.merge schema).query = (empty : Schema ref).query.merge schema.query :=
    congrArg (·.merge schema.query) h
  rw [hquery]
  exact ⟨rfl, Entries.find?_ofListFirst schema.query.fields⟩

/-- On the left it only changes the name of the query root. -/
theorem empty_merge_alike {schema : Schema ref} (h : schema.types.DistinctImplementers) :
    schema.withDefaultName.Alike (empty.merge schema) where
  root kind := by
    cases kind with
    | query => exact .some (query_merge_alike schema rfl)
    | mutation => exact (Alike.refl schema).root .mutation
    | subscription => exact (Alike.refl schema).root .subscription
  types := by
    have hsubtype (abstract object : String) :
        ((empty : Schema ref).types.merge schema.types).isSubtype abstract object =
          schema.types.isSubtype abstract object := by
      rw [Types.isSubtype_merge h]
      exact Bool.false_or _
    exact ⟨Entries.find?_ofListFirst _, Entries.find?_ofListFirst _, Entries.find?_ofListFirst _,
      hsubtype⟩

end Schema

/-- Merging with the schema that declares nothing changes nothing if that is the right one. If it is
    the left one, the query root is named as if it were not declared: every request has the outcome
    that it has on the schema with this name, which is its own outcome if that is its name already.
    More generally a mutation or subscription root that the left schema lacks is as the right one
    declares it, and a query root that the left schema does not declare has all the fields of the
    right one. -/
theorem empty_merges {schema : Schema ref} (h : schema.types.DistinctImplementers) :
    schema.merge .empty = schema ∧
    schema.withDefaultName.Indistinguishable (Schema.empty.merge schema) ∧
    (schema.query.name = OperationKind.query.text →
      schema.Indistinguishable (Schema.empty.merge schema)) ∧
    (∀ (left : Schema ref) (kind : OperationKind), left.root kind = none →
      (left.merge schema).root kind = schema.root kind) ∧
    ∀ left : Schema ref, left.query = (Schema.empty : Schema ref).query →
      schema.withDefaultName.query.Alike (left.merge schema).query := by
  have hleft : schema.withDefaultName.Indistinguishable (Schema.empty.merge schema) :=
    (Schema.empty_merge_alike h).indistinguishable
  refine ⟨schema.merge_empty, hleft, fun hname => ?_, fun left kind hnone => ?_,
    fun left => Schema.query_merge_alike schema⟩
  · have hsame : schema.withDefaultName = schema := by
      rw [Schema.withDefaultName, ← hname]
    rw [hsame] at hleft
    exact hleft
  · rw [Schema.root_merge, hnone]
    rfl

namespace Sample

/-- Asks the root for its type, and for a crew if it is the root of crews. -/
def crewRequest : Request where
  query := "{ __typename ... on Crews { crew } }"

/-- What is read of that. -/
def crewDocument : ExecutableDocument where
  fragments := []
  operations := [⟨none, .query, [], [
    .field ⟨none, typenameField, [], [], false, {}, ⟨1, 3⟩⟩,
    .inlineFragment (some "Crews") {} [.field ⟨none, "crew", [], [], false, {}, ⟨1, 29⟩⟩]]⟩]

/-- A service with the default configuration. -/
def serving (schema : Schema Unit) : Service Unit := ⟨schema, {}⟩

theorem scan_crew :
    Token.scan ({} : Configuration).parser.pieces crewRequest.query =
      some (line [(.braceL, 1), (.name "__typename", 3), (.spread, 14), (.name "on", 18),
        (.name "Crews", 21), (.braceL, 27), (.name "crew", 29), (.braceR, 34), (.braceR, 36)]) := by
  decide +kernel

theorem readDocument_crew (schema : Schema Unit) :
    (serving schema).readDocument crewRequest.query = .ok crewDocument :=
  (ExecutableDocument.read_of_scan scan_crew rfl).trans rfl

end Sample

open Sample in
/-- Behind the schema that declares nothing, crews lose the name of their root and keep its fields.
    In front of it they lose nothing. -/
theorem empty_merges_crews :
    crews.types.DistinctImplementers ∧ crews.merge .empty = crews ∧
    crews.withDefaultName.Indistinguishable (Schema.empty.merge crews) ∧
    ((Schema.empty.merge crews).query.name = "Query" ∧
      (Schema.empty.merge crews).query.field? "crew" = some (told "Belters")) ∧
    (Schema.empty.merge crews).root .mutation = crews.root .mutation := by
  have hdistinct : crews.types.DistinctImplementers := by decide
  obtain ⟨hright, hleft, -, hroot, hquery⟩ := empty_merges hdistinct
  have halike : crews.withDefaultName.query.Alike (Schema.empty.merge crews).query := hquery _ rfl
  exact ⟨hdistinct, hright, hleft, ⟨halike.name, halike.field "crew"⟩, hroot .empty .mutation rfl⟩

open Sample in
/-- The schema that declares nothing, merged from the left, changes the outcome of a request: the
    root of crews says that it is called otherwise, and fragments for it do not apply any more. -/
theorem undeclared_root_names :
    (((serving crews).execute (fun _ => ⟨"", []⟩) 10 crewRequest).watch 10 0 0).map Timed.value =
      some (.ok (.response
        ⟨some (.object [(typenameField, .string "Crews"), ("crew", .string "Belters")]), [], []⟩)) ∧
    (((serving (Schema.empty.merge crews)).execute (fun _ => ⟨"", []⟩) 10 crewRequest).watch 10
        0 0).map Timed.value =
      some (.ok (.response ⟨some (.object [(typenameField, .string "Query")]), [], []⟩)) ∧
    ¬ crews.Indistinguishable (Schema.empty.merge crews) := by
  have hown :
      (((serving crews).execute (fun _ => ⟨"", []⟩) 10 crewRequest).watch 10 0 0).map Timed.value =
        some (.ok (.response ⟨some (.object
          [(typenameField, .string "Crews"), ("crew", .string "Belters")]), [], []⟩)) := by
    rw [Service.execute, readDocument_crew]
    rfl
  have hmerged : (((serving (Schema.empty.merge crews)).execute (fun _ => ⟨"", []⟩) 10
      crewRequest).watch 10 0 0).map Timed.value = some (.ok (.response
        ⟨some (.object [(typenameField, .string "Query")]), [], []⟩)) := by
    rw [Service.execute, readDocument_crew]
    rfl
  refine ⟨hown, hmerged, fun h => ?_⟩
  have hsame := congrFun (h {} (fun _ => ⟨"", []⟩) crewRequest 10 0) 0
  have hboth := hown.symm.trans ((congrArg (Option.map Timed.value) hsame).symm.trans hmerged)
  simp at hboth

end GraphQL

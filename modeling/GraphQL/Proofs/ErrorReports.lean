import GraphQL.Error
import GraphQL.Proofs.Agreement
import GraphQL.Proofs.Settling
import GraphQL.Proofs.WrittenEntries

/-!
# Error reports in JSON

A report leaves out the members that have nothing to say, and a reader takes what is left out for
just that. An empty path is not left out: it differs from none. Segments of paths are told apart by
their JSON type, so that an index needs no mark.

A report can be written if its indices fit 64 bits and no object in its extensions has a name twice.
What is read is of this kind (`Error.representable_of_read`), and what is of this kind is read back
as it was.

Results:
* `Json.value?_outline`, `Json.distinct_of_value?`: values with distinct names are what is read.
* `Json.Outline.fields?_object`: the fields of a record, from an object.
* `Path.ofOutline?_toJson`, `Location.ofOutline?_toJson`: paths and places are read back.
* `Error.ofOutline?_toJson`, `Error.representable_of_read`: reports are, and which reports are read.
* `errors_survive_json`: all of it.
-/

namespace GraphQL

/-! ## Values with distinct names -/

/-- No object in the value has a name twice. -/
inductive Json.Distinct : Json → Prop
  | null : Distinct .null
  | bool (b : Bool) : Distinct (.bool b)
  | number (n : Number) : Distinct (.number n)
  | string (s : String) : Distinct (.string s)
  | array {items : List Json} : (∀ item ∈ items, item.Distinct) → Distinct (.array items)
  | object {members : List (String × Json)} : (Entries.keys members).Nodup →
    (∀ member ∈ members, member.2.Distinct) → Distinct (.object members)

namespace Json

theorem outlines_eq_map (items : List Json) : outlines items = items.map outline := by
  induction items with
  | nil => rfl
  | cons item rest ih => rw [outlines, ih, List.map_cons]

theorem memberOutlines_eq_map (members : List (String × Json)) :
    memberOutlines members = members.map fun member => (some member.1, member.2.outline) := by
  induction members with
  | nil => rfl
  | cons member rest ih =>
    obtain ⟨name, value⟩ := member
    rw [memberOutlines, ih, List.map_cons]

theorem values?_outlines {items : List Json}
    (h : ∀ item ∈ items, item.outline.value? = some item) :
    Outline.values? (outlines items) = some items := by
  induction items with
  | nil => rfl
  | cons item rest ih =>
    obtain ⟨hitem, hrest⟩ := List.forall_mem_cons.mp h
    rw [outlines, Outline.values?, hitem, ih hrest]

theorem memberValues?_outlines {members : List (String × Json)}
    (h : ∀ member ∈ members, member.2.outline.value? = some member.2) :
    Outline.memberValues? (memberOutlines members) = some members := by
  induction members with
  | nil => rfl
  | cons member rest ih =>
    obtain ⟨name, value⟩ := member
    obtain ⟨hvalue, hrest⟩ := List.forall_mem_cons.mp h
    replace hvalue : value.outline.value? = some value := hvalue
    simp only [memberOutlines, Outline.memberValues?, hvalue, ih hrest]

/-- A value with distinct names is read as itself. -/
theorem value?_outline {json : Json} (h : json.Distinct) : json.outline.value? = some json := by
  induction h with
  | null => rfl
  | bool b => rfl
  | number n => rfl
  | string s => rfl
  | array _ ih => rw [outline, Outline.value?, values?_outlines ih, Option.map_some]
  | object hnames _ ih =>
    rw [outline, Outline.value?, memberValues?_outlines ih, Option.map_some,
      Entries.ofList_eq_self hnames]

mutual

/-- Whatever is read has distinct names. -/
theorem distinct_of_value? : ∀ {item : Outline} {json : Json}, item.value? = some json →
    json.Distinct
  | .null, _, h => by cases h; exact .null
  | .bool b, _, h => by cases h; exact .bool b
  | .number n, _, h => by cases h; exact .number n
  | .string s, _, h => by cases h; exact .string s
  | .array items, _, h => by
    obtain ⟨values, hvalues, rfl⟩ := Option.map_eq_some_iff.mp h
    exact .array (distinct_of_values? hvalues)
  | .object members, _, h => by
    obtain ⟨values, hvalues, rfl⟩ := Option.map_eq_some_iff.mp h
    exact .object (Entries.nodup_keys_ofList values) fun member hm =>
      distinct_of_memberValues? hvalues member (Entries.mem_of_mem_ofList hm)
  | .unreadable, _, h => by cases h

theorem distinct_of_values? : ∀ {items : List Outline} {values : List Json},
    Outline.values? items = some values → ∀ value ∈ values, value.Distinct
  | [], _, h => by
    cases h
    exact fun _ hm => absurd hm List.not_mem_nil
  | item :: rest, _, h => by
    rw [Outline.values?] at h
    split at h
    · next hitem hrest =>
      cases h
      exact List.forall_mem_cons.mpr ⟨distinct_of_value? hitem, distinct_of_values? hrest⟩
    · cases h

theorem distinct_of_memberValues? : ∀ {members : List (Option String × Outline)}
    {values : List (String × Json)}, Outline.memberValues? members = some values →
    ∀ member ∈ values, member.2.Distinct
  | [], _, h => by
    cases h
    exact fun _ hm => absurd hm List.not_mem_nil
  | (none, _) :: _, _, h => by cases h
  | (some name, item) :: rest, _, h => by
    unfold Outline.memberValues? at h
    split at h
    · next _ hitem hrest =>
      cases h
      exact List.forall_mem_cons.mpr ⟨distinct_of_value? hitem, distinct_of_memberValues? hrest⟩
    · cases h

end

end Json

/-! ## Records -/

/-- A write changes what stands under its name and nothing else. -/
theorem Entries.map_put {α β : Type} {entries : Entries α} {name : String}
    (hnodup : (keys entries).Nodup) (hname : name ∈ keys entries) (a : α) (f : String × α → β) :
    (put entries name a).map f =
      entries.map fun entry => if entry.1 = name then f (name, a) else f entry := by
  induction entries with
  | nil => cases hname
  | cons head rest ih =>
    obtain ⟨k, b⟩ := head
    obtain ⟨hnew, hrest⟩ := List.nodup_cons.mp hnodup
    by_cases hk : k = name
    · subst hk
      have hothers : ∀ entry ∈ rest, f entry = if entry.1 = k then f (k, a) else f entry := by
        intro entry hm
        have hne : entry.1 ≠ k := ne_of_mem_of_not_mem (List.mem_map_of_mem hm) hnew
        rw [if_neg hne]
      rw [put, if_pos rfl, List.map_cons, List.map_cons, if_pos rfl, List.map_congr_left hothers]
    · have hlater : name ∈ keys rest := (List.mem_cons.mp hname).resolve_left fun he => hk he.symm
      rw [put, if_neg hk, List.map_cons, List.map_cons, if_neg hk, ih hrest hlater]

namespace Json.Outline

/-- Members with distinct names are assigned to the fields of their names. -/
theorem assign_ignored {members : List (String × Outline)}
    {filled : List (String × Option Outline)} (hmembers : (Entries.keys members).Nodup)
    (hfilled : (Entries.keys filled).Nodup)
    (hfree : ∀ name ∈ Entries.keys members, ∀ item, Entries.find? filled name ≠ some (some item)) :
    assign .ignored (members.map fun member => (some member.1, member.2)) filled =
      some (filled.map fun field => (field.1, (Entries.find? members field.1).or field.2)) := by
  induction members generalizing filled with
  | nil => exact congrArg some (List.map_id filled).symm
  | cons member rest ih =>
    obtain ⟨name, item⟩ := member
    obtain ⟨hnew, hrest⟩ := List.nodup_cons.mp hmembers
    obtain ⟨hname, hothers⟩ := List.forall_mem_cons.mp hfree
    have hfind : List.lookup name filled = Entries.find? filled name := rfl
    rw [List.map_cons, assign, hfind]
    cases hfound : Entries.find? filled name with
    | none =>
      have hunknown : name ∉ Entries.keys filled := (Entries.find?_eq_none_iff ..).mp hfound
      simp only [ite_true]
      rw [ih hrest hfilled hothers]
      refine congrArg some (List.map_congr_left fun field hm => ?_)
      have hne : field.1 ≠ name := ne_of_mem_of_not_mem (List.mem_map_of_mem hm) hunknown
      rw [Entries.find?_cons, if_neg hne]
    | some value =>
      cases value with
      | some other => exact absurd hfound (hname other)
      | none =>
        have hknown : name ∈ Entries.keys filled := by
          by_contra hn
          rw [(Entries.find?_eq_none_iff ..).mpr hn] at hfound
          cases hfound
        have hstill : ∀ other ∈ Entries.keys rest, ∀ item',
            Entries.find? (Entries.put filled name (some item)) other ≠ some (some item') := by
          intro other hm item'
          have hne : other ≠ name := ne_of_mem_of_not_mem hm hnew
          rw [Entries.find?_put, if_neg hne]
          exact hothers other hm item'
        simp only
        rw [ih hrest (Entries.nodup_keys_put hfilled _ _) hstill, Entries.map_put hfilled hknown]
        refine congrArg some (List.map_congr_left fun field _ => ?_)
        rw [Entries.find?_cons]
        by_cases hfield : field.1 = name
        · have hnone : Entries.find? rest name = none := (Entries.find?_eq_none_iff ..).mpr hnew
          rw [if_pos hfield, if_pos hfield, hnone, hfield, Option.none_or, Option.some_or]
        · rw [if_neg hfield, if_neg hfield]

/-- The fields of a record stand under their names in an object. -/
theorem fields?_object {members : List (String × Json)} (hmembers : (Entries.keys members).Nodup)
    {names : List String} (hnames : names.Nodup) :
    (Json.object members).outline.fields? .ignored names =
      some ((names.map (Entries.find? members)).map (Option.map outline)) := by
  let fields : List (String × Option Outline) := names.map fun name => (name, none)
  have hkeys : Entries.keys fields = names := by
    simp only [fields, Entries.keys, List.map_map, Function.comp_def, List.map_id']
  have hitems : memberOutlines members =
      (Entries.mapValues outline members).map fun member => (some member.1, member.2) := by
    rw [memberOutlines_eq_map, Entries.mapValues, List.map_map]
    rfl
  have hempty : ∀ name item, Entries.find? fields name ≠ some (some item) := by
    intro name item hfind
    obtain ⟨_, -, he⟩ := List.mem_map.mp (Entries.mem_of_find? hfind)
    cases he
  have hnodup : (Entries.keys (Entries.mapValues outline members)).Nodup := by
    simpa only [Entries.keys, Entries.mapValues, List.map_map, Function.comp_def] using hmembers
  rw [outline, fields?, hitems, assign_ignored hnodup (hkeys ▸ hnames) fun name _ => hempty name,
    Option.map_some]
  simp only [fields, List.map_map, Function.comp_def, Entries.find?_mapValues, Option.or_none]

theorem of_nullable? {α : Type} {read : Outline → Option α} {item : Outline} {a : α}
    (h : item.nullable? read = some (some a)) : read item = some a := by
  unfold nullable? at h
  split at h
  · cases h
  · obtain ⟨_, hread, he⟩ := Option.map_eq_some_iff.mp h
    cases he
    exact hread

/-- A list whose items are read back is read back. -/
theorem list?_outline {α : Type} {read : Outline → Option α} {write : α → Json} {items : List α}
    (h : ∀ item ∈ items, read (write item).outline = some item) :
    (Json.array (items.map write)).outline.list? read = some items := by
  rw [outline, list?, outlines_eq_map, List.map_map, mapM_eq_some_iff, List.forall₂_map_left_iff,
    List.forall₂_same]
  exact h

end Json.Outline

/-! ## Places and paths -/

open Json (Outline)

theorem readUInt32?_integer (n : UInt32) : readUInt32? (Json.integer n.toNat).outline = some n := by
  have hbound : (0 : Int) ≤ n.toNat ∧ (n.toNat : Int) < (UInt32.size : Nat) :=
    ⟨Int.natCast_nonneg _, Int.ofNat_lt.mpr n.toNat_lt_size⟩
  rw [readUInt32?, Json.integer, Json.outline, Outline.natural?, if_pos hbound, Option.map_some,
    Int.toNat_natCast, UInt32.ofNat_toNat]

theorem Location.ofOutline?_of_fields {item line column : Outline} {l c : UInt32}
    (hfields : item.fields? .ignored ["line", "column"] = some [some line, some column])
    (hline : readUInt32? line = some l) (hcolumn : readUInt32? column = some c) :
    ofOutline? item = some ⟨l, c⟩ := by
  rw [ofOutline?, hfields]
  simp only [Option.bind_eq_bind, Option.bind_some, hline, hcolumn, Option.pure_def]

/-- A place is read back. -/
theorem Location.ofOutline?_toJson (location : Location) :
    ofOutline? location.toJson.outline = some location := by
  have hnames : ["line", "column"].Nodup := by decide
  have hfields : location.toJson.outline.fields? .ignored ["line", "column"] =
      some [some (Json.integer location.line.toNat).outline,
        some (Json.integer location.column.toNat).outline] := by
    rw [toJson, Outline.fields?_object _ hnames]
    · rfl
    · exact hnames
  exact ofOutline?_of_fields hfields (readUInt32?_integer _) (readUInt32?_integer _)

namespace Path

/-- An index of 64 bits and a name are read back as what they were. -/
theorem Segment.ofOutline?_toJson {segment : Segment}
    (h : ∀ i, segment = .index i → i < indexBound) :
    Segment.ofOutline? segment.toJson.outline = some segment := by
  cases segment with
  | key name => rfl
  | index i =>
    have hbound : (0 : Int) ≤ (i : Int) ∧ (i : Int) < (indexBound : Nat) :=
      ⟨Int.natCast_nonneg _, Int.ofNat_lt.mpr (h i rfl)⟩
    simp only [toJson, Json.integer, Json.outline, ofOutline?, Outline.natural?, if_pos hbound,
      Int.toNat_natCast, Option.map_some]

/-- An index that is read fits 64 bits. -/
theorem Segment.lt_of_ofOutline? {item : Outline} {i : Nat}
    (h : Segment.ofOutline? item = some (.index i)) : i < indexBound := by
  unfold Segment.ofOutline? at h
  split at h
  · cases h
  · obtain ⟨n, hn, hi⟩ := Option.map_eq_some_iff.mp h
    cases hi
    unfold Outline.natural? at hn
    split at hn
    · split at hn
      · next hbound =>
        cases hn
        omega
      · cases hn
    · cases hn

/-- A path is read back. -/
theorem ofOutline?_toJson {path : Path} (h : path.Representable) :
    ofOutline? path.toJson.outline = some path := by
  rw [ofOutline?, toJson, Outline.list?_outline, Option.map_some]
  rintro segment hm
  refine Segment.ofOutline?_toJson ?_
  rintro i rfl
  exact h i hm

theorem representable_of_read {item : Outline} {path : Path} (h : ofOutline? item = some path) :
    path.Representable := by
  obtain ⟨segments, hsegments, rfl⟩ := Option.map_eq_some_iff.mp h
  unfold Outline.list? at hsegments
  split at hsegments
  · intro i hm
    obtain ⟨_, -, hread⟩ := exists_of_mem_of_forall₂ (mapM_eq_some_iff.mp hsegments).flip hm
    exact Segment.lt_of_ofOutline? hread
  · cases hsegments

end Path

/-! ## Reports -/

/-- Whether a report can be written: its indices fit 64 bits, and no object in its extensions has a
    name twice. -/
structure Error.Representable (error : Error) : Prop where
  path : ∀ path, error.path = some path → path.Representable
  extensions : (Json.object error.extensions).Distinct

namespace Error

/-- The members that are written for a report. -/
def members (error : Error) : List (String × Json) :=
  ("message", .string error.message) ::
    (member "locations" (.array (error.locations.map Location.toJson)) error.locations.isEmpty ++
      (member "path" ((error.path.getD .root).toJson) error.path.isNone ++
        member "extensions" (.object error.extensions) error.extensions.isEmpty))

theorem find?_member_append (name : String) (value : Json) (isEmpty : Bool)
    (rest : List (String × Json)) (other : String) :
    Entries.find? (member name value isEmpty ++ rest) other =
      if other = name then (if isEmpty then none else some value).or (Entries.find? rest other)
      else Entries.find? rest other := by
  cases isEmpty
  · rw [member, if_neg Bool.false_ne_true, List.singleton_append, Entries.find?_cons]
    rfl
  · rw [member, if_pos rfl, List.nil_append]
    exact (ite_self _).symm

theorem find?_member (name : String) (value : Json) (isEmpty : Bool) (other : String) :
    Entries.find? (member name value isEmpty) other =
      if other = name then (if isEmpty then none else some value) else none := by
  rw [← List.append_nil (member name value isEmpty), find?_member_append, Entries.find?_nil,
    Option.or_none]

/-- What is found under the names that a report may write. -/
theorem map_find?_members (error : Error) :
    ["message", "locations", "path", "extensions"].map (Entries.find? error.members) =
      [some (.string error.message),
        if error.locations.isEmpty then none
          else some (.array (error.locations.map Location.toJson)),
        if error.path.isNone then none else some (error.path.getD .root).toJson,
        if error.extensions.isEmpty then none else some (.object error.extensions)] := by
  simp [members, Entries.find?_cons, find?_member_append, find?_member]

theorem keys_member_sublist (name : String) (value : Json) (isEmpty : Bool) :
    (Entries.keys (member name value isEmpty)).Sublist [name] := by
  cases isEmpty
  · exact .refl _
  · exact List.nil_sublist _

theorem nodup_keys_members (error : Error) : (Entries.keys error.members).Nodup := by
  have hnames : ["message", "locations", "path", "extensions"].Nodup := by decide
  refine hnames.sublist ?_
  simp only [members, Entries.keys, List.map_cons, List.map_append]
  exact .cons_cons _ ((keys_member_sublist "locations" _ _).append
    ((keys_member_sublist "path" _ _).append (keys_member_sublist "extensions" _ _)))

/-- A member that was left out is read as what it is left out for. -/
theorem orElse?_leftOut {α : Type} {read : Outline → Option α} {otherwise a : α} {value : Json}
    {isEmpty : Bool} (hempty : isEmpty = true → a = otherwise)
    (hread : isEmpty = false → read value.outline = some a) :
    Outline.orElse? read otherwise ((if isEmpty then none else some value).map Json.outline) =
      some a := by
  cases isEmpty
  · exact hread rfl
  · exact congrArg some (hempty rfl).symm

theorem readExtensions?_object {extensions : Entries Json} (h : (Json.object extensions).Distinct) :
    readExtensions? (Json.object extensions).outline = some extensions := by
  rw [readExtensions?, Json.value?_outline h]

/-- What is read field by field. -/
theorem ofOutline?_eq_some_iff {item : Outline} {error : Error} :
    ofOutline? item = some error ↔ error.cause = none ∧ ∃ message locations path extensions,
      item.fields? .ignored ["message", "locations", "path", "extensions"] =
        some [message, locations, path, extensions] ∧
      Outline.orElse? (·.string?) "" message = some error.message ∧
      Outline.orElse? (·.list? Location.ofOutline?) [] locations = some error.locations ∧
      Outline.orElse? (·.nullable? Path.ofOutline?) none path = some error.path ∧
      Outline.orElse? readExtensions? [] extensions = some error.extensions := by
  constructor
  · intro h
    obtain ⟨fields, hfields, h⟩ := Option.bind_eq_some_iff.mp h
    split at h
    · obtain ⟨_, hmessage, h⟩ := Option.bind_eq_some_iff.mp h
      obtain ⟨_, hlocations, h⟩ := Option.bind_eq_some_iff.mp h
      obtain ⟨_, hpath, h⟩ := Option.bind_eq_some_iff.mp h
      obtain ⟨_, hextensions, h⟩ := Option.bind_eq_some_iff.mp h
      cases h
      exact ⟨rfl, _, _, _, _, hfields, hmessage, hlocations, hpath, hextensions⟩
    · cases h
  · rintro ⟨hcause, _, _, _, _, hfields, hmessage, hlocations, hpath, hextensions⟩
    obtain ⟨_, _, _, _, _⟩ := error
    subst hcause
    rw [ofOutline?, hfields]
    simp only [Option.bind_eq_bind, Option.bind_some, hmessage, hlocations, hpath, hextensions,
      Option.pure_def]

/-- A report that can be written is read back without its cause. -/
theorem ofOutline?_toJson {error : Error} (h : error.Representable) :
    ofOutline? error.toJson.outline = some { error with cause := none } := by
  have hnames : ["message", "locations", "path", "extensions"].Nodup := by decide
  have hfields := Outline.fields?_object error.nodup_keys_members hnames
  rw [map_find?_members] at hfields
  refine ofOutline?_eq_some_iff.mpr ⟨rfl, _, _, _, _, hfields, ?message, ?locations, ?path,
    ?extensions⟩
  case message => rfl
  case locations =>
    exact orElse?_leftOut List.isEmpty_iff.mp fun _ =>
      Outline.list?_outline fun location _ => location.ofOutline?_toJson
  case path =>
    refine orElse?_leftOut Option.isNone_iff_eq_none.mp fun hsome => ?_
    obtain ⟨path, hpath⟩ := Option.isSome_iff_exists.mp (Option.isNone_eq_false_iff.mp hsome)
    rw [hpath]
    exact congrArg (Option.map some) (Path.ofOutline?_toJson (h.path path hpath))
  case extensions =>
    exact orElse?_leftOut List.isEmpty_iff.mp fun _ => readExtensions?_object h.extensions

/-- Whatever is read can be written. -/
theorem representable_of_read {item : Outline} {error : Error} (h : ofOutline? item = some error) :
    error.Representable := by
  obtain ⟨-, _, _, path, extensions, -, -, -, hpath, hextensions⟩ := ofOutline?_eq_some_iff.mp h
  constructor
  · intro written hwritten
    rw [hwritten] at hpath
    cases path with
    | none => cases hpath
    | some item => exact Path.representable_of_read (Outline.of_nullable? hpath)
  · cases extensions with
    | none =>
      rw [← Option.some.inj hextensions]
      exact .object List.nodup_nil fun _ hm => absurd hm List.not_mem_nil
    | some item =>
      change readExtensions? item = some error.extensions at hextensions
      unfold readExtensions? at hextensions
      split at hextensions
      · next hvalue =>
        cases hextensions
        exact Json.distinct_of_value? hvalue
      · cases hextensions

end Error

/-- A report that is written as JSON is read back as it was, its cause apart, which is not written.
    This holds for all reports that can be written, and for no others; in particular for all that
    have been read. -/
theorem errors_survive_json :
    (∀ error : Error, Error.ofOutline? error.toJson.outline = some { error with cause := none } ↔
      error.Representable) ∧
    (∀ (error : Error) (cause : Option String), { error with cause }.toJson = error.toJson) ∧
    ∀ (item : Outline) (error : Error), Error.ofOutline? item = some error →
      Error.ofOutline? error.toJson.outline = some error := by
  refine ⟨fun error => ⟨fun h => ?_, Error.ofOutline?_toJson⟩, fun _ _ => rfl,
    fun item error h => ?_⟩
  · obtain ⟨hpath, hextensions⟩ := Error.representable_of_read h
    exact ⟨hpath, hextensions⟩
  · obtain ⟨hcause, -⟩ := Error.ofOutline?_eq_some_iff.mp h
    obtain ⟨_, _, _, _, _⟩ := error
    subst hcause
    exact Error.ofOutline?_toJson (Error.representable_of_read h)

namespace Sample

/-- A failure in the last item of the longest list, under a name that looks like an index. -/
def shelfReport : Error where
  message := "lost"
  locations := [⟨2, 7⟩]
  path := some ⟨[.key "7", .index 18446744073709551615]⟩
  extensions := [("code", .string "LOST"), ("shelf", .object [("row", .integer 7), ("old", .null)])]
  cause := some "no such shelf"

theorem shelfReport_representable : shelfReport.Representable where
  path := by
    rintro _ ⟨⟩ i hi
    obtain rfl : i = 18446744073709551615 := by simpa using hi
    decide
  extensions := by
    refine .object (by decide) ?_
    simp only [shelfReport, List.forall_mem_cons]
    refine ⟨.string _, .object (by decide) ?_, fun _ hm => absurd hm List.not_mem_nil⟩
    simp only [List.forall_mem_cons]
    exact ⟨.number _, .null, fun _ hm => absurd hm List.not_mem_nil⟩

/-- A report that lists its fields in order, with an empty path and a code that is given twice. -/
def listedReport : Outline :=
  .array [.string "lost", .array [.array [.number (.integer 2), .number (.integer 7)]], .array [],
    .object [(some "code", .null), (some "code", .string "LOST")]]

end Sample

/-- A report of an item, and one that is read from a list and has the place of the root. -/
theorem errors_survive_json_shelf :
    Error.ofOutline? Sample.shelfReport.toJson.outline =
      some { Sample.shelfReport with cause := none } ∧
    ∃ error, Error.ofOutline? Sample.listedReport = some error ∧ error.path = some .root ∧
      error.extensions = [("code", .string "LOST")] ∧
      Error.ofOutline? error.toJson.outline = some error := by
  obtain ⟨hwritten, -, hread⟩ := errors_survive_json
  have hlisted : Error.ofOutline? Sample.listedReport =
      some ⟨"lost", [⟨2, 7⟩], some .root, [("code", .string "LOST")], none⟩ := by rfl
  exact ⟨(hwritten _).mpr Sample.shelfReport_representable, _, hlisted, rfl, rfl, hread _ _ hlisted⟩

end GraphQL

import GraphQL.Json.Basic

/-!
# Outlines of JSON texts

An outline is what the form of a text alone determines: nesting, names and literals. It differs from
a value in two ways. A name may stand more than once in an object, and a part of the right form may
stand for no value (a number beyond the floating-point numbers, half of a surrogate pair, too deep
nesting); such a part is `unreadable` and does no harm where nobody reads it.

`Outline.value?` reads an outline as a value, `Outline.fields?` as a record with known field names.
-/

namespace GraphQL

/-- The form of a JSON text. -/
inductive Json.Outline where
  | null
  | bool (b : Bool)
  | number (n : Json.Number)
  | string (s : String)
  | array (items : List Outline)
  | object (members : List (Option String × Outline))
  | unreadable

namespace Json.Outline

instance : Inhabited Json.Outline := ⟨.null⟩

mutual

/-- The value of an outline. A repeated name keeps its first place and its last value. -/
def value? : Outline → Option Json
  | .null => some .null
  | .bool b => some (.bool b)
  | .number n => some (.number n)
  | .string s => some (.string s)
  | .array items => (values? items).map .array
  | .object members => (memberValues? members).map fun ms => .object (Entries.ofList ms)
  | .unreadable => none

/-- The values of the items of an array. -/
def values? : List Outline → Option (List Json)
  | [] => some []
  | item :: rest =>
    match item.value?, values? rest with
    | some value, some others => some (value :: others)
    | _, _ => none

/-- The values of the members of an object, repeated names included. -/
def memberValues? : List (Option String × Outline) → Option (List (String × Json))
  | [] => some []
  | (name, item) :: rest =>
    match name, item.value?, memberValues? rest with
    | some name, some value, some others => some ((name, value) :: others)
    | _, _, _ => none

end

/-- Whether fields that a record does not have are passed over or refused. -/
inductive Unknown where
  | ignored
  | refused
  deriving DecidableEq

/-- Fills the fields of a record from members. A known name must not stand twice. -/
def assign (unknown : Unknown) :
    List (Option String × Outline) → List (String × Option Outline) →
      Option (List (String × Option Outline))
  | [], filled => some filled
  | (none, _) :: _, _ => none
  | (some name, item) :: rest, filled =>
    match filled.lookup name with
    | none => if unknown = .ignored then assign unknown rest filled else none
    | some (some _) => none
    | some none => assign unknown rest (Entries.put filled name (some item))

/-- Reads a record with the given field names, from an object or from an array that lists the fields
    in order. A field that is not given is `none`. -/
def fields? (unknown : Unknown) (names : List String) : Outline → Option (List (Option Outline))
  | .object members =>
    (assign unknown members (names.map fun name => (name, none))).map (List.map Prod.snd)
  | .array items =>
    if items.length ≤ names.length then
      some (items.map some ++ List.replicate (names.length - items.length) none)
    else none
  | _ => none

/-- Reads a string. -/
def string? : Outline → Option String
  | .string s => some s
  | _ => none

/-- Reads a whole number below `bound`. -/
def natural? (bound : Nat) : Outline → Option Nat
  | .number (.integer i) => if 0 ≤ i ∧ i < bound then some i.toNat else none
  | _ => none

/-- Reads a truth value. -/
def bool? : Outline → Option Bool
  | .bool b => some b
  | _ => none

/-- Reads a list with `read` for its items. -/
def list? (read : Outline → Option α) : Outline → Option (List α)
  | .array items => items.mapM read
  | _ => none

/-- Reads null as nothing and all else with `read`. -/
def nullable? (read : Outline → Option α) : Outline → Option (Option α)
  | .null => some none
  | item => (read item).map some

/-- Reads a field that may be left out. -/
def orElse? (read : Outline → Option α) (otherwise : α) : Option Outline → Option α
  | none => some otherwise
  | some item => read item

/-- Reads the name of a case that carries nothing: alone, or as the only name of an object with null
    under it. -/
def caseName? : Outline → Option String
  | .string s => some s
  | .object [(some name, .null)] => some name
  | _ => none

end Json.Outline

mutual

/-- The outline of a value. -/
def Json.outline : Json → Json.Outline
  | .null => .null
  | .bool b => .bool b
  | .number n => .number n
  | .string s => .string s
  | .array items => .array (Json.outlines items)
  | .object members => .object (Json.memberOutlines members)

/-- The outlines of the items of an array. -/
def Json.outlines : List Json → List Json.Outline
  | [] => []
  | item :: rest => item.outline :: Json.outlines rest

/-- The outlines of the members of an object. -/
def Json.memberOutlines : List (String × Json) → List (Option String × Json.Outline)
  | [] => []
  | (name, value) :: rest => (some name, value.outline) :: Json.memberOutlines rest

end

end GraphQL

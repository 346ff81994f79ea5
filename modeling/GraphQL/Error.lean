import GraphQL.Path
import GraphQL.Text.Position

/-!
# Error reports

An `Error` is one entry of the `errors` of a response: a message, the places in the document, the
path of the value that failed and any extensions, usually a code. The failure of an effect is kept
with the report but never written.

`Error.toJson` writes a report and `Error.ofOutline?` reads it back.
-/

namespace GraphQL

/-- One error of a response. -/
structure Error where
  message : String := ""
  locations : List Location := []
  path : Option Path := none
  extensions : Entries Json := []
  /-- The text of the failure behind the error. -/
  cause : Option String := none

namespace Error

/-- Adds a code to the extensions, unless they have one. -/
def withCode (error : Error) (code : String) : Error :=
  { error with extensions := Entries.add error.extensions "code" (.string code) }

/-- Model of `extension_code`: the code in the extensions, if it is a string or a number. -/
def code? (error : Error) : Option String :=
  match Entries.find? error.extensions "code" with
  | some (.string s) => some s
  | some (.number n) => some n.text
  | _ => none

end Error

/-! ## JSON -/

/-- A place as JSON. -/
def Location.toJson (location : Location) : Json :=
  .object [("line", .integer location.line.toNat), ("column", .integer location.column.toNat)]

/-- Reads a whole number of 32 bits. -/
def readUInt32? (item : Json.Outline) : Option UInt32 :=
  (item.natural? UInt32.size).map UInt32.ofNat

/-- Reads a place. -/
def Location.ofOutline? (item : Json.Outline) : Option Location := do
  match ← item.fields? .ignored ["line", "column"] with
  | [some line, some column] => return ⟨← readUInt32? line, ← readUInt32? column⟩
  | _ => failure

namespace Error

/-- A member that is left out when there is nothing to say. -/
def member (name : String) (value : Json) (isEmpty : Bool) : List (String × Json) :=
  if isEmpty then [] else [(name, value)]

/-- An error as JSON. -/
def toJson (error : Error) : Json :=
  .object (("message", .string error.message) ::
    (member "locations" (.array (error.locations.map Location.toJson)) error.locations.isEmpty ++
      (member "path" ((error.path.getD .root).toJson) error.path.isNone ++
        member "extensions" (.object error.extensions) error.extensions.isEmpty)))

/-- Reads extensions. -/
def readExtensions? (item : Json.Outline) : Option (Entries Json) :=
  match item.value? with
  | some (.object members) => some members
  | _ => none

/-- Reads an error. Everything may be left out. -/
def ofOutline? (item : Json.Outline) : Option Error := do
  match ← item.fields? .ignored ["message", "locations", "path", "extensions"] with
  | [message, locations, path, extensions] =>
    return {
      message := ← Json.Outline.orElse? (·.string?) "" message
      locations := ← Json.Outline.orElse? (·.list? Location.ofOutline?) [] locations
      path := ← Json.Outline.orElse? (·.nullable? Path.ofOutline?) none path
      extensions := ← Json.Outline.orElse? readExtensions? [] extensions }
  | _ => failure

end Error

end GraphQL

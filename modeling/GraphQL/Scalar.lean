import GraphQL.Value
import GraphQL.Uuid

/-!
# Custom scalars

A codec reads the raw input of a scalar and writes what a resolver produced for it. A schema knows
its codecs by name; the first registration of a name stands.
-/

namespace GraphQL

/-- How a custom scalar is read and written. Reading may fail with a reason. -/
structure ScalarCodec where
  decode : Value → Except String Value
  encode : Value → Value := id

namespace ScalarCodec

/-- Model of `UuidScalar`. UUIDs: any of their textual forms is read, and the canonical one is
    written. What is no UUID is written as it is. -/
def uuid : ScalarCodec where
  decode
    | .string s =>
      match Uuid.read s with
      | .ok id => .ok (.string id.text)
      | .error fault => .error ("'" ++ s ++ "' is not a valid UUID: " ++ fault.message)
    | other => .error ("expected a UUID string, found " ++ other.kind)
  encode
    | .string s =>
      match Uuid.read s with
      | .ok id => .string id.text
      | .error _ => .string s
    | other => other

/-- Model of `JsonScalar`: any value, both ways. -/
def json : ScalarCodec where
  decode := .ok

end ScalarCodec

/-- Model of `ScalarRegistry`: codecs by the name of their scalar. -/
abbrev Scalars := Entries ScalarCodec

namespace Scalars

/-- Model of `ScalarRegistry.register`: registers a codec under a free name. -/
def register (scalars : Scalars) (name : String) (codec : ScalarCodec) : Scalars :=
  Entries.add scalars name codec

/-- The names in the order of their code points. -/
def names (scalars : Scalars) : List String :=
  (Entries.keys scalars).mergeSort fun a b => decide (a ≤ b)

/-- The names as a set, for messages. -/
def text (scalars : Scalars) : String :=
  "\x7b" ++ Value.commas (scalars.names.map Text.quoted) ++ "\x7d"

end Scalars

end GraphQL

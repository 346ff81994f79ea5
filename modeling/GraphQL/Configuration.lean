import GraphQL.Document.Reader
import GraphQL.Text.CodePoints
import GraphQL.Yaml

/-!
# Configuration

Limits for documents and the manner of execution. A configuration is read from YAML, where every
section and every member may be left out but none may be misspelt, and then checked. `jsonSchema`
describes the format.
-/

namespace GraphQL

/-- Model of `Execution`: how operations are executed. -/
structure ExecutionSettings where
  /-- How many siblings may run at the same time. -/
  maxConcurrency : Nat := 64
  /-- Whether the root fields of a mutation run one after the other. -/
  serialMutations : Bool := true
  deriving Repr, DecidableEq

/-- The settings of a service. -/
structure Configuration where
  parser : Document.Limits := { depth := 500, pieces := 15000 }
  execution : ExecutionSettings := {}
  deriving Repr, DecidableEq

/-- Why a configuration cannot be used. -/
inductive ConfigurationError where
  /-- The text is no configuration. -/
  | unreadable
  /-- A setting has a value that makes no sense. -/
  | invalid (subject problem : String)
  deriving Repr, DecidableEq

/-- The wording of a configuration error, if it has one of its own. -/
def ConfigurationError.message? : ConfigurationError → Option String
  | .unreadable => none
  | .invalid subject problem => some (subject ++ ": " ++ problem)

namespace Configuration

/-! ## Writing -/

/-- The limits for documents as JSON. -/
def parserJson (configuration : Configuration) : Json :=
  .object [
    ("recursion_limit", .integer configuration.parser.depth),
    ("token_limit", .integer configuration.parser.pieces)]

/-- The manner of execution as JSON. -/
def executionJson (configuration : Configuration) : Json :=
  .object [
    ("max_concurrency", .integer configuration.execution.maxConcurrency),
    ("serial_mutations", .bool configuration.execution.serialMutations)]

/-- A configuration as JSON. -/
def toJson (configuration : Configuration) : Json :=
  .object [("parser", configuration.parserJson), ("execution", configuration.executionJson)]

/-! ## Reading -/

/-- Reads a number of 64 bits. -/
def readNumber? (item : Json.Outline) : Option Nat := item.natural? UInt64.size

/-- Reads the limits for documents. -/
def readLimits? (item : Json.Outline) : Option Document.Limits := do
  let usual : Document.Limits := ({} : Configuration).parser
  match ← item.fields? .refused ["recursion_limit", "token_limit"] with
  | [depth, pieces] =>
    return {
      depth := ← Json.Outline.orElse? readNumber? usual.depth depth
      pieces := ← Json.Outline.orElse? readNumber? usual.pieces pieces }
  | _ => failure

/-- Reads the manner of execution. -/
def readExecution? (item : Json.Outline) : Option ExecutionSettings := do
  let usual : ExecutionSettings := {}
  match ← item.fields? .refused ["max_concurrency", "serial_mutations"] with
  | [maxConcurrency, serialMutations] =>
    return {
      maxConcurrency := ← Json.Outline.orElse? readNumber? usual.maxConcurrency maxConcurrency
      serialMutations :=
        ← Json.Outline.orElse? Json.Outline.bool? usual.serialMutations serialMutations }
  | _ => failure

/-- Reads a configuration. Unknown names are refused. -/
def ofOutline? (item : Json.Outline) : Option Configuration := do
  let usual : Configuration := {}
  match ← item.fields? .refused ["parser", "execution"] with
  | [parser, execution] =>
    return {
      parser := ← Json.Outline.orElse? readLimits? usual.parser parser
      execution := ← Json.Outline.orElse? readExecution? usual.execution execution }
  | _ => failure

/-- Model of `validate`: refuses settings with which nothing could run. -/
def check (configuration : Configuration) : Except ConfigurationError Configuration :=
  if configuration.execution.maxConcurrency = 0 then
    .error (.invalid "invalid execution configuration" "max_concurrency must be at least 1")
  else if configuration.parser.depth = 0 ∨ configuration.parser.pieces = 0 then
    .error (.invalid "invalid parser configuration" "limits must be at least 1")
  else .ok configuration

/-- Model of `validate_configuration`: reads a configuration from YAML and checks it. A blank text
    is the usual configuration. -/
def read (text : String) : Except ConfigurationError Configuration :=
  if text.toList.all Text.isBlank then .ok {}
  else
    match (Yaml.read? text).bind fun yaml => ofOutline? yaml.outline with
    | some configuration => configuration.check
    | none => .error .unreadable

/-! ## Format -/

/-- The description of a number without sign. -/
def numberSchema (usual : Nat) (description : String) : Json :=
  .object [
    ("description", .string description),
    ("default", .integer usual),
    ("type", .string "integer"),
    ("format", .string "uint"),
    ("minimum", .number (.float 0))]

/-- The description of a truth value. -/
def truthSchema (usual : Bool) (description : String) : Json :=
  .object [
    ("description", .string description),
    ("default", .bool usual),
    ("type", .string "boolean")]

/-- The description of a section, which may be left out. -/
def sectionSchema (usual : Json) (description : String) (members : List (String × Json)) : Json :=
  .object [
    ("description", .string description),
    ("default", usual),
    ("type", .string "object"),
    ("properties", .object members),
    ("additionalProperties", .bool false)]

/-- The name of the draft of JSON Schema in which the format is described. -/
def dialect : String :=
  String.intercalate "/" ["http:", "", "json-schema.org", "draft-07", "schema#"]

/-- Model of `generate_config_schema`: the JSON schema of configurations. -/
def jsonSchema : Json :=
  let usual : Configuration := {}
  .object [
    ("$schema", .string dialect),
    ("title", .string "Configuration"),
    ("description", .string (
      "The configuration of the execution engine.\n\n" ++
      "Can be created through `serde::Deserialize` from various formats, " ++
      "or from YAML with [`Configuration::from_str`].")),
    ("type", .string "object"),
    ("properties", .object [
      ("parser", sectionSchema usual.parserJson "Limits applied while parsing operations." [
        ("recursion_limit", numberSchema usual.parser.depth
          "Maximum nesting depth of a parsed document default: 500"),
        ("token_limit", numberSchema usual.parser.pieces
          "Maximum number of tokens of a parsed document default: 15000")]),
      ("execution", sectionSchema usual.executionJson "Execution behaviour." [
        ("max_concurrency", numberSchema usual.execution.maxConcurrency
          ("Maximum number of sibling fields or list items resolved at the same time " ++
            "within one selection set default: 64")),
        ("serial_mutations", truthSchema usual.execution.serialMutations
          "Run the root fields of mutations one after the other default: true")])]),
    ("additionalProperties", .bool false)]

end Configuration

end GraphQL

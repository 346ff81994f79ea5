import GraphQL.Yaml.Token

/-!
# YAML nodes

`Yaml.ofTokens?` reads the tokens of a text that holds one document.

A missing key, value or item counts as a plain null, unless an anchor or a tag stands in its place.
A reference stands for a copy of the node with the anchor that began last before it; that node must
be complete.
-/

namespace GraphQL

/-- A node of a document. -/
inductive Yaml where
  /-- A scalar: its content, whether it is plain, and its tag. -/
  | scalar (content : String) (plain : Bool) (tag : Option Yaml.Tag)
  | sequence (items : List Yaml)
  | mapping (entries : List (Yaml × Yaml))

namespace Yaml

/-- The node that stands where nothing is written. -/
def missing : Yaml := .scalar "~" true none

/-- The tokens that are left, and the anchors so far, in the order in which their nodes begin. An
    anchor is without a node until its node is complete. -/
structure NodeReader.State where
  rest : List Token
  anchors : Array (String × Option Yaml) := #[]

/-- A reading step: takes tokens from the front, or fails. -/
abbrev NodeReader := StateT NodeReader.State Option

namespace NodeReader

/-- The next token, left in place. -/
def peek : NodeReader (Option Token) := do return (← get).rest.head?

/-- Takes the next token. -/
def skip : NodeReader Unit := modify fun state => { state with rest := state.rest.drop 1 }

/-- Takes the next token if it is the given one, and says whether it was. -/
def accept (token : Token) : NodeReader Bool := do
  if (← peek) = some token then
    skip
    return true
  else return false

/-- Takes a given token. -/
def expect (token : Token) : NodeReader Unit := do
  if ← accept token then return () else failure

/-- A node, unless the next token is one of those that show that there is none. -/
def nodeUnless (stops : List Token) (node : NodeReader Yaml) : NodeReader Yaml := do
  if (← peek).any stops.contains then return missing else node

/-- Repeats a step until a closing token has been taken; `read` holds the results so far, last one
    first. -/
def collectUntil {α : Type} (closing : Token) (step : NodeReader α) :
    Nat → List α → NodeReader (List α)
  | 0, _ => failure
  | left + 1, read => do
    if ← accept closing then return read.reverse
    else
      let item ← step
      collectUntil closing step left (item :: read)

/-- Any number of items up to a closing token. -/
def itemsUntil {α : Type} (closing : Token) (step : NodeReader α) : NodeReader (List α) := do
  collectUntil closing step ((← get).rest.length + 1) []

/-- Repeats a step as long as the next token is the given one; `read` holds the results so far, last
    one first. -/
def collectWhile {α : Type} (opening : Token) (step : NodeReader α) :
    Nat → List α → NodeReader (List α)
  | 0, read => return read.reverse
  | left + 1, read => do
    if (← peek) = some opening then
      let item ← step
      collectWhile opening step left (item :: read)
    else return read.reverse

/-- Items each of which begins with the given token. -/
def itemsWhile {α : Type} (opening : Token) (step : NodeReader α) : NodeReader (List α) := do
  collectWhile opening step (← get).rest.length []

/-- Items with commas between them up to a closing token, in front of which there may be a comma
    too; `read` holds the results so far, last one first. -/
def collectSeparated {α : Type} (closing : Token) (step : NodeReader α) :
    Nat → List α → NodeReader (List α)
  | 0, _ => failure
  | left + 1, read => do
    if ← accept closing then return read.reverse
    else
      if !read.isEmpty then expect .comma
      if ← accept closing then return read.reverse
      else
        let item ← step
        collectSeparated closing step left (item :: read)

/-- Any number of items with commas between them up to a closing token. -/
def itemsSeparated {α : Type} (closing : Token) (step : NodeReader α) : NodeReader (List α) := do
  collectSeparated closing step ((← get).rest.length + 1) []

/-- Where a node stands. -/
inductive Place where
  /-- In a flow collection. -/
  | flow
  /-- In a block sequence or alone. -/
  | block
  /-- In a block mapping, where the items of a sequence need not be indented. -/
  | entry
  deriving DecidableEq

/-- An item of a block sequence. -/
def blockItem (stops : List Token) (node : NodeReader Yaml) : NodeReader Yaml := do
  expect .entry
  nodeUnless stops node

/-- An entry of a block mapping. -/
def blockEntry (node : NodeReader Yaml) : NodeReader (Yaml × Yaml) := do
  let stops : List Token := [.key, .value, .blockEnd]
  let name ← (do
    if ← accept .key then nodeUnless stops node
    else if (← peek) = some .value then return missing
    else failure)
  if ← accept .value then return (name, ← nodeUnless stops node) else return (name, missing)

/-- The value of an entry of a flow collection, whose key has been read. -/
def flowValue (closing : Token) (node : NodeReader Yaml) : NodeReader Yaml := do
  if ← accept .value then nodeUnless [.comma, closing] node else return missing

/-- An entry of a flow collection behind the token that announces its key. -/
def flowPair (closing : Token) (node : NodeReader Yaml) : NodeReader (Yaml × Yaml) := do
  let name ← nodeUnless [.value, .comma, closing] node
  return (name, ← flowValue closing node)

/-- An entry of a flow mapping. Without a colon it has no value. -/
def flowEntry (node : NodeReader Yaml) : NodeReader (Yaml × Yaml) := do
  if ← accept .key then flowPair .braceR node
  else if (← peek) = some .value then return (missing, ← flowValue .braceR node)
  else return (← node, missing)

/-- An item of a flow sequence, which may be a mapping of one entry. -/
def flowItem (node : NodeReader Yaml) : NodeReader Yaml := do
  if ← accept .key then return .mapping [← flowPair .bracketR node] else node

/-- The anchor and the tag in front of a node, in any order. -/
def properties : NodeReader (Option String × Option Tag) := do
  match ← peek with
  | some (.anchor name) =>
    skip
    match ← peek with
    | some (.tag tag) =>
      skip
      return (some name, some tag)
    | _ => return (some name, none)
  | some (.tag tag) =>
    skip
    match ← peek with
    | some (.anchor name) =>
      skip
      return (some name, some tag)
    | _ => return (none, some tag)
  | _ => return (none, none)

/-- A node behind its anchor and tag, with `nested` for the nodes inside. If it is `described` by
    one of them, it may be empty. -/
def content (place : Place) (described : Bool) (tag : Option Tag)
    (nested : Place → NodeReader Yaml) : NodeReader Yaml := do
  match ← peek with
  | some (.scalar content isPlain) =>
    skip
    return .scalar content isPlain tag
  | some .bracketL =>
    skip
    return .sequence (← itemsSeparated .bracketR (flowItem (nested .flow)))
  | some .braceL =>
    skip
    return .mapping (← itemsSeparated .braceR (flowEntry (nested .flow)))
  | next =>
    if next = some .sequenceStart ∧ place ≠ .flow then
      skip
      return .sequence (← itemsUntil .blockEnd (blockItem [.entry, .blockEnd] (nested .block)))
    else if next = some .mappingStart ∧ place ≠ .flow then
      skip
      return .mapping (← itemsUntil .blockEnd (blockEntry (nested .entry)))
    else if next = some .entry ∧ place = .entry then
      return .sequence (← itemsWhile .entry
        (blockItem [.entry, .key, .value, .blockEnd] (nested .block)))
    else if described then return .scalar "" true tag
    else failure

/-- Reads a node with an anchor. -/
def anchored (name : String) (node : NodeReader Yaml) : NodeReader Yaml := do
  let place := (← get).anchors.size
  modify fun state => { state with anchors := state.anchors.push (name, none) }
  let read ← node
  modify fun state => { state with anchors := state.anchors.setIfInBounds place (name, some read) }
  return read

/-- The node that an anchor stands for. -/
def referred (name : String) : NodeReader Yaml := do
  match (← get).anchors.toList.reverse.lookup name with
  | some (some node) => return node
  | _ => failure

/-- A node, with `nested` for the nodes inside. -/
def nodeStep (place : Place) (nested : Place → NodeReader Yaml) : NodeReader Yaml := do
  match ← peek with
  | some (.reference name) =>
    skip
    referred name
  | _ =>
    let (anchor, tag) ← properties
    match anchor with
    | some name => anchored name (content place true tag nested)
    | none => content place tag.isSome tag nested

/-- A node with so many levels left for the nodes inside. -/
def node : Nat → Place → NodeReader Yaml
  | 0, place => nodeStep place fun _ => failure
  | room + 1, place => nodeStep place (node room)

/-- The only document of a text. -/
def document (room : Nat) : NodeReader Yaml := do
  let stops : List Token := [.directive, .documentStart, .documentEnd]
  let announced := (← peek) = some .directive || (← peek) = some .documentStart
  let root ← (do
    if announced then
      let _ ← itemsWhile .directive skip
      expect .documentStart
      if (← peek).isNone then return missing else nodeUnless stops (node room .block)
    else node room .block)
  let _ ← itemsWhile .documentEnd skip
  if (← peek).isNone then return root else failure

end NodeReader

/-- Reads the tokens of a text that holds one document. -/
def ofTokens? (tokens : List Token) : Option Yaml :=
  (NodeReader.document tokens.length).run' { rest := tokens }

end Yaml

end GraphQL

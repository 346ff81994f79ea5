import GraphQL.Yaml.Scalar
import GraphQL.Yaml.Tag

/-!
# Tokens of YAML texts

`Token.scan` cuts a text into tokens. The nesting of block collections shows in the columns of their
items: where a column opens a collection, a token says so, and where it lies to the left of open
collections, they are closed.

That something is a key only shows at the colon behind it. So whatever may be a key is remembered as
a `Candidate`, one for each level of flow collections, and its tokens are put in front of it later.
A key must end in the line in which it begins, with the colon at most 1024 characters behind its
start.
-/

namespace GraphQL.Yaml

/-- What a token is. -/
inductive Token where
  | directive
  | documentStart
  | documentEnd
  /-- Opens a block sequence. -/
  | sequenceStart
  /-- Opens a block mapping. -/
  | mappingStart
  /-- Closes a block collection. -/
  | blockEnd
  | bracketL
  | bracketR
  | braceL
  | braceR
  | comma
  /-- The hyphen in front of an item of a block sequence. -/
  | entry
  | key
  | value
  | anchor (name : String)
  /-- Stands for the node with an anchor. -/
  | reference (name : String)
  | tag (tag : Tag)
  | scalar (content : String) (plain : Bool)
  deriving Repr, DecidableEq

/-- The beginning of what may turn out to be a key. -/
structure Candidate where
  /-- The number of tokens in front of it. -/
  place : Nat
  index : Nat
  line : Nat
  column : Nat
  /-- Whether it must be a key: it stands in a flow collection, but in the column of the block
      collection around. -/
  required : Bool

/-- The state between two tokens. -/
structure Layout where
  cursor : Cursor
  tokens : Array Token := #[]
  /-- The columns of the open block collections, innermost first. -/
  columns : List Nat := []
  /-- Whether a key may begin here. -/
  keyAllowed : Bool := true
  /-- The candidate in the innermost collection. -/
  candidate : Option Candidate := none
  /-- The candidates around the open flow collections, innermost first. -/
  around : List (Option Candidate) := []
  /-- The index behind the last quoted scalar, where a colon may stand without a space. -/
  quoteEnd : Option Nat := none

namespace Layout

/-- Whether a flow collection is open. -/
def inFlow (layout : Layout) : Bool := !layout.around.isEmpty

/-- The least column of what lies in the innermost block collection. -/
def margin (layout : Layout) : Nat :=
  match layout.columns with
  | [] => 0
  | column :: _ => column + 1

/-- How far blanks, comments and line breaks go, and whether a key may begin behind them. Tabs only
    count as blanks where no key may begin and in flow collections. -/
def separation (flow : Bool) (keyAllowed comment : Bool) : List Char → Nat × Bool
  | [] => (0, keyAllowed)
  | c :: rest =>
    let step (allowed comment : Bool) : Nat × Bool :=
      let (n, last) := separation flow allowed comment rest
      (n + 1, last)
    if isBreak c then step (keyAllowed || !flow) false
    else if comment || c = '#' then step keyAllowed true
    else if c = ' ' || (c = '\t' && (flow || !keyAllowed)) then step keyAllowed false
    else (0, keyAllowed)

/-- Whether a candidate cannot be a key any more. -/
def isStale (cursor : Cursor) (candidate : Candidate) : Bool :=
  candidate.line < cursor.line || candidate.index + 1024 < cursor.index

/-- Gives up a candidate unless it must be a key. -/
def giveUp : Option Candidate → Option (Option Candidate)
  | some candidate => if candidate.required then none else some none
  | none => some none

/-- Gives up a stale candidate. -/
def refresh (cursor : Cursor) (candidate : Option Candidate) : Option (Option Candidate) :=
  if candidate.any (isStale cursor) then giveUp candidate else some candidate

/-- A change of state, or a failure. -/
abbrev Step := StateT Layout Option

namespace Step

/-- Reads with the cursor. -/
def read {α : Type} (reader : Reader α) : Step α := do
  let layout ← get
  let some (result, cursor) := reader.run layout.cursor | failure
  set { layout with cursor }
  return result

/-- Adds a token. -/
def push (token : Token) : Step Unit :=
  modify fun layout => { layout with tokens := layout.tokens.push token }

/-- Says whether a key may begin behind the next token. -/
def allowKey (allowed : Bool) : Step Unit :=
  modify fun layout => { layout with keyAllowed := allowed }

/-- Goes to the next token. -/
def separate : Step Unit := do
  let layout ← get
  let (n, keyAllowed) := separation layout.inFlow layout.keyAllowed false layout.cursor.rest
  set { layout with cursor := layout.cursor.skip n, keyAllowed }

/-- Gives up the candidates that are stale. -/
def refreshCandidates : Step Unit := do
  let layout ← get
  let some candidate := refresh layout.cursor layout.candidate | failure
  let some around := layout.around.mapM (refresh layout.cursor) | failure
  set { layout with candidate, around }

/-- Gives up the candidate of the innermost collection. -/
def dropCandidate : Step Unit := do
  let some candidate := giveUp (← get).candidate | failure
  modify fun layout => { layout with candidate }

/-- Remembers that a key may begin here, if one is allowed. -/
def saveCandidate : Step Unit := do
  let layout ← get
  if layout.keyAllowed then
    dropCandidate
    let cursor := layout.cursor
    modify fun layout => { layout with
      candidate := some {
        place := layout.tokens.size
        index := cursor.index
        line := cursor.line
        column := cursor.column
        required := layout.inFlow && layout.columns.head? = some cursor.column } }

/-- Closes the block collections that do not reach the column `least`. Those around a flow
    collection stay open. -/
def closeBlocks (least : Nat) : Step Unit :=
  modify fun layout =>
    if layout.inFlow then layout
    else
      let closed := layout.columns.takeWhile (least ≤ ·)
      { layout with
        columns := layout.columns.drop closed.length
        tokens := layout.tokens ++ Array.replicate closed.length .blockEnd }

/-- Opens a block collection in a column unless there is one. Its token is put at a place among the
    tokens. -/
def openBlock (column place : Nat) (token : Token) : Step Unit :=
  modify fun layout =>
    if layout.inFlow || column < layout.margin then layout
    else { layout with
      columns := column :: layout.columns
      tokens := layout.tokens.insertIdxIfInBounds place token }

/-- Opens a block collection in the column of the next character. -/
def openBlockHere (token : Token) : Step Unit := do
  let layout ← get
  openBlock layout.cursor.column layout.tokens.size token

/-- Takes the characters of a token. -/
def take (n : Nat) (token : Token) : Step Unit := do
  read (Reader.skip n)
  push token

/-- Fails if a key must not begin here. -/
def requireKeyAllowed : Step Unit := do
  if (← get).keyAllowed then return () else failure

/-! ## Tokens one by one -/

/-- The mark at the beginning or end of a document. -/
def documentMark (token : Token) : Step Unit := do
  closeBlocks 0
  dropCandidate
  allowKey false
  take 3 token

/-- A directive. -/
def directive : Step Unit := do
  closeBlocks 0
  dropCandidate
  allowKey false
  read Reader.directive
  push .directive

/-- An opening bracket or brace. -/
def openFlow (token : Token) : Step Unit := do
  saveCandidate
  modify fun layout => { layout with
    candidate := none
    around := layout.candidate :: layout.around }
  allowKey true
  take 1 token

/-- A closing bracket or brace. -/
def closeFlow (token : Token) : Step Unit := do
  dropCandidate
  modify fun layout =>
    match layout.around with
    | [] => layout
    | candidate :: around => { layout with candidate, around }
  allowKey false
  take 1 token

/-- The comma between the items of a flow collection. -/
def comma : Step Unit := do
  dropCandidate
  allowKey true
  take 1 .comma

/-- The hyphen in front of an item. -/
def entry : Step Unit := do
  if (← get).inFlow then failure
  requireKeyAllowed
  openBlockHere .sequenceStart
  dropCandidate
  allowKey true
  take 1 .entry

/-- The question mark in front of a key. -/
def key : Step Unit := do
  let flow := (← get).inFlow
  if !flow then
    requireKeyAllowed
    openBlockHere .mappingStart
  dropCandidate
  allowKey (!flow)
  take 1 .key

/-- The colon in front of a value. It turns the candidate into a key. -/
def value : Step Unit := do
  let layout ← get
  match layout.candidate with
  | some candidate =>
    modify fun layout => { layout with
      candidate := none
      tokens := layout.tokens.insertIdxIfInBounds candidate.place .key }
    openBlock candidate.column candidate.place .mappingStart
    allowKey false
  | none =>
    if !layout.inFlow then
      requireKeyAllowed
      openBlockHere .mappingStart
    allowKey (!layout.inFlow)
  take 1 .value

/-- What stands in front of a node or for one and may begin a key. -/
def property (reader : Reader Token) : Step Unit := do
  saveCandidate
  allowKey false
  push (← read reader)

/-- A block scalar. -/
def blockScalar : Step Unit := do
  saveCandidate
  allowKey true
  let content ← read (Yaml.blockScalar (← get).margin)
  push (.scalar (String.ofList content) false)

/-- A quoted scalar. -/
def quoted (double : Bool) : Step Unit := do
  property (do return .scalar (String.ofList (← Yaml.quoted double)) false)
  modify fun layout => { layout with quoteEnd := some layout.cursor.index }

/-- A plain scalar. -/
def plain : Step Unit := do
  saveCandidate
  let layout ← get
  let scalar ← read (Yaml.plain layout.inFlow layout.margin)
  allowKey scalar.broken
  push (.scalar (String.ofList scalar.content) true)

/-- Whether a colon in front of this text is followed by a value. -/
def beginsValue (layout : Layout) (rest : List Char) : Bool :=
  wordEnds rest ||
    (layout.inFlow &&
      (rest.head?.any isFlow || layout.quoteEnd = some layout.cursor.index))

/-- The token that begins with `c`. -/
def token (c : Char) (rest : List Char) : Step Unit := do
  let layout ← get
  match c with
  | '[' => openFlow .bracketL
  | ']' => closeFlow .bracketR
  | '\x7b' => openFlow .braceL
  | '\x7d' => closeFlow .braceR
  | ',' => comma
  | '*' => property (do return .reference (← Reader.anchor))
  | '&' => property (do return .anchor (← Reader.anchor))
  | '!' => property (do return .tag (← Reader.tag))
  | '\'' => quoted false
  | '"' => quoted true
  | '-' => if wordEnds rest then entry else plain
  | '?' => if wordEnds rest then key else plain
  | ':' => if beginsValue layout rest then value else plain
  | _ =>
    if (c = '|' || c = '>') && !layout.inFlow then blockScalar
    else if "%@`".toList.contains c then failure
    else plain

/-- Goes to the next token and takes it, if there is one. -/
def next : Step Unit := do
  separate
  refreshCandidates
  closeBlocks ((← get).cursor.column + 1)
  let cursor := (← get).cursor
  match cursor.rest with
  | [] => return ()
  | c :: rest =>
    if cursor.column = 0 && c = '%' then directive
    else if cursor.atMark "---" then documentMark .documentStart
    else if cursor.atMark "..." then documentMark .documentEnd
    else token c rest

/-- Ends the text. -/
def finish : Step (List Token) := do
  closeBlocks 0
  dropCandidate
  return (← get).tokens.toList

end Step

/-- The tokens up to the end of the text, behind those that have been read. -/
def tokensFrom (layout : Layout) : Option (List Token) :=
  match Step.next.run layout with
  | none => none
  | some (_, following) =>
    if _ : following.cursor.rest.length < layout.cursor.rest.length then tokensFrom following
    else Step.finish.run' following
termination_by layout.cursor.rest.length
decreasing_by assumption

end Layout

/-- Cuts a text into tokens. A null character ends it. -/
def Token.scan (text : String) : Option (List Token) :=
  Layout.tokensFrom { cursor := { rest := text.toList.takeWhile (· != '\x00') } }

end GraphQL.Yaml

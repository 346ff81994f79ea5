import GraphQL.Document
import GraphQL.Document.Token

/-!
# Reading documents

`Document.read?` reads a document, or gives nothing if it does not follow the grammar. Definitions
of types and their extensions follow the grammar too, but leave nothing behind.

Each selection set, list item, object field and list type lies one level deeper than what holds it.
The levels that are left (`room`) bound the recursion, and the tokens that are left bound each
repetition.

Some rules go beyond the standard grammar: an argument or object field without a value is left out;
a comma must not stand between a name and the colon that makes it an alias; the token behind the
three dots, behind a description or behind `extend` must not follow a comma; a schema needs no root
operations, and a root operation no type; and a description of a fragment takes the place of the
word `fragment`, so that only a fragment of that name can be described.
-/

namespace GraphQL.Document

/-- A reading step: takes tokens from the front, or fails. -/
abbrev Reader := StateT (List Token) Option

namespace Reader

open Token (Kind)

/-! ## Steps -/

/-- The next token, left in place. -/
def peek : Reader (Option Token) := do return (← get).head?

/-- The kind of the next token, left in place. -/
def peekKind : Reader (Option Kind) := do return (← peek).map Token.kind

/-- The token behind the next one, left in place. -/
def peekSecond : Reader (Option Token) := do return ((← get).drop 1).head?

/-- Takes the next token. -/
def next : Reader Token := do
  match ← get with
  | [] => failure
  | token :: rest => set rest; return token

/-- Takes the next token, which must be of a given kind. -/
def expect (kind : Kind) : Reader Unit := do
  if (← next).kind = kind then return () else failure

/-- Takes the next token if it is of a given kind, and says whether it was. -/
def accept (kind : Kind) : Reader Bool := do
  if (← peekKind) = some kind then
    let _ ← next
    return true
  else return false

/-- Takes a name. -/
def name : Reader String := do
  match (← next).kind with
  | .name text => return text
  | _ => failure

/-- Takes a given word. -/
def keyword (word : String) : Reader Unit := expect (.name word)

/-- Repeats `step` as long as `goes` says so of the next token; `read` holds the results so far,
    last one first. -/
def repeatWhile {α : Type} (goes : Option Kind → Bool) (step : Reader α) :
    Nat → List α → Reader (List α)
  | 0, read => return read.reverse
  | left + 1, read => do
    if goes (← peekKind) then
      let item ← step
      repeatWhile goes step left (item :: read)
    else return read.reverse

/-- Any number of items, each of which begins with a token that `goes` admits. -/
def many {α : Type} (goes : Option Kind → Bool) (step : Reader α) : Reader (List α) := do
  repeatWhile goes step (← get).length []

/-- At least one item, as `many`. -/
def many1 {α : Type} (goes : Option Kind → Bool) (step : Reader α) : Reader (List α) := do
  let items ← many goes step
  if items.isEmpty then failure else return items

/-- Items between brackets, at least one of them. -/
def enclosed {α : Type} (opening closing : Kind) (goes : Option Kind → Bool) (step : Reader α) :
    Reader (List α) := do
  expect opening
  let items ← many1 goes step
  expect closing
  return items

/-- A part that is there only if the next token is of a given kind. -/
def optional {α : Type} (kind : Kind) (step : Reader α) (otherwise : α) : Reader α := do
  if (← peekKind) = some kind then step else return otherwise

/-- Whether a token is a name. -/
def isName : Option Kind → Bool
  | some (.name _) => true
  | _ => false

/-- Whether a token is of a given kind. -/
def isKind (kind : Kind) (token : Option Kind) : Bool := token = some kind

/-- Whether a token can begin a described definition. -/
def isDescribed : Option Kind → Bool
  | some (.name _) | some (.string _) => true
  | _ => false

/-! ## Values -/

/-- The value that a name stands for. -/
def wordLiteral (word : String) : Literal :=
  if word = "true" then .boolean true
  else if word = "false" then .boolean false
  else if word = "null" then .null
  else .enum word

/-- The rest of an object field or argument behind its name: a colon and a value, or nothing. -/
def valued (value : Reader Literal) : Reader (Option (String × Literal)) := do
  let label ← name
  if ← accept .colon then
    let literal ← value
    return some (label, literal)
  else return none

/-- A value, with `nested` for the values one level down. A constant must not refer to variables. -/
def valueStep (constant : Bool) (nested : Reader Literal) : Reader Literal := do
  match (← next).kind with
  | .dollar => if constant then failure else return .var (← name)
  | .int text => return .int text
  | .float text => return .float text
  | .string content => return .string content
  | .name word => return wordLiteral word
  | .bracketL =>
    let items ← many (fun token => token ≠ some .bracketR) nested
    expect .bracketR
    return .list items
  | .braceL =>
    let fields ← many isName (valued nested)
    expect .braceR
    return .object (fields.filterMap id)
  | _ => failure

/-- A value with so many levels left for its parts. -/
def value (constant : Bool) : Nat → Reader Literal
  | 0 => valueStep constant failure
  | room + 1 => valueStep constant (value constant room)

/-- Arguments in parentheses. -/
def arguments (constant : Bool) (room : Nat) : Reader Arguments := do
  let written ← enclosed .parenL .parenR isName (valued (value constant room))
  return written.filterMap id

/-- A directive. -/
def directive (constant : Bool) (room : Nat) : Reader Directive := do
  expect .atSign
  let label ← name
  return ⟨label, ← optional .parenL (arguments constant room) []⟩

/-- Any number of directives. -/
def directives (constant : Bool) (room : Nat) : Reader (List Directive) :=
  many (isKind .atSign) (directive constant room)

/-! ## Types and variables -/

/-- A type, with `nested` for the item type of a list. -/
def typeStep (nested : Reader TypeRef) : Reader TypeRef := do
  let bare ← (do
    match (← next).kind with
    | .name word => return TypeRef.ofName word
    | .bracketL =>
      let item ← nested
      expect .bracketR
      return .list item
    | _ => failure)
  if ← accept .bang then return .nonNull bare else return bare

/-- A type with so many levels left for list types. -/
def type : Nat → Reader TypeRef
  | 0 => typeStep failure
  | room + 1 => typeStep (type room)

/-- A default value behind its equals sign, if there is one. -/
def defaultValue (room : Nat) : Reader (Option Literal) := do
  if ← accept .equals then return some (← value true room) else return none

/-- The declaration of a variable. -/
def variableDefinition (room : Nat) : Reader VariableDefinition := do
  expect .dollar
  let label ← name
  expect .colon
  let declared ← type room
  let initial ← defaultValue room
  let _ ← directives true room
  return ⟨label, declared, initial⟩

/-! ## Selections -/

/-- The first token of a selection. -/
def beginsSelection : Option Kind → Bool
  | some (.name _) | some .spread => true
  | _ => false

/-- A field, with `nested` for its selection set and `room` for its arguments. -/
def field (room : Nat) (nested : Reader (List Selection)) : Reader Selection := do
  let some first ← peek | failure
  let label ← name
  let second ← peek
  let aliased := second.any fun token => token.kind = .colon && !token.afterComma
  let fieldName ← (do if aliased then expect .colon; name else return label)
  let written ← optional .parenL (arguments false room) []
  let marks ← directives false room
  let selections ← optional .braceL nested []
  return .field (if aliased then some label else none) fieldName written marks selections
    first.location

/-- A type condition: the word `on` and a name. -/
def typeCondition : Reader String := do
  keyword "on"
  name

/-- A fragment spread or an inline fragment, from its three dots on. -/
def fragmentSelection (room : Nat) (nested : Reader (List Selection)) : Reader Selection := do
  expect .spread
  let some token ← peek | failure
  if token.afterComma then failure
  else
    match token.kind with
    | .name word =>
      if word = "on" then
        let condition ← typeCondition
        let marks ← directives false room
        return .inlineFragment (some condition) marks (← nested)
      else
        let label ← name
        return .spread label (← directives false room)
    | _ =>
      let marks ← directives false room
      return .inlineFragment none marks (← nested)

/-- A selection. -/
def selection (room : Nat) (nested : Reader (List Selection)) : Reader Selection := do
  if (← peekKind) = some .spread then fragmentSelection room nested else field room nested

/-- A selection set, one level down. -/
def selectionSet : Nat → Reader (List Selection)
  | 0 => failure
  | room + 1 => enclosed .braceL .braceR beginsSelection (selection room (selectionSet room))

/-! ## Operations and fragments -/

/-- An operation behind its keyword. -/
def operation (kind : OperationKind) (room : Nat) : Reader Definition := do
  let label ← (do if isName (← peekKind) then return some (← name) else return none)
  let definitions ← optional .parenL
    (enclosed .parenL .parenR (isKind .dollar) (variableDefinition room)) []
  let _ ← directives false room
  return .operation kind label definitions (← selectionSet room)

/-- A fragment behind its keyword. -/
def fragment (room : Nat) : Reader Definition := do
  let label ← name
  if label = "on" then failure
  else
    let condition ← typeCondition
    let _ ← directives false room
    return .fragment label condition (← selectionSet room)

/-! ## Definitions of types -/

/-- A step whose result is of no interest. -/
def skim {α : Type} (step : Reader α) : Reader Unit := do
  let _ ← step
  return ()

/-- A part that is there only if the next token is of a given kind; says whether it was. -/
def present {α : Type} (kind : Kind) (step : Reader α) : Reader Bool :=
  optional kind (do skim step; return true) false

/-- A description, if there is one. -/
def description : Reader Unit := do
  match ← peekKind with
  | some (.string _) => skim next
  | _ => return ()

/-- Items with a separator between two and, if need be, in front of the first. -/
def separated {α : Type} (separator : Kind) (step : Reader α) : Reader Unit := do
  let _ ← accept separator
  skim step
  skim (many (isKind separator) (do expect separator; skim step))

/-- An argument or input field with its type and default. -/
def inputValue (room : Nat) : Reader Unit := do
  description
  skim name
  expect .colon
  skim (type room)
  skim (defaultValue room)
  skim (directives true room)

/-- The arguments of a field or directive. -/
def argumentsDefinition (room : Nat) : Reader Unit :=
  skim (enclosed .parenL .parenR isDescribed (inputValue room))

/-- A field of an object type or interface. -/
def fieldDefinition (room : Nat) : Reader Unit := do
  description
  skim name
  skim (present .parenL (argumentsDefinition room))
  expect .colon
  skim (type room)
  skim (directives true room)

/-- The fields of an object type or interface. -/
def fieldsDefinition (room : Nat) : Reader Unit :=
  skim (enclosed .braceL .braceR isDescribed (fieldDefinition room))

/-- One value of an enum. -/
def enumValue (room : Nat) : Reader Unit := do
  description
  let word ← name
  if word = "true" ∨ word = "false" ∨ word = "null" then failure
  else skim (directives true room)

/-- The root type of a kind of operation, which may be missing behind the colon. -/
def rootOperation : Reader Unit := do
  match OperationKind.ofKeyword? (← name) with
  | some _ =>
    expect .colon
    if isName (← peekKind) then skim name else return ()
  | none => failure

/-- Any number of root operations in braces. -/
def rootOperations : Reader (List Unit) := do
  expect .braceL
  let operations ← many isName rootOperation
  expect .braceR
  return operations

/-- The interfaces of an object type or interface, if the next word announces them. -/
def implementing : Reader Bool := do
  if ← accept (.name "implements") then
    separated .amp name
    return true
  else return false

/-- The places where a directive may stand. -/
def directiveLocations : List String :=
  ["QUERY", "MUTATION", "SUBSCRIPTION", "FIELD", "FRAGMENT_DEFINITION", "FRAGMENT_SPREAD",
    "INLINE_FRAGMENT", "VARIABLE_DEFINITION", "SCHEMA", "SCALAR", "OBJECT", "FIELD_DEFINITION",
    "ARGUMENT_DEFINITION", "INTERFACE", "UNION", "ENUM", "ENUM_VALUE", "INPUT_OBJECT",
    "INPUT_FIELD_DEFINITION"]

/-- The name of a place where a directive may stand. -/
def directiveLocation : Reader Unit := do
  if directiveLocations.contains (← name) then return () else failure

/-- The definition of a directive behind its keyword. -/
def directiveDefinition (room : Nat) : Reader Unit := do
  expect .atSign
  skim name
  skim (present .parenL (argumentsDefinition room))
  skim (accept (.name "repeatable"))
  keyword "on"
  separated .pipe directiveLocation

/-- Directives, and whether there were any. -/
def someDirectives (room : Nat) : Reader Bool := do
  return !(← directives true room).isEmpty

/-- What follows the keyword of a type definition or extension. Says whether anything came behind
    the name, which an extension needs. -/
def typeBody (word : String) (room : Nat) : Reader Bool := do
  if word = "schema" then
    let marked ← someDirectives room
    let operations ← optional .braceL rootOperations []
    return marked || !operations.isEmpty
  else
    skim name
    if word = "type" ∨ word = "interface" then
      let implements ← implementing
      let marked ← someDirectives room
      let filled ← present .braceL (fieldsDefinition room)
      return implements || marked || filled
    else
      let marked ← someDirectives room
      let filled ←
        if word = "union" then present .equals (do expect .equals; separated .pipe name)
        else if word = "enum" then
          present .braceL (enclosed .braceL .braceR isDescribed (enumValue room))
        else if word = "input" then
          present .braceL (enclosed .braceL .braceR isDescribed (inputValue room))
        else return false
      return marked || filled

/-- The keywords of type definitions that can be extended. -/
def typeKeywords : List String :=
  ["schema", "scalar", "type", "interface", "union", "enum", "input"]

/-- A definition for types behind its keyword. The braces of a schema are not empty. -/
def typeDefinition (word : String) (room : Nat) : Reader Unit := do
  if word = "directive" then directiveDefinition room
  else if word = "schema" then
    skim (directives true room)
    skim (present .braceL (enclosed .braceL .braceR isName rootOperation))
  else if typeKeywords.contains word then skim (typeBody word room)
  else failure

/-- An extension behind its keyword: more of a type or schema, but not nothing. -/
def extension (room : Nat) : Reader Unit := do
  let token ← next
  match token.kind with
  | .name word =>
    if token.afterComma ∨ ¬ typeKeywords.contains word then failure
    else if ← typeBody word room then return ()
    else failure
  | _ => failure

/-- A definition. -/
def definition (room : Nat) : Reader (Option Definition) := do
  match ← peekKind with
  | some .braceL => return some (.operation .query none [] (← selectionSet room))
  | some (.string _) =>
    skim next
    let some token ← peek | failure
    match token.kind with
    | .name word =>
      if token.afterComma then failure
      else if word = "fragment" then return some (← fragment room)
      else skim next; typeDefinition word room; return none
    | _ => failure
  | _ =>
    let word ← name
    match OperationKind.ofKeyword? word with
    | some kind => return some (← operation kind room)
    | none =>
      if word = "fragment" then return some (← fragment room)
      else if word = "extend" then extension room; return none
      else typeDefinition word room; return none

/-- Definitions up to the end of the document, at least one. -/
def document (room : Nat) : Reader Document := do
  let definitions ← many1 Option.isSome (definition room)
  return definitions.filterMap id

end Reader

/-- Model of `Parser`: how large documents may be. -/
structure Limits where
  /-- The levels of nesting. -/
  depth : Nat
  /-- The pieces of the text. -/
  pieces : Nat
  deriving Repr, DecidableEq

/-- Reads a document. -/
def read? (limits : Limits) (text : String) : Option Document := do
  let tokens ← Token.scan limits.pieces text
  let (document, rest) ← (Reader.document limits.depth).run tokens
  if rest.isEmpty then some document else none

end GraphQL.Document

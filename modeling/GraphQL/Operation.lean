import GraphQL.Document.Reader
import GraphQL.RequestError
import GraphQL.Selection
import GraphQL.Value.Json

/-!
# Executable documents

`ExecutableDocument.ofDocument` makes a document ready for execution. Values are read, selections
that are skipped for good are left out, and so are inline fragments that hold nothing. Fragments
come first, then operations, each in order; the first failure counts.
-/

namespace GraphQL

/-- A fragment: the type it applies to and its selections. -/
structure Fragment where
  condition : String
  selections : List Selection

/-- Fragments by name. -/
abbrev Fragments := Entries Fragment

/-- An operation, with its variables and their defaults. -/
structure Operation where
  name : Option String
  kind : OperationKind
  declared : List (String × Option InputValue)
  selections : List Selection

/-- Model of `Query`: a document that is ready for execution. -/
structure ExecutableDocument where
  fragments : Fragments
  operations : List Operation

/-! ## Values -/

/-- Model of the floats in `input_value_from_ast`: reads a number as a float. -/
def readFloat (written : String) : Except DocumentError InputValue :=
  match (Decimal.ofText written.toList).toFinite? with
  | some f => .ok (.float f)
  | none => .error (.invalidLiteral written)

/-- Model of the integers in `input_value_from_ast`: reads a whole number. What does not fit 64 bits
    becomes a float. -/
def readInt (written : String) : Except DocumentError InputValue :=
  let i := Decimal.signedDigits written.toList
  if fitsInt64 i then .ok (.int (Int64.ofInt i)) else readFloat written

mutual

/-- Model of `input_value_from_ast`: reads a value. Of two fields of one name the last one
    counts. -/
def InputValue.ofLiteral : Document.Literal → Except DocumentError InputValue
  | .null => .ok .null
  | .boolean b => .ok (.boolean b)
  | .int written => readInt written
  | .float written => readFloat written
  | .string s => .ok (.string s)
  | .enum name => .ok (.enum name)
  | .var name => .ok (.var name)
  | .list items => return .list (← InputValue.ofLiterals items)
  | .object fields => return .object (Entries.ofList (← InputValue.ofNamedLiterals fields))

/-- Reads the items of a list. -/
def InputValue.ofLiterals : List Document.Literal → Except DocumentError (List InputValue)
  | [] => .ok []
  | item :: rest => return (← InputValue.ofLiteral item) :: (← InputValue.ofLiterals rest)

/-- Reads named values in order. -/
def InputValue.ofNamedLiterals : List (String × Document.Literal) →
    Except DocumentError (List (String × InputValue))
  | [] => .ok []
  | (name, item) :: rest =>
    return (name, ← InputValue.ofLiteral item) :: (← InputValue.ofNamedLiterals rest)

end

/-! ## Conditions -/

/-- Model of `Condition.parse`: the condition in the argument `if` of a directive, if it says
    anything. -/
def Condition.ofDirective? (directive : Document.Directive) : Option Condition :=
  match List.lookup "if" directive.arguments with
  | some (.boolean true) => some .yes
  | some (.boolean false) => some .no
  | some (.var name) => some (.var name)
  | _ => none

/-- Model of `IncludeSkip.parse`: the conditions in the directives of a selection. A directive that
    says nothing has no effect. -/
def Guard.ofDirectives (directives : List Document.Directive) : Guard where
  includes := (directives.filter (·.name = "include")).map fun directive =>
    (Condition.ofDirective? directive).getD .yes
  skips := (directives.filter (·.name = "skip")).map fun directive =>
    (Condition.ofDirective? directive).getD .no

/-! ## Selections -/

/-- Model of `RECURSION_LIMIT`: the deepest level of selections. -/
def maxSelectionDepth : Nat := 512

mutual

/-- Model of `Selection.from_ast`: makes a selection at a given level ready for execution, or leaves
    it out. -/
def Selection.ofDocument (level : Nat) :
    Document.Selection → Except DocumentError (Option Selection)
  | .field aliasName name arguments directives selections location =>
    if maxSelectionDepth < level then .error .tooDeep
    else
      let guard := Guard.ofDirectives directives
      if guard.alwaysSkips then .ok none
      else do
        let values ← InputValue.ofNamedLiterals arguments
        let below ← Selection.allOfDocument (level + 1) selections
        return some (.field {
          aliasName, name, arguments := values, selections := below
          composite := !selections.isEmpty, guard, location })
  | .inlineFragment condition directives selections =>
    if maxSelectionDepth < level then .error .tooDeep
    else
      let guard := Guard.ofDirectives directives
      if guard.alwaysSkips then .ok none
      else do
        let below ← Selection.allOfDocument (level + 1) selections
        return if below.isEmpty then none else some (.inlineFragment condition guard below)
  | .spread name directives =>
    if maxSelectionDepth < level then .error .tooDeep
    else
      let guard := Guard.ofDirectives directives
      .ok (if guard.alwaysSkips then none else some (.spread name guard))

/-- Model of `lower_set`: makes selections at a given level ready for execution. -/
def Selection.allOfDocument (level : Nat) :
    List Document.Selection → Except DocumentError (List Selection)
  | [] => .ok []
  | selection :: rest => do
    let first ← Selection.ofDocument level selection
    let others ← Selection.allOfDocument level rest
    return first.toList ++ others

end

/-! ## Documents -/

/-- Model of `Fragments.from_ast`: the fragments of a document. Of two definitions of one name the
    last one counts. -/
def Fragments.ofDefinitions : Document → Except DocumentError Fragments :=
  List.foldlM (fun fragments definition =>
    match definition with
    | .fragment name condition selections => do
      let below ← Selection.allOfDocument 0 selections
      return Entries.put fragments name ⟨condition, below⟩
    | .operation .. => .ok fragments) []

/-- Model of `Operation.from_ast`: an operation of a document. -/
def Operation.ofDefinition? : Document.Definition → Except DocumentError (Option Operation)
  | .fragment .. => .ok none
  | .operation kind name definitions selections => do
    let declared ← definitions.mapM fun definition => do
      let value ← definition.defaultValue.mapM InputValue.ofLiteral
      return (definition.name, value)
    let below ← Selection.allOfDocument 0 selections
    return some ⟨name, kind, declared, below⟩

namespace ExecutableDocument

/-- Makes a document ready for execution. -/
def ofDocument (document : Document) : Except DocumentError ExecutableDocument := do
  let fragments ← Fragments.ofDefinitions document
  let operations ← document.mapM Operation.ofDefinition?
  return ⟨fragments, operations.filterMap id⟩

/-- Model of `Query.parse`: reads a document and makes it ready for execution. -/
def read (limits : Document.Limits) (text : String) : Except DocumentError ExecutableDocument :=
  match Document.read? limits text with
  | some document => ofDocument document
  | none => .error .unreadable

/-- Model of `Query.operation`. Picks the operation to execute: the first one of the given name, or
    without a name the only one. -/
def operation (document : ExecutableDocument) (name : Option String) :
    Except OperationError Operation :=
  match name, document.operations with
  | some name, operations =>
    match operations.find? (·.name = some name) with
    | some operation => .ok operation
    | none => .error (.unknownName name)
  | none, [] => .error .noOperation
  | none, [operation] => .ok operation
  | none, operations => .error (.nameRequired operations.length)

end ExecutableDocument

/-- Model of `variables_with_defaults`: the variables of a request, with the defaults of the
    operation for those that are not set. -/
def Operation.complete (operation : Operation) (bindings : Variables) : Variables :=
  operation.declared.foldl (fun known (name, value) =>
    match value with
    | some value => Entries.add known name value
    | none => known) bindings

end GraphQL

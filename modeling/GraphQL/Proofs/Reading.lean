import GraphQL.Proofs.Finishing
import GraphQL.Proofs.ReadingSteps
import GraphQL.Request

/-!
# What requests bring along

The variables of a request refer to no variables themselves: their values are read from JSON, which
has no references, and a default in the document is a constant by the grammar.

That a default is a constant is carried through the reading steps (`Document.Reader.Yields`) to the
whole document, and from there through `ExecutableDocument.ofDocument`.

Results:
* `ExecutableDocument.constant_of_read`: the defaults of a document that is read are constants.
* `ExecutableDocument.closed_complete`: so they add no references to the variables of a request.
* `Request.closed_of_read`: the variables of a request that is read have none.
* `ExecutableDocument.read_of_scan`: what is read of a text with known tokens.
-/

namespace GraphQL

/-! ## Literals -/

namespace Document

/-- A literal without references. -/
inductive Literal.Constant : Literal → Prop
  | null : Constant .null
  | boolean (b : Bool) : Constant (.boolean b)
  | int (written : String) : Constant (.int written)
  | float (written : String) : Constant (.float written)
  | string (s : String) : Constant (.string s)
  | enum (name : String) : Constant (.enum name)
  | list {items : List Literal} : (∀ item ∈ items, item.Constant) → Constant (.list items)
  | object {fields : List (String × Literal)} :
    (∀ field ∈ fields, field.2.Constant) → Constant (.object fields)

/-- The defaults of an operation are constants. -/
def Definition.Constant : Definition → Prop
  | .operation _ _ declared _ =>
    ∀ entry ∈ declared, ∀ literal, entry.defaultValue = some literal → literal.Constant
  | .fragment .. => True

/-! ## Defaults in documents -/

namespace Reader

variable {T : Token → Prop}

theorem wordLiteral_constant (word : String) : (wordLiteral word).Constant := by
  unfold wordLiteral
  split
  · exact .boolean true
  · split
    · exact .boolean false
    · split
      · exact .null
      · exact .enum word

theorem valued_yields {value : Reader Literal} (h : Yields T Literal.Constant value) :
    Yields T (fun entry => ∀ field, entry = some field → field.2.Constant) (valued value) := by
  refine .after fun label => .after fun colon => ?_
  split
  · exact h.bind fun literal hliteral => .pure fun field hfield => by cases hfield; exact hliteral
  · exact .pure nofun

theorem valueStep_yields {nested : Reader Literal} (h : Yields T Literal.Constant nested) :
    Yields T Literal.Constant (valueStep true nested) := by
  refine .after fun token => ?_
  split
  · exact .failure
  · exact .pure (.int _)
  · exact .pure (.float _)
  · exact .pure (.string _)
  · exact .pure (wordLiteral_constant _)
  · exact (h.many _).bind fun items hitems => .after fun _ => .pure (.list hitems)
  · refine ((valued_yields h).many _).bind fun fields hfields => .after fun _ => .pure (.object ?_)
    intro field hm
    obtain ⟨entry, hentry, he⟩ := List.mem_filterMap.mp hm
    exact hfields entry hentry field he
  · exact .failure

/-- The grammar of a constant admits no references. -/
theorem value_yields (room : Nat) : Yields T Literal.Constant (value true room) := by
  induction room with
  | zero => exact valueStep_yields .failure
  | succ room ih => exact valueStep_yields ih

theorem variableDefinition_yields (room : Nat) :
    Yields T (fun entry => ∀ literal, entry.defaultValue = some literal → literal.Constant)
      (variableDefinition room) := by
  have hdefault : Yields T (fun initial => ∀ literal, initial = some literal → literal.Constant)
      (defaultValue room) := by
    refine .after fun equals => ?_
    split
    · exact (value_yields room).bind fun literal hliteral =>
        .pure fun other hother => by cases hother; exact hliteral
    · exact .pure nofun
  exact .after fun _ => .after fun _ => .after fun _ => .after fun _ =>
    hdefault.bind fun _ hinitial => .after fun _ => .pure hinitial

theorem operation_yields (kind : OperationKind) (room : Nat) :
    Yields T Definition.Constant (operation kind room) :=
  .after fun _ =>
    (((variableDefinition_yields room).enclosed _ _ _).optional _ (by simp)).bind
      fun _ hdefinitions => .after fun _ => .after fun _ => .pure hdefinitions

theorem fragment_yields (room : Nat) : Yields T Definition.Constant (fragment room) := by
  refine .after fun label => ?_
  split
  · exact .failure
  · exact .after fun _ => .after fun _ => .after fun _ => .pure trivial

theorem document_yields (room : Nat) :
    Yields T (fun document => ∀ definition ∈ document, definition.Constant) (document room) := by
  have hquery : Yields T
      (fun selections => (Definition.operation .query none [] selections).Constant)
      (selectionSet room) := .of_forall fun _ _ hm => absurd hm List.not_mem_nil
  exact .document (.definition hquery (operation_yields · room) (fragment_yields room))

end Reader

theorem constant_of_read {limits : Limits} {text : String} {document : Document}
    (h : read? limits text = some document) : ∀ definition ∈ document, definition.Constant :=
  forall_of_read? h (fun _ _ _ _ => trivial) (Reader.document_yields limits.depth)

end Document

/-! ## Documents that are ready for execution -/

section

variable {α β ε : Type}

theorem bind_eq_ok_iff {result : Except ε α} {f : α → Except ε β} {b : β} :
    result >>= f = .ok b ↔ ∃ a, result = .ok a ∧ f a = .ok b := by
  cases result with
  | error error =>
    constructor
    · intro h
      cases h
    · rintro ⟨_, ⟨⟩, _⟩
  | ok a =>
    constructor
    · intro h
      exact ⟨a, rfl, h⟩
    · rintro ⟨_, ⟨⟩, h⟩
      exact h

theorem exists_of_mem_mapM {f : α → Except ε β} {items : List α} {results : List β}
    (h : items.mapM f = .ok results) {b : β} (hm : b ∈ results) : ∃ a ∈ items, f a = .ok b := by
  induction items generalizing results with
  | nil => cases h; cases hm
  | cons item rest ih =>
    rw [List.mapM_cons] at h
    obtain ⟨first, hfirst, h⟩ := bind_eq_ok_iff.mp h
    obtain ⟨others, hothers, h⟩ := bind_eq_ok_iff.mp h
    cases h
    rcases List.mem_cons.mp hm with rfl | hm
    · exact ⟨item, List.mem_cons_self, hfirst⟩
    · obtain ⟨other, hother, he⟩ := ih hothers hm
      exact ⟨other, List.mem_cons_of_mem _ hother, he⟩

end

namespace InputValue

theorem ofLiterals_eq_mapM (literals : List Document.Literal) :
    ofLiterals literals = literals.mapM ofLiteral := by
  induction literals with
  | nil => rfl
  | cons literal rest ih => rw [ofLiterals, ih, List.mapM_cons]

theorem ofNamedLiterals_eq_mapM (literals : List (String × Document.Literal)) :
    ofNamedLiterals literals =
      literals.mapM fun entry => return (entry.1, ← ofLiteral entry.2) := by
  induction literals with
  | nil => rfl
  | cons entry rest ih => rw [ofNamedLiterals, ih, List.mapM_cons]; simp

theorem references_readFloat {written : String} {value : InputValue}
    (h : readFloat written = .ok value) : value.references = [] := by
  unfold readFloat at h
  split at h <;> cases h
  rfl

theorem references_readInt {written : String} {value : InputValue}
    (h : readInt written = .ok value) : value.references = [] := by
  unfold readInt at h
  dsimp only at h
  split at h
  · cases h; rfl
  · exact references_readFloat h

/-- A constant is read as a value without references. -/
theorem references_of_constant {literal : Document.Literal} (hconstant : literal.Constant)
    {value : InputValue} (h : ofLiteral literal = .ok value) : value.references = [] := by
  induction hconstant generalizing value with
  | null => cases h; rfl
  | boolean b => cases h; rfl
  | int written => exact references_readInt h
  | float written => exact references_readFloat h
  | string s => cases h; rfl
  | enum name => cases h; rfl
  | @list items _ ih =>
    rw [ofLiteral, ofLiterals_eq_mapM] at h
    obtain ⟨values, hvalues, he⟩ := bind_eq_ok_iff.mp h
    cases he
    rw [references, allReferences_eq_flatMap, List.flatMap_eq_nil_iff]
    intro item hm
    obtain ⟨literal, hliteral, he⟩ := exists_of_mem_mapM hvalues hm
    exact ih literal hliteral he
  | @object fields _ ih =>
    rw [ofLiteral, ofNamedLiterals_eq_mapM] at h
    obtain ⟨values, hvalues, he⟩ := bind_eq_ok_iff.mp h
    cases he
    rw [references, fieldReferences_eq_flatMap, List.flatMap_eq_nil_iff]
    intro field hm
    obtain ⟨entry, hentry, he⟩ := exists_of_mem_mapM hvalues (Entries.mem_of_mem_ofList hm)
    obtain ⟨value, hvalue, he⟩ := bind_eq_ok_iff.mp he
    obtain rfl : (entry.1, value) = field := Except.ok.inj he
    exact ih entry hentry hvalue

end InputValue

/-- The defaults of all operations are constants. -/
def ExecutableDocument.Constant (document : ExecutableDocument) : Prop :=
  ∀ operation ∈ document.operations, ∀ entry ∈ operation.declared,
    ∀ value, entry.2 = some value → value.references = []

theorem Operation.constant_of_definition {definition : Document.Definition}
    (hconstant : definition.Constant) {operation : Operation}
    (h : ofDefinition? definition = .ok (some operation)) {entry : String × Option InputValue}
    (hm : entry ∈ operation.declared) {value : InputValue} (hvalue : entry.2 = some value) :
    value.references = [] := by
  cases definition with
  | fragment name condition selections => cases h
  | operation kind name definitions selections =>
    obtain ⟨declared, hdeclared, h⟩ := bind_eq_ok_iff.mp h
    obtain ⟨below, -, h⟩ := bind_eq_ok_iff.mp h
    cases h
    obtain ⟨declaration, hdeclaration, he⟩ := exists_of_mem_mapM hdeclared hm
    obtain ⟨initial, hinitial, he⟩ := bind_eq_ok_iff.mp he
    cases he
    cases hdefault : declaration.defaultValue with
    | none => rw [hdefault] at hinitial; cases hinitial; cases hvalue
    | some literal =>
      rw [hdefault] at hinitial
      obtain ⟨read, hread, he⟩ := bind_eq_ok_iff.mp hinitial
      cases he
      cases hvalue
      exact InputValue.references_of_constant (hconstant declaration hdeclaration literal hdefault)
        hread

namespace ExecutableDocument

theorem constant_of_ofDocument {document : Document} {executable : ExecutableDocument}
    (hconstant : ∀ definition ∈ document, definition.Constant)
    (h : ofDocument document = .ok executable) : executable.Constant := by
  obtain ⟨fragments, -, h⟩ := bind_eq_ok_iff.mp h
  obtain ⟨operations, hoperations, h⟩ := bind_eq_ok_iff.mp h
  cases h
  intro operation hm entry hentry value hvalue
  obtain ⟨found, hfound, he⟩ := List.mem_filterMap.mp hm
  obtain ⟨definition, hdefinition, hread⟩ := exists_of_mem_mapM hoperations hfound
  rw [id_eq] at he
  exact Operation.constant_of_definition (hconstant definition hdefinition) (he ▸ hread) hentry
    hvalue

/-- The defaults of a document that is read are constants. -/
theorem constant_of_read {limits : Document.Limits} {text : String}
    {document : ExecutableDocument} (h : read limits text = .ok document) : document.Constant := by
  unfold read at h
  split at h
  · next hread => exact constant_of_ofDocument (Document.constant_of_read hread) h
  · cases h

theorem mem_of_operation {document : ExecutableDocument} {name : Option String}
    {operation : Operation} (h : document.operation name = .ok operation) :
    operation ∈ document.operations := by
  unfold ExecutableDocument.operation at h
  split at h
  · split at h
    · next hfind => cases h; exact List.mem_of_find?_eq_some hfind
    · cases h
  · cases h
  · next hone => cases h; rw [hone]; exact List.mem_singleton_self _
  · cases h

end ExecutableDocument

/-! ## Variables -/

/-- Defaults that refer to nothing keep the variables closed. -/
theorem Operation.closed_complete {operation : Operation} {bindings : Variables}
    (hconstant : ∀ entry ∈ operation.declared, ∀ value, entry.2 = some value →
      value.references = [])
    (hclosed : bindings.Closed) : (operation.complete bindings).Closed := by
  unfold complete
  generalize operation.declared = declared at hconstant
  induction declared generalizing bindings with
  | nil => exact hclosed
  | cons entry rest ih =>
    refine ih ?_ fun other hm => hconstant other (List.mem_cons_of_mem _ hm)
    obtain ⟨name, _ | initial⟩ := entry
    · exact hclosed
    · intro key value hfind
      rcases Entries.find?_of_find?_add hfind with hfind | rfl
      · exact hclosed key value hfind
      · exact hconstant _ List.mem_cons_self _ rfl

/-- The same of the defaults in a document that is read. -/
theorem ExecutableDocument.closed_complete {limits : Document.Limits} {text : String}
    {document : ExecutableDocument} (hread : read limits text = .ok document)
    {name : Option String} {operation : Operation}
    (hpicked : document.operation name = .ok operation) {bindings : Variables}
    (hclosed : bindings.Closed) : (operation.complete bindings).Closed :=
  Operation.closed_complete (constant_of_read hread operation (mem_of_operation hpicked)) hclosed

namespace InputValue

mutual

/-- JSON has no references. -/
theorem references_ofJson : ∀ json : Json, (ofJson json).references = []
  | .null | .bool _ | .number (.float _) | .string _ => rfl
  | .number (.integer i) => by
    rw [ofJson]
    split <;> rfl
  | .array items => allReferences_ofJsons items
  | .object members => fieldReferences_ofMembers members

theorem allReferences_ofJsons : ∀ items : List Json, allReferences (ofJsons items) = []
  | [] => rfl
  | item :: rest => by
    rw [ofJsons, allReferences, references_ofJson item, allReferences_ofJsons rest, List.append_nil]

theorem fieldReferences_ofMembers :
    ∀ members : List (String × Json), fieldReferences (ofMembers members) = []
  | [] => rfl
  | (_, json) :: rest => by
    rw [ofMembers, fieldReferences, references_ofJson json, fieldReferences_ofMembers rest,
      List.append_nil]

end

end InputValue

theorem Variables.closed_ofMembers (members : List (String × Json)) :
    Variables.Closed (InputValue.ofMembers members) := by
  intro name value hfind
  have hnone := InputValue.fieldReferences_ofMembers members
  rw [InputValue.fieldReferences_eq_flatMap, List.flatMap_eq_nil_iff] at hnone
  exact hnone _ (Entries.mem_of_find? hfind)

namespace Request

theorem closed_of_readVariables {item : Json.Outline} {bindings : Variables}
    (h : readVariables? item = some bindings) : bindings.Closed := by
  unfold readVariables? at h
  split at h
  · cases h; exact Variables.closed_ofMembers _
  · cases h

/-- There may be no variables at all. -/
theorem closed_of_optional {item : Option Json.Outline} {known : Option Variables}
    (h : Json.Outline.orElse? (·.nullable? readVariables?) none item = some known) :
    (known.getD []).Closed := by
  have hnone : Variables.Closed [] := nofun
  cases item with
  | none => cases h; exact hnone
  | some item =>
    simp only [Json.Outline.orElse?, Json.Outline.nullable?] at h
    split at h
    · cases h; exact hnone
    · obtain ⟨bindings, hbindings, rfl⟩ := Option.map_eq_some_iff.mp h
      exact closed_of_readVariables hbindings

/-- The variables of a request that is read are closed. -/
theorem closed_of_read {body : String} {request : Request} (h : read? body = some request) :
    request.bindings.Closed := by
  obtain ⟨item, -, h⟩ := Option.bind_eq_some_iff.mp h
  unfold ofOutline? at h
  obtain ⟨parts, -, h⟩ := Option.bind_eq_some_iff.mp h
  split at h
  · next query operationName bindings =>
    obtain ⟨known, hknown, h⟩ := Option.bind_eq_some_iff.mp h
    obtain ⟨text, -, h⟩ := Option.bind_eq_some_iff.mp h
    obtain ⟨name, -, h⟩ := Option.bind_eq_some_iff.mp h
    cases h
    exact closed_of_optional hknown
  · cases h

end Request

/-! ## Texts of one line -/

/-- Once the tokens of a text are known, the grammar says what is read of it. -/
theorem ExecutableDocument.read_of_scan {limits : Document.Limits} {text : String}
    {tokens : List Token} {document : Document}
    (hscan : Token.scan limits.pieces text = some tokens)
    (hread : (Document.Reader.document limits.depth).run tokens = some (document, [])) :
    read limits text = ofDocument document := by
  rw [read, Document.read?, hscan, Option.bind_eq_bind, Option.bind_some, hread]
  rfl

namespace Sample

/-- The tokens of a line, with the columns where they begin. -/
def line (tokens : List (Token.Kind × UInt32)) : List Token :=
  tokens.map fun (kind, column) => ⟨kind, ⟨1, column⟩, false⟩

end Sample

end GraphQL

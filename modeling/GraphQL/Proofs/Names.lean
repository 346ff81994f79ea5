import GraphQL.Proofs.Lowering
import GraphQL.Proofs.Reading
import GraphQL.Proofs.ResponseKeys

/-!
# Names in documents

Cutting a text into tokens decides what a name is: letters, digits and underscores, with no digit in
front. Every response key of a document is the text of a name token, and neither reading steps nor
making the document ready for execution add others.

Results:
* `Token.named_of_scan`: what name tokens are made of.
* `Document.keyed_of_read?`: the response keys of a document that is read are names.
* `ExecutableDocument.keyed_of_read`: they still are in the document that is executed.
-/

namespace GraphQL

/-! ## Tokens -/

/-- A letter or an underscore, and then letters, digits and underscores. -/
def IsName (name : String) : Prop :=
  ∃ first rest, name.toList = first :: rest ∧ Token.isNameStart first = true ∧
    ∀ c ∈ rest, Token.isNameContinue c = true

namespace Token

/-- The text of a name token is a name. -/
def Named (token : Token) : Prop := ∀ text, token.kind = .name text → IsName text

theorem punctuator?_ne_name (c : Char) (text : String) : punctuator? c ≠ some (.name text) := by
  unfold punctuator?
  split <;> nofun

theorem number?_ne_name (cs : List Char) (text : String) (n : Nat) :
    number? cs ≠ some (.name text, n) := by
  unfold number?
  split
  · nofun
  · dsimp only
    split
    · split <;> nofun
    · nofun

theorem string?_ne_name (cs : List Char) (text : String) (n : Nat) :
    string? cs ≠ some (.token (.name text), n) := by
  intro h
  unfold string? at h
  split at h
  · obtain ⟨_, -, he⟩ := Option.map_eq_some_iff.mp h
    cases he
  · obtain ⟨_, -, h⟩ := Option.bind_eq_some_iff.mp h
    obtain ⟨_, -, he⟩ := Option.bind_eq_some_iff.mp h
    cases he

theorem isName_of_piece? {c : Char} {rest : List Char} {text : String} {n : Nat}
    (h : piece? c rest = some (.token (.name text), n)) : IsName text := by
  revert h
  fun_cases piece? c rest
  case case1 hpunctuator =>
    rintro ⟨⟩
    exact absurd hpunctuator (punctuator?_ne_name c text)
  case case2 hstart _ =>
    rintro ⟨⟩
    exact ⟨c, _, String.toList_ofList, hstart, fun d hd => List.mem_takeWhile_imp hd⟩
  case case3 =>
    intro h
    obtain ⟨⟨_, length⟩, hnumber, he⟩ := Option.map_eq_some_iff.mp h
    cases he
    exact absurd hnumber (number?_ne_name _ text length)
  case case7 => exact fun h => absurd h (string?_ne_name rest text n)
  all_goals rintro ⟨⟩

theorem named_of_scanFrom {room : Nat} {position : Text.Position} {afterComma : Bool}
    {read : List Token} {cs : List Char} {tokens : List Token}
    (h : scanFrom room position afterComma read cs = some tokens)
    (hread : ∀ token ∈ read, token.Named) : ∀ token ∈ tokens, token.Named := by
  fun_induction scanFrom room position afterComma read cs
  case case2 =>
    cases h
    exact fun token hm => hread token (List.mem_reverse.mp hm)
  case case5 kind hpiece ih =>
    refine ih h (List.forall_mem_cons.mpr ⟨?_, hread⟩)
    rintro text rfl
    exact isName_of_piece? hpiece
  case case6 ih | case7 ih => exact ih h hread
  all_goals cases h

/-- Names in documents are made of letters, digits and underscores. -/
theorem named_of_scan {limit : Nat} {text : String} {tokens : List Token}
    (h : scan limit text = some tokens) : ∀ token ∈ tokens, token.Named :=
  named_of_scanFrom h nofun

end Token

/-! ## Response keys -/

namespace Document

variable {admitted : String → Prop}

/-- Every field in the selection, at any depth, has a response key that is admitted. -/
inductive Selection.Keyed (admitted : String → Prop) : Selection → Prop
  | field {aliasName : Option String} {name : String} (arguments : Arguments)
    (directives : List Directive) {selections : List Selection} (location : Location) :
    admitted (aliasName.getD name) → (∀ selection ∈ selections, selection.Keyed admitted) →
    Keyed admitted (.field aliasName name arguments directives selections location)
  | inlineFragment (condition : Option String) (directives : List Directive)
    {selections : List Selection} : (∀ selection ∈ selections, selection.Keyed admitted) →
    Keyed admitted (.inlineFragment condition directives selections)
  | spread (name : String) (directives : List Directive) : Keyed admitted (.spread name directives)

/-- All response keys of an operation or fragment are admitted. -/
def Definition.Keyed (admitted : String → Prop) (definition : Definition) : Prop :=
  ∀ selection ∈ definition.selections, selection.Keyed admitted

namespace Reader

theorem name_yields : Yields Token.Named IsName name := by
  have hnext : Yields Token.Named Token.Named next := by
    rintro tokens token rest htokens hrun
    cases tokens with
    | nil => cases hrun
    | cons first others =>
      cases hrun
      exact List.forall_mem_cons.mp htokens
  refine hnext.bind fun token htoken => ?_
  split
  · next text htext => exact .pure (htoken text htext)
  · exact .failure

theorem field_yields {nested : Reader (List Selection)} [Takes nested]
    (h : Yields Token.Named (fun selections => ∀ selection ∈ selections, selection.Keyed IsName)
      nested) (room : Nat) :
    Yields Token.Named (Selection.Keyed IsName) (field room nested) := by
  refine .after fun first => ?_
  split
  · refine name_yields.bind fun label hlabel => .after fun second => ?_
    have hname : Yields Token.Named IsName
        (if (second.any fun token => token.kind = .colon && !token.afterComma) then do
          expect .colon
          name
        else return label) := by
      split
      · exact .after fun _ => name_yields
      · exact .pure hlabel
    refine hname.bind fun fieldName hfieldName => .after fun written => .after fun marks => ?_
    refine (h.optional _ (by simp)).bind fun selections hselections => .pure ?_
    refine .field _ _ _ ?_ hselections
    split
    · exact hlabel
    · exact hfieldName
  · exact .failure

theorem fragmentSelection_yields {nested : Reader (List Selection)} [Takes nested]
    (h : Yields Token.Named (fun selections => ∀ selection ∈ selections, selection.Keyed IsName)
      nested) (room : Nat) :
    Yields Token.Named (Selection.Keyed IsName) (fragmentSelection room nested) := by
  have hinline (condition : Option String) (marks : List Directive) :
      Yields Token.Named (Selection.Keyed IsName)
        (do return .inlineFragment condition marks (← nested)) :=
    h.bind fun selections hselections => .pure (.inlineFragment condition marks hselections)
  refine .after fun _ => .after fun token => ?_
  split
  · split
    · exact .failure
    · split
      · split
        · exact .after fun condition => .after fun marks => hinline _ _
        · exact .after fun label => .after fun marks => .pure (.spread _ _)
      · exact .after fun marks => hinline _ _
  · exact .failure

theorem selectionSet_yields (room : Nat) :
    Yields Token.Named (fun selections => ∀ selection ∈ selections, selection.Keyed IsName)
      (selectionSet room) := by
  induction room with
  | zero => exact .failure
  | succ room ih =>
    refine Yields.enclosed ?_ _ _ _
    refine .after fun kind => ?_
    split
    · exact fragmentSelection_yields ih room
    · exact field_yields ih room

theorem document_keyed (room : Nat) :
    Yields Token.Named (fun document => ∀ definition ∈ document, definition.Keyed IsName)
      (document room) := by
  refine .document (.definition (selectionSet_yields room) (fun kind => ?_) ?_)
  · exact .after fun _ => .after fun _ => .after fun _ =>
      (selectionSet_yields room).bind fun selections hselections => .pure hselections
  · refine .after fun label => ?_
    split
    · exact .failure
    · exact .after fun _ => .after fun _ =>
        (selectionSet_yields room).bind fun selections hselections => .pure hselections

end Reader

/-- All response keys of a document that is read are names. -/
theorem keyed_of_read? {limits : Limits} {text : String} {document : Document}
    (h : read? limits text = some document) :
    ∀ definition ∈ document, definition.Keyed IsName :=
  forall_of_read? h (fun _ => Token.named_of_scan) (Reader.document_keyed limits.depth)

namespace Selection

theorem keyed_of_remaining {selections : List Selection} {lowered : List GraphQL.Selection}
    (h : List.Forall₂ Lowers (remaining selections) lowered)
    (hkeyed : ∀ selection ∈ selections, ∀ made, Lowers selection made → made.Keyed admitted) :
    ∀ made ∈ lowered, made.Keyed admitted := by
  intro made hm
  obtain ⟨selection, hselection, hmade⟩ := exists_of_mem_of_forall₂ h.flip hm
  exact hkeyed selection (List.mem_of_mem_filter hselection) made hmade

/-- What becomes of a selection has no other response keys. -/
theorem Keyed.lowered {selection : Selection} (h : selection.Keyed admitted) :
    ∀ made, Lowers selection made → made.Keyed admitted := by
  induction h with
  | field _ _ _ hkey _ ih =>
    rintro _ ⟨⟩
    next hbelow => exact .field hkey (keyed_of_remaining hbelow ih)
  | inlineFragment _ _ _ ih =>
    rintro _ ⟨⟩
    next hbelow => exact .inlineFragment (keyed_of_remaining hbelow ih)
  | spread =>
    rintro _ ⟨⟩
    exact .spread _ _

end Selection

end Document

/-! ## Documents that are ready for execution -/

variable {admitted : String → Prop}

theorem Selection.keyed_of_allOfDocument {level : Nat} {selections : List Document.Selection}
    {lowered : List Selection} (h : allOfDocument level selections = .ok lowered)
    (hkeyed : ∀ selection ∈ selections, selection.Keyed admitted) :
    ∀ selection ∈ lowered, selection.Keyed admitted := by
  have hlowered := ((allReported level selections).ok_cases h).2
  exact Document.Selection.keyed_of_remaining hlowered fun selection hm =>
    (hkeyed selection hm).lowered

/-- What every step keeps holds of the result of a fold. -/
theorem foldlM_induction {α β ε : Type} {step : β → α → Except ε β} {P : β → Prop} {items : List α}
    {first last : β} (h : items.foldlM step first = .ok last) (hfirst : P first)
    (hstep : ∀ item ∈ items, ∀ before after, P before → step before item = .ok after → P after) :
    P last := by
  induction items generalizing first with
  | nil =>
    cases h
    exact hfirst
  | cons item rest ih =>
    rw [List.foldlM_cons] at h
    obtain ⟨next, hnext, h⟩ := bind_eq_ok_iff.mp h
    obtain ⟨hitem, hrest⟩ := List.forall_mem_cons.mp hstep
    exact ih h (hitem first next hfirst hnext) hrest

theorem Fragments.keyed_ofDefinitions {document : Document} {fragments : Fragments}
    (h : ofDefinitions document = .ok fragments)
    (hkeyed : ∀ definition ∈ document, definition.Keyed admitted) : fragments.Keyed admitted := by
  have hempty : Fragments.Keyed admitted [] := nofun
  apply foldlM_induction h hempty
  intro definition hm before after hbefore hstep
  cases definition with
  | operation kind name declared selections =>
    cases hstep
    exact hbefore
  | fragment name condition selections =>
    obtain ⟨below, hbelow, he⟩ := bind_eq_ok_iff.mp hstep
    cases he
    have hwritten : ∀ selection ∈ below, selection.Keyed admitted :=
      Selection.keyed_of_allOfDocument hbelow (hkeyed _ hm)
    intro entry hentry
    rcases Entries.mem_of_mem_put hentry with rfl | hentry
    · exact hwritten
    · exact hbefore entry hentry

theorem Operation.keyed_ofDefinition? {definition : Document.Definition} {operation : Operation}
    (h : ofDefinition? definition = .ok (some operation)) (hkeyed : definition.Keyed admitted) :
    ∀ selection ∈ operation.selections, selection.Keyed admitted := by
  cases definition with
  | fragment name condition selections => cases h
  | operation kind name declared selections =>
    obtain ⟨_, -, h⟩ := bind_eq_ok_iff.mp h
    obtain ⟨below, hbelow, h⟩ := bind_eq_ok_iff.mp h
    cases h
    exact Selection.keyed_of_allOfDocument hbelow hkeyed

/-- All response keys of a document that is read are names. -/
theorem ExecutableDocument.keyed_of_read {limits : Document.Limits} {text : String}
    {document : ExecutableDocument} (h : read limits text = .ok document) :
    document.Keyed IsName := by
  unfold read at h
  split at h
  · next found hfound =>
    have hkeyed := Document.keyed_of_read? hfound
    obtain ⟨fragments, hfragments, h⟩ := bind_eq_ok_iff.mp h
    obtain ⟨operations, hoperations, h⟩ := bind_eq_ok_iff.mp h
    cases h
    refine ⟨Fragments.keyed_ofDefinitions hfragments hkeyed, fun operation hm => ?_⟩
    obtain ⟨_, hmade, he⟩ := List.mem_filterMap.mp hm
    obtain ⟨definition, hdefinition, hread⟩ := exists_of_mem_mapM hoperations hmade
    rw [id_eq] at he
    exact Operation.keyed_ofDefinition? (he ▸ hread) (hkeyed definition hdefinition)
  · cases h

end GraphQL

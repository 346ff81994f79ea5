import GraphQL.Document.Reader

/-!
# Reading steps

A reading step takes tokens from the front of those that are left and makes none up. `Reader.Takes`
says so; its instances follow the form of the steps, so that it is found for every production of the
grammar. `Reader.Yields` says more of a single step: from tokens of one kind, the results are of one
kind, and tokens of that kind are left.

Results:
* `Yields.bind`, `Yields.after`, `Yields.many`, `Yields.optional`: one rule for each way to combine
  steps.
* `Takes` for all productions, from `value` to `typeDefinition`.
* `forall_of_read?`: what is yielded for the tokens of a text holds of the document that is read.
-/

namespace GraphQL.Document

namespace Reader

open Token (Kind)

variable {α β : Type}

/-! ## Steps that take tokens -/

/-- What is left behind the step was there before it. -/
class Takes (step : Reader α) : Prop where
  subset {tokens : List Token} {a : α} {rest : List Token} :
    step.run tokens = some (a, rest) → rest ⊆ tokens

namespace Takes

instance pure (a : α) : Takes (Pure.pure a) where
  subset h := by
    cases h
    exact List.Subset.refl _

instance failure : Takes (Alternative.failure : Reader α) where
  subset h := by cases h

instance get : Takes (MonadState.get : Reader (List Token)) where
  subset h := by
    cases h
    exact List.Subset.refl _

theorem andThen {first : Reader β} {next : β → Reader α} (hfirst : Takes first)
    (hnext : ∀ b, Takes (next b)) : Takes (first >>= next) where
  subset h := by
    rw [StateT.run_bind] at h
    obtain ⟨⟨b, others⟩, hb, h⟩ := Option.bind_eq_some_iff.mp h
    exact List.Subset.trans ((hnext b).subset h) (hfirst.subset hb)

instance bind (first : Reader β) (next : β → Reader α) [Takes first] [∀ b, Takes (next b)] :
    Takes (first >>= next) := andThen inferInstance inferInstance

instance ite (c : Prop) [Decidable c] (yes no : Reader α) [Takes yes] [Takes no] :
    Takes (if c then yes else no) := by
  split <;> infer_instance

end Takes

instance : Takes peek := by unfold peek; infer_instance
instance : Takes peekKind := by unfold peekKind; infer_instance
instance : Takes peekSecond := by unfold peekSecond; infer_instance

instance : Takes next where
  subset {tokens} := by
    cases tokens with
    | nil => rintro _ _ ⟨⟩
    | cons token others =>
      rintro _ _ ⟨⟩
      exact List.subset_cons_self token others

instance (kind : Kind) : Takes (expect kind) := by unfold expect; infer_instance
instance (kind : Kind) : Takes (accept kind) := by unfold accept; infer_instance
instance : Takes name := by
  unfold name
  exact .andThen inferInstance fun token => by split <;> infer_instance
instance (word : String) : Takes (keyword word) := by unfold keyword; infer_instance

instance (goes : Option Kind → Bool) (step : Reader α) [Takes step] (left : Nat) (read : List α) :
    Takes (repeatWhile goes step left read) := by
  induction left generalizing read with
  | zero => unfold repeatWhile; infer_instance
  | succ left ih => unfold repeatWhile; infer_instance

instance (goes : Option Kind → Bool) (step : Reader α) [Takes step] : Takes (many goes step) := by
  unfold many; infer_instance
instance (goes : Option Kind → Bool) (step : Reader α) [Takes step] : Takes (many1 goes step) := by
  unfold many1; infer_instance
instance (opening closing : Kind) (goes : Option Kind → Bool) (step : Reader α) [Takes step] :
    Takes (enclosed opening closing goes step) := by
  unfold enclosed; infer_instance
instance (kind : Kind) (step : Reader α) [Takes step] (otherwise : α) :
    Takes (optional kind step otherwise) := by
  unfold optional; infer_instance

/-! ## Results of steps -/

/-- From tokens with the property `T` the results of a step have the property `P`, and what is left
    are tokens with the property `T`. -/
def Yields (T : Token → Prop) (P : α → Prop) (step : Reader α) : Prop :=
  ∀ tokens a rest, (∀ token ∈ tokens, T token) → step.run tokens = some (a, rest) →
    P a ∧ ∀ token ∈ rest, T token

namespace Yields

variable {T : Token → Prop} {P : α → Prop} {Q : β → Prop} {step : Reader α}

theorem pure {a : α} (h : P a) : Yields T P (Pure.pure a) := by
  rintro tokens _ rest htokens ⟨⟩
  exact ⟨h, htokens⟩

theorem failure : Yields T P Alternative.failure := by
  rintro tokens a rest - ⟨⟩

theorem bind {next : Reader β} {f : β → Reader α} (hnext : Yields T Q next)
    (h : ∀ b, Q b → Yields T P (f b)) : Yields T P (next >>= f) := by
  intro tokens a rest htokens hrun
  rw [StateT.run_bind] at hrun
  obtain ⟨⟨b, others⟩, hfirst, hsecond⟩ := Option.bind_eq_some_iff.mp hrun
  obtain ⟨hb, hothers⟩ := hnext tokens b others htokens hfirst
  exact h b hb others a rest hothers hsecond

theorem of_forall [Takes step] (h : ∀ a, P a) : Yields T P step := by
  intro tokens a rest htokens hrun
  have hrest : rest ⊆ tokens := Takes.subset hrun
  exact ⟨h a, fun token hm => htokens token (hrest hm)⟩

/-- A step behind one of which nothing need be known. -/
theorem after {next : Reader β} [Takes next] {f : β → Reader α} (h : ∀ b, Yields T P (f b)) :
    Yields T P (next >>= f) := by
  have hnext : Yields T (fun _ => True) next := of_forall fun _ => trivial
  exact bind hnext fun b _ => h b

theorem repeatWhile (h : Yields T P step) (goes : Option Kind → Bool) (left : Nat)
    {read : List α} (hread : ∀ a ∈ read, P a) :
    Yields T (fun items => ∀ a ∈ items, P a) (repeatWhile goes step left read) := by
  have hstop : ∀ {read : List α}, (∀ a ∈ read, P a) → ∀ a ∈ read.reverse, P a :=
    fun hread a hm => hread a (List.mem_reverse.mp hm)
  induction left generalizing read with
  | zero => exact pure (hstop hread)
  | succ left ih =>
    apply after
    intro kind
    split
    · apply bind h
      intro item hitem
      exact ih (List.forall_mem_cons.mpr ⟨hitem, hread⟩)
    · exact pure (hstop hread)

theorem many (h : Yields T P step) (goes : Option Kind → Bool) :
    Yields T (fun items => ∀ a ∈ items, P a) (many goes step) :=
  after fun _ => h.repeatWhile goes _ (by simp)

theorem many1 (h : Yields T P step) (goes : Option Kind → Bool) :
    Yields T (fun items => ∀ a ∈ items, P a) (many1 goes step) := by
  refine (h.many goes).bind fun items hitems => ?_
  split
  · exact failure
  · exact pure hitems

theorem enclosed (h : Yields T P step) (opening closing : Kind) (goes : Option Kind → Bool) :
    Yields T (fun items => ∀ a ∈ items, P a) (enclosed opening closing goes step) := by
  apply after
  intro _
  apply (h.many1 goes).bind
  intro items hitems
  exact after fun _ => pure hitems

theorem optional (h : Yields T P step) (kind : Kind) {otherwise : α} (ho : P otherwise) :
    Yields T P (optional kind step otherwise) := by
  refine after fun kind => ?_
  split
  · exact h
  · exact pure ho

end Yields

/-! ## Productions

Long sequences are taken apart behind their first step, because instances are not searched through
many steps at once. So are steps that look at a token. -/

section Values

variable (constant : Bool) (room : Nat)

instance (value : Reader Literal) [Takes value] : Takes (valued value) := by
  unfold valued; infer_instance

instance (nested : Reader Literal) [Takes nested] : Takes (valueStep constant nested) := by
  unfold valueStep
  exact .andThen inferInstance fun token => by split <;> infer_instance

instance : Takes (value constant room) := by
  induction room with
  | zero => unfold value; infer_instance
  | succ room ih => unfold value; infer_instance

instance : Takes (arguments constant room) := by unfold arguments; infer_instance
instance : Takes (directive constant room) := by unfold directive; infer_instance
instance : Takes (directives constant room) := by unfold directives; infer_instance

instance (nested : Reader TypeRef) [Takes nested] : Takes (typeStep nested) := by
  unfold typeStep
  refine .andThen ?_ inferInstance
  exact .andThen inferInstance fun token => by split <;> infer_instance

instance : Takes (type room) := by
  induction room with
  | zero => unfold type; infer_instance
  | succ room ih => unfold type; infer_instance

instance : Takes (defaultValue room) := by unfold defaultValue; infer_instance
instance : Takes (variableDefinition room) := by unfold variableDefinition; infer_instance

end Values

section Selections

variable (room : Nat) (nested : Reader (List Selection)) [Takes nested]

instance : Takes (field room nested) := by
  unfold field
  exact .andThen inferInstance fun token => by split <;> infer_instance

instance : Takes typeCondition := by unfold typeCondition; infer_instance

instance : Takes (fragmentSelection room nested) := by
  unfold fragmentSelection
  refine .andThen inferInstance fun _ => .andThen inferInstance fun token => ?_
  split
  · split
    · infer_instance
    · split <;> infer_instance
  · infer_instance

instance : Takes (selection room nested) := by unfold selection; infer_instance

instance : Takes (selectionSet room) := by
  induction room with
  | zero => unfold selectionSet; infer_instance
  | succ room ih => unfold selectionSet; infer_instance

end Selections

section Definitions

variable (room : Nat)

instance (kind : OperationKind) : Takes (operation kind room) := by
  unfold operation; infer_instance
instance : Takes (fragment room) := by unfold fragment; infer_instance

instance (step : Reader α) [Takes step] : Takes (skim step) := by unfold skim; infer_instance
instance (kind : Kind) (step : Reader α) [Takes step] : Takes (present kind step) := by
  unfold present; infer_instance

instance : Takes description := by
  unfold description
  exact .andThen inferInstance fun kind => by split <;> infer_instance

instance (separator : Kind) (step : Reader α) [Takes step] : Takes (separated separator step) := by
  unfold separated; infer_instance

instance : Takes (inputValue room) := by
  unfold inputValue
  exact .andThen inferInstance fun _ => inferInstance

instance : Takes (argumentsDefinition room) := by unfold argumentsDefinition; infer_instance

instance : Takes (fieldDefinition room) := by
  unfold fieldDefinition
  exact .andThen inferInstance fun _ => inferInstance

instance : Takes (fieldsDefinition room) := by unfold fieldsDefinition; infer_instance
instance : Takes (enumValue room) := by unfold enumValue; infer_instance

instance : Takes rootOperation := by
  unfold rootOperation
  exact .andThen inferInstance fun word => by split <;> infer_instance

instance : Takes rootOperations := by unfold rootOperations; infer_instance
instance : Takes implementing := by unfold implementing; infer_instance
instance : Takes directiveLocation := by unfold directiveLocation; infer_instance

instance : Takes (directiveDefinition room) := by
  unfold directiveDefinition
  exact .andThen inferInstance fun _ => inferInstance

instance : Takes (someDirectives room) := by unfold someDirectives; infer_instance
instance (word : String) : Takes (typeBody word room) := by unfold typeBody; infer_instance
instance (word : String) : Takes (typeDefinition word room) := by
  unfold typeDefinition; infer_instance

instance : Takes (extension room) := by
  unfold extension
  exact .andThen inferInstance fun token => by split <;> infer_instance

end Definitions

/-! ## Documents -/

section Documents

variable {T : Token → Prop} {P : Definition → Prop} {room : Nat}

/-- Definitions of types leave nothing behind, so only operations and fragments count. -/
theorem Yields.definition
    (hquery : Yields T (fun selections => P (.operation .query none [] selections))
      (selectionSet room))
    (hoperation : ∀ kind, Yields T P (operation kind room))
    (hfragment : Yields T P (fragment room)) :
    Yields T (fun read => ∀ definition, read = some definition → P definition)
      (Reader.definition room) := by
  have hsome : ∀ definition : Definition, P definition →
      ∀ other, some definition = some other → P other :=
    fun _ hdefinition _ he => Option.some.inj he ▸ hdefinition
  have hnone : ∀ other : Definition, none = some other → P other := fun _ he => by cases he
  have hread : Yields T (fun read => ∀ definition, read = some definition → P definition)
      (do return some (← fragment room)) :=
    hfragment.bind fun definition hdefinition => .pure (hsome definition hdefinition)
  refine .after fun kind => ?_
  split
  · exact hquery.bind fun _ hselections => .pure (hsome _ hselections)
  · refine .after fun _ => .after fun token => ?_
    split
    · split
      · split
        · exact .failure
        · split
          · exact hread
          · exact .after fun _ => .after fun _ => .pure hnone
      · exact .failure
    · exact .failure
  · refine .after fun word => ?_
    split
    · exact (hoperation _).bind fun definition hdefinition => .pure (hsome definition hdefinition)
    · split
      · exact hread
      · split <;> exact .after fun _ => .pure hnone

theorem Yields.document
    (h : Yields T (fun read => ∀ definition, read = some definition → P definition)
      (Reader.definition room)) :
    Yields T (fun document => ∀ definition ∈ document, P definition) (Reader.document room) := by
  refine (h.many1 _).bind fun read hread => .pure fun definition hm => ?_
  obtain ⟨entry, hentry, he⟩ := List.mem_filterMap.mp hm
  exact hread entry hentry definition he

end Documents

end Reader

/-- What holds of all documents that can be read from the tokens of a text. -/
theorem forall_of_read? {limits : Limits} {text : String} {document : Document}
    (h : read? limits text = some document) {T : Token → Prop}
    (hscan : ∀ tokens, Token.scan limits.pieces text = some tokens → ∀ token ∈ tokens, T token)
    {P : Definition → Prop}
    (hdocument : Reader.Yields T (fun document => ∀ definition ∈ document, P definition)
      (Reader.document limits.depth)) :
    ∀ definition ∈ document, P definition := by
  obtain ⟨tokens, htokens, h⟩ := Option.bind_eq_some_iff.mp h
  obtain ⟨⟨found, rest⟩, hfound, h⟩ := Option.bind_eq_some_iff.mp h
  dsimp only at h
  split at h
  · cases h
    exact (hdocument tokens _ rest (hscan tokens htokens) hfound).1
  · cases h

end GraphQL.Document

import GraphQL.Proofs.BareOutcomes
import GraphQL.Proofs.Pruning
import GraphQL.Proofs.Reading
import GraphQL.Proofs.Replies
import GraphQL.Proofs.Service
import GraphQL.Proofs.Settling

/-!
# Settled conditions do not change responses

A condition on a variable is evaluated when fields are collected, a settled one when the document is
read: what it skips is left out then and there. `Compares` says how the two readings may differ. Both
fail alike, or the settled one is spared the error of a selection that it leaves out, or both give
executable documents of which the second is the first one pruned. Pruned selections collect the
same fields, so what has been read is executed alike, unless a field is left bare (`Context.Bares`).

Results:
* `Selection.compares_allOfDocument`: how selections are read with and without settled conditions.
* `ExecutableDocument.compares_ofDocument`: the same of documents.
* `settled_conditions_agree`: no request tells the documents apart, except by an error that the
  settled one is spared, or by a field that it bares.
* `settled_data_ne`: where a bared field shows, the data differs.
-/

namespace GraphQL

/-! ## Reading selections -/

open Document (Directive)

variable {name : String} {b : Bool}

/-- How reading compares with and without settled conditions: it fails with the same error, it gives
    related results, or the settled conditions spare it the error of a selection. -/
inductive Compares {α β : Type} (places : List Document.Place) (R : α → β → Prop) :
    Except DocumentError α → Except DocumentError β → Prop where
  | failed (error : DocumentError) : Compares places R (.error error) (.error error)
  | read {a : α} {b : β} : R a b → Compares places R (.ok a) (.ok b)
  | spared {place : Document.Place} {error : DocumentError} (settled : Except DocumentError β) :
    place ∈ places → place.Spared →
    Selection.ofDocument place.level place.selection = .error error →
    Compares places R (.error error) settled

theorem Compares.bind {α β γ δ : Type} {places : List Document.Place} {R : α → β → Prop}
    {S : γ → δ → Prop} {x : Except DocumentError α} {y : Except DocumentError β}
    {f : α → Except DocumentError γ} {g : β → Except DocumentError δ}
    (h : Compares places R x y)
    (hnext : ∀ a b, x = .ok a → y = .ok b → R a b → Compares places S (f a) (g b)) :
    Compares places S (x >>= f) (y >>= g) := by
  cases h with
  | failed error => exact .failed error
  | read hab => exact hnext _ _ rfl rfl hab
  | spared settled hm hspared herror => exact .spared _ hm hspared herror

theorem Compares.refl {α : Type} {places : List Document.Place} (x : Except DocumentError α) :
    Compares places Eq x x := by
  cases x with
  | error error => exact .failed error
  | ok a => exact .read rfl

namespace Selection

open Document.Selection (Settles)

/-- What is too deep cannot be read. -/
theorem ofDocument_of_tooDeep {level : Nat} (h : maxSelectionDepth < level)
    (selection : Document.Selection) : ofDocument level selection = .error .tooDeep := by
  cases selection <;> simp only [ofDocument, h, ite_true]

/-- What is skipped for good is left out. -/
theorem ofDocument_of_alwaysSkips {level : Nat} (h : level ≤ maxSelectionDepth)
    {selection : Document.Selection} (hskips : selection.guard.alwaysSkips = true) :
    ofDocument level selection = .ok none := by
  have hlevel : ¬ maxSelectionDepth < level := Nat.not_lt.mpr h
  cases selection <;> simp_all [ofDocument, Document.Selection.guard]

section Equations

variable {level : Nat} {directives : List Directive} {below : List Document.Selection}

theorem ofDocument_field (hlevel : level ≤ maxSelectionDepth)
    (hkept : (Guard.ofDirectives directives).alwaysSkips = false) (aliasName : Option String)
    (fieldName : String) (arguments : Document.Arguments) (location : Location) :
    ofDocument level (.field aliasName fieldName arguments directives below location) =
      (InputValue.ofNamedLiterals arguments >>= fun values =>
        allOfDocument (level + 1) below >>= fun selections =>
          .ok (some (.field ⟨aliasName, fieldName, values, selections, !below.isEmpty,
            Guard.ofDirectives directives, location⟩))) := by
  simp only [ofDocument, Nat.not_lt.mpr hlevel, hkept, ite_false, Bool.false_eq_true]
  rfl

theorem ofDocument_inlineFragment (hlevel : level ≤ maxSelectionDepth)
    (hkept : (Guard.ofDirectives directives).alwaysSkips = false) (condition : Option String) :
    ofDocument level (.inlineFragment condition directives below) =
      (allOfDocument (level + 1) below >>= fun selections =>
        .ok (if selections.isEmpty then none
          else some (.inlineFragment condition (Guard.ofDirectives directives) selections))) := by
  simp only [ofDocument, Nat.not_lt.mpr hlevel, hkept, ite_false, Bool.false_eq_true]
  rfl

theorem ofDocument_spread (hlevel : level ≤ maxSelectionDepth)
    (hkept : (Guard.ofDirectives directives).alwaysSkips = false) (fragment : String) :
    ofDocument level (.spread fragment directives) =
      .ok (some (.spread fragment (Guard.ofDirectives directives))) := by
  simp only [ofDocument, Nat.not_lt.mpr hlevel, hkept, ite_false, Bool.false_eq_true]

end Equations

/-- Reading keeps the conditions. -/
theorem guard_of_ofDocument {level : Nat} {selection : Document.Selection} {read : Selection}
    (h : ofDocument level selection = .ok (some read)) : read.guard = selection.guard := by
  have hlevel : level ≤ maxSelectionDepth := by
    rcases Nat.lt_or_ge maxSelectionDepth level with hdeep | hlevel
    · rw [ofDocument_of_tooDeep hdeep] at h
      cases h
    · exact hlevel
  cases hskips : selection.guard.alwaysSkips with
  | true =>
    rw [ofDocument_of_alwaysSkips hlevel hskips] at h
    cases h
  | false =>
    cases selection with
    | field =>
      rw [ofDocument_field hlevel hskips] at h
      obtain ⟨values, -, h⟩ := bind_eq_ok_iff.mp h
      obtain ⟨selections, -, h⟩ := bind_eq_ok_iff.mp h
      cases h
      rfl
    | inlineFragment =>
      rw [ofDocument_inlineFragment hlevel hskips] at h
      obtain ⟨selections, -, h⟩ := bind_eq_ok_iff.mp h
      split at h
      · cases h
      · cases h
        rfl
    | spread =>
      rw [ofDocument_spread hlevel hskips] at h
      cases h
      rfl

variable {places : List Document.Place}

/-- A selection that is left out for good with settled conditions is skipped without. -/
theorem compares_of_alwaysSkips {level : Nat} {selection settled : Document.Selection}
    (h : Settles name b selection settled) (hlevel : level ≤ maxSelectionDepth)
    (hskips : settled.guard.alwaysSkips = true)
    (hplace : ⟨level, selection, settled⟩ ∈ places) :
    Compares places (fun one other => PrunedAll (Binds name b) one.toList other.toList)
      (ofDocument level selection) (ofDocument level settled) := by
  have hagrees : selection.guard.Agrees (Binds name b) settled.guard := by
    cases h with
    | field _ _ _ _ hdirectives => exact Guard.agrees_ofDirectives hdirectives
    | inlineFragment _ hdirectives => exact Guard.agrees_ofDirectives hdirectives
    | spread _ hdirectives => exact Guard.agrees_ofDirectives hdirectives
  rw [ofDocument_of_alwaysSkips hlevel hskips]
  cases hkept : selection.guard.alwaysSkips with
  | true =>
    rw [ofDocument_of_alwaysSkips hlevel hkept]
    exact .read .nil
  | false =>
    cases hread : ofDocument level selection with
    | error error => exact .spared _ hplace ⟨hlevel, hkept, hskips⟩ hread
    | ok read =>
      cases read with
      | none => exact .read .nil
      | some read =>
        refine .read (.skipped (fun bindings hbound => ?_) .nil)
        rw [guard_of_ofDocument hread, ← hagrees bindings hbound]
        exact Guard.skipsWith_of_alwaysSkips hskips bindings

/-- What is too deep fails and what is left out for good is skipped, so only selections that stay
    have to be compared. -/
theorem compares_of_kept {level : Nat} {selection settled : Document.Selection}
    (h : Settles name b selection settled) (hplace : ⟨level, selection, settled⟩ ∈ places)
    (hkept : level ≤ maxSelectionDepth → settled.guard.alwaysSkips = false →
      Compares places (fun one other => PrunedAll (Binds name b) one.toList other.toList)
        (ofDocument level selection) (ofDocument level settled)) :
    Compares places (fun one other => PrunedAll (Binds name b) one.toList other.toList)
      (ofDocument level selection) (ofDocument level settled) := by
  rcases Nat.lt_or_ge maxSelectionDepth level with hdeep | hlevel
  · rw [ofDocument_of_tooDeep hdeep, ofDocument_of_tooDeep hdeep]
    exact .failed _
  · cases hskips : settled.guard.alwaysSkips with
    | true => exact compares_of_alwaysSkips h hlevel hskips hplace
    | false => exact hkept hlevel hskips

section Fields

variable {level : Nat} {aliasName : Option String} {fieldName : String}
  {arguments : Document.Arguments} {location : Location} {directives directives' : List Directive}
  {below below' : List Document.Selection}

theorem compares_field
    (hdirectives : List.Forall₂ (Directive.Settles name b) directives directives')
    (hsettles : List.Forall₂ (Settles name b) below below')
    (hlevel : level ≤ maxSelectionDepth)
    (hkept : (Guard.ofDirectives directives).alwaysSkips = false)
    (hkept' : (Guard.ofDirectives directives').alwaysSkips = false)
    (hbelow : Compares places (PrunedAll (Binds name b))
      (allOfDocument (level + 1) below) (allOfDocument (level + 1) below')) :
    Compares places
      (fun one other => PrunedAll (Binds name b) one.toList other.toList)
      (ofDocument level (.field aliasName fieldName arguments directives below location))
      (ofDocument level (.field aliasName fieldName arguments directives' below' location)) := by
  have hcomposite : below'.isEmpty = below.isEmpty := by
    cases hsettles <;> rfl
  rw [ofDocument_field hlevel hkept, ofDocument_field hlevel hkept', hcomposite]
  refine (Compares.refl (InputValue.ofNamedLiterals arguments)).bind ?_
  rintro values _ - - rfl
  refine hbelow.bind ?_
  rintro selections selections' - - hpruned
  exact .read (.keep (.field _ (Guard.agrees_ofDirectives hdirectives) hpruned) .nil)

theorem compares_inlineFragment {condition : Option String}
    (hdirectives : List.Forall₂ (Directive.Settles name b) directives directives')
    (hlevel : level ≤ maxSelectionDepth)
    (hkept : (Guard.ofDirectives directives).alwaysSkips = false)
    (hkept' : (Guard.ofDirectives directives').alwaysSkips = false)
    (hbelow : Compares places (PrunedAll (Binds name b))
      (allOfDocument (level + 1) below) (allOfDocument (level + 1) below')) :
    Compares places
      (fun one other => PrunedAll (Binds name b) one.toList other.toList)
      (ofDocument level (.inlineFragment condition directives below))
      (ofDocument level (.inlineFragment condition directives' below')) := by
  rw [ofDocument_inlineFragment hlevel hkept, ofDocument_inlineFragment hlevel hkept']
  refine hbelow.bind ?_
  rintro selections selections' - - hpruned
  refine .read ?_
  cases selections with
  | nil =>
    rw [hpruned.eq_nil]
    exact .nil
  | cons selection rest =>
    cases selections' with
    | nil => exact .emptied hpruned .nil
    | cons => exact .keep (.inlineFragment _ (Guard.agrees_ofDirectives hdirectives) hpruned) .nil

end Fields

mutual

/-- Reading a selection compares with and without settled conditions. -/
theorem compares_ofDocument :
    ∀ (level : Nat) (selection settled : Document.Selection),
      Settles name b selection settled → Document.Selection.places level selection settled ⊆ places →
      Compares places
        (fun one other => PrunedAll (Binds name b) one.toList other.toList)
        (ofDocument level selection) (ofDocument level settled)
  | level, .field aliasName fieldName arguments directives below location,
      .field _ _ _ directives' below' _, .field _ _ _ _ hdirectives hbelow, hplaces => by
    rw [Document.Selection.places, List.cons_subset] at hplaces
    refine compares_of_kept (.field _ _ _ _ hdirectives hbelow) hplaces.1 fun hlevel hkept => ?_
    have hplaces' := hplaces.2
    rw [hkept, ite_cond_eq_false _ _ (by simp)] at hplaces'
    exact compares_field hdirectives hbelow hlevel
      (Guard.alwaysSkips_eq_false hdirectives hkept) hkept
      (compares_allOfDocument (level + 1) below below' hbelow hplaces')
  | level, .inlineFragment condition directives below, .inlineFragment _ directives' below',
      .inlineFragment _ hdirectives hbelow, hplaces => by
    rw [Document.Selection.places, List.cons_subset] at hplaces
    refine compares_of_kept (.inlineFragment _ hdirectives hbelow) hplaces.1 fun hlevel hkept => ?_
    have hplaces' := hplaces.2
    rw [hkept, ite_cond_eq_false _ _ (by simp)] at hplaces'
    exact compares_inlineFragment hdirectives hlevel
      (Guard.alwaysSkips_eq_false hdirectives hkept) hkept
      (compares_allOfDocument (level + 1) below below' hbelow hplaces')
  | level, .spread fragment directives, .spread _ directives', .spread _ hdirectives, hplaces => by
    have hplace := hplaces (List.mem_singleton_self _)
    refine compares_of_kept (.spread _ hdirectives) hplace fun hlevel hkept => ?_
    rw [ofDocument_spread hlevel (Guard.alwaysSkips_eq_false hdirectives hkept),
      ofDocument_spread hlevel hkept]
    exact .read (.keep (.spread _ (Guard.agrees_ofDirectives hdirectives)) .nil)

/-- The same of a list of selections. -/
theorem compares_allOfDocument :
    ∀ (level : Nat) (selections settled : List Document.Selection),
      List.Forall₂ (Settles name b) selections settled →
      Document.Selection.allPlaces level selections settled ⊆ places →
      Compares places (PrunedAll (Binds name b))
        (allOfDocument level selections) (allOfDocument level settled)
  | _, [], [], _, _ => .read .nil
  | level, selection :: rest, settled :: others, h, hplaces => by
    obtain ⟨hhead, htail⟩ := List.forall₂_cons.mp h
    have hplaces' := List.append_subset.mp hplaces
    rw [allOfDocument, allOfDocument]
    refine (compares_ofDocument level selection settled hhead hplaces'.1).bind ?_
    intro first first' _ _ hfirst
    refine (compares_allOfDocument level rest others htail hplaces'.2).bind ?_
    intro more more' _ _ hmore
    exact .read (hfirst.append hmore)

end

end Selection

/-! ## Reading documents -/

variable {places : List Document.Place} {known : Variables → Prop}

theorem Compares.mapM {α β γ δ : Type} {Q : α → β → Prop} {R : γ → δ → Prop}
    {f : α → Except DocumentError γ} {g : β → Except DocumentError δ} {xs : List α} {ys : List β}
    (h : List.Forall₂ Q xs ys)
    (hstep : ∀ entry ∈ xs.zip ys, Q entry.1 entry.2 → Compares places R (f entry.1) (g entry.2)) :
    Compares places (List.Forall₂ R) (xs.mapM f) (ys.mapM g) := by
  induction h with
  | nil => exact .read .nil
  | @cons x y xs ys hhead _ ih =>
    rw [List.mapM_cons, List.mapM_cons]
    refine (hstep (x, y) List.mem_cons_self hhead).bind fun first first' _ _ hfirst => ?_
    refine (ih fun entry hm => hstep entry (List.mem_cons_of_mem _ hm)).bind ?_
    intro more more' _ _ hmore
    exact .read (.cons hfirst hmore)

theorem Compares.foldlM {α β γ δ : Type} {Q : α → β → Prop} {R : γ → δ → Prop}
    {f : γ → α → Except DocumentError γ} {g : δ → β → Except DocumentError δ} {xs : List α}
    {ys : List β} (h : List.Forall₂ Q xs ys)
    (hstep : ∀ entry ∈ xs.zip ys, Q entry.1 entry.2 → ∀ a b, R a b →
      Compares places R (f a entry.1) (g b entry.2)) {a : γ} {b : δ} (hab : R a b) :
    Compares places R (xs.foldlM f a) (ys.foldlM g b) := by
  induction h generalizing a b with
  | nil => exact .read hab
  | @cons x y xs ys hhead _ ih =>
    rw [List.foldlM_cons, List.foldlM_cons]
    refine (hstep (x, y) List.mem_cons_self hhead a b hab).bind fun next next' _ _ hnext => ?_
    exact ih (fun entry hm => hstep entry (List.mem_cons_of_mem _ hm)) hnext

theorem Collection.PrunedFragments.put {fragments others : Fragments}
    (h : PrunedFragments known fragments others) (fragmentName condition : String)
    {selections remaining : List Selection}
    (hselections : Selection.PrunedAll known selections remaining) :
    PrunedFragments known (Entries.put fragments fragmentName ⟨condition, selections⟩)
      (Entries.put others fragmentName ⟨condition, remaining⟩) := by
  induction h with
  | nil => exact .cons ⟨rfl, rfl, hselections⟩ .nil
  | @cons one other _ _ hhead htail ih =>
    obtain ⟨key, one⟩ := one
    obtain ⟨_, other⟩ := other
    obtain ⟨rfl, hother⟩ := hhead
    rw [Entries.put, Entries.put]
    split
    · exact .cons ⟨rfl, rfl, hselections⟩ htail
    · exact .cons ⟨rfl, hother⟩ ih

/-- The operations in a list of definitions. -/
theorem forall₂_filterMap_id {α β : Type} {R : α → β → Prop} {xs : List (Option α)}
    {ys : List (Option β)} (h : List.Forall₂ (Option.Rel R) xs ys) :
    List.Forall₂ R (xs.filterMap id) (ys.filterMap id) := by
  induction h with
  | nil => exact .nil
  | cons hhead _ ih =>
    cases hhead with
    | none => exact ih
    | some hab => exact .cons hab ih

namespace ExecutableDocument

variable {document settled : Document}

theorem allPlaces_subset_places {entry : Document.Definition × Document.Definition}
    (h : entry ∈ document.zip settled) :
    Document.Selection.allPlaces 0 entry.1.selections entry.2.selections ⊆
      Document.places document settled :=
  fun _ hm => List.mem_flatMap.mpr ⟨entry, h, hm⟩

/-- Reading a document compares with and without settled conditions. -/
theorem compares_ofDocument
    (h : List.Forall₂ (Document.Definition.Settles name b) document settled) :
    Compares (Document.places document settled)
      (fun one other =>
        Collection.PrunedFragments (Binds name b) one.fragments other.fragments ∧
          List.Forall₂ (Operation.Alike (Selection.PrunedAll (Binds name b))) one.operations
            other.operations)
      (ofDocument document) (ofDocument settled) := by
  have hfragments : Compares (Document.places document settled)
      (Collection.PrunedFragments (Binds name b))
      (Fragments.ofDefinitions document) (Fragments.ofDefinitions settled) := by
    refine Compares.foldlM h ?_ .nil
    rintro ⟨definition, definition'⟩ hm hsettles fragments others hpruned
    have hplaces := allPlaces_subset_places hm
    cases hsettles with
    | operation => exact .read hpruned
    | fragment fragmentName condition hselections =>
      refine (Selection.compares_allOfDocument 0 _ _ hselections hplaces).bind ?_
      intro selections selections' _ _ hbelow
      exact .read (hpruned.put fragmentName condition hbelow)
  have hoperations : Compares (Document.places document settled)
      (List.Forall₂ (Option.Rel (Operation.Alike (Selection.PrunedAll (Binds name b)))))
      (document.mapM Operation.ofDefinition?) (settled.mapM Operation.ofDefinition?) := by
    refine Compares.mapM h ?_
    rintro ⟨definition, definition'⟩ hm hsettles
    have hplaces := allPlaces_subset_places hm
    cases hsettles with
    | fragment => exact .read .none
    | operation kind operationName declared hselections =>
      rw [Operation.ofDefinition?, Operation.ofDefinition?]
      refine (Compares.refl _).bind ?_
      rintro defaults _ - - rfl
      refine (Selection.compares_allOfDocument 0 _ _ hselections hplaces).bind ?_
      intro selections selections' _ _ hbelow
      exact .read (.some ⟨rfl, rfl, rfl, hbelow⟩)
  rw [ofDocument, ofDocument]
  refine hfragments.bind fun fragments others _ _ hpruned => ?_
  refine hoperations.bind fun operations operations' _ _ hsame => ?_
  exact .read ⟨hpruned, forall₂_filterMap_id hsame⟩

end ExecutableDocument

/-! ## Executing documents -/

/-- Writing under another name keeps what is known. -/
theorem Operation.find?_complete (operation : Operation) {bindings : Variables} {value : InputValue}
    (h : Entries.find? bindings name = some value) :
    Entries.find? (operation.complete bindings) name = some value := by
  rw [complete]
  generalize operation.declared = declared
  induction declared generalizing bindings with
  | nil => exact h
  | cons head rest ih =>
    obtain ⟨key, defaultValue⟩ := head
    rw [List.foldl_cons]
    refine ih ?_
    cases defaultValue with
    | none => exact h
    | some defaultValue =>
      show Entries.find? (Entries.add bindings key defaultValue) name = some value
      rw [Entries.add]
      split
      · exact h
      · have hlookup : List.lookup name bindings = some value := h
        rw [Entries.find?, List.lookup_append, hlookup, Option.some_or]

namespace Service

variable {ref : Type}

/-- Executes a document as it is written. -/
def executeWritten (service : Service ref) (objects : ref → ObjectType ref) (bound : Nat)
    (document : Document) (operationName : Option String) (bindings : Variables) :
    Job (Except RequestError (Reply ref)) :=
  match ExecutableDocument.ofDocument document with
  | .error error => .done (.error (.document error))
  | .ok document => service.executeDocument objects bound document operationName bindings

/-- A request executes the document in its text. -/
theorem execute_eq_executeWritten {service : Service ref} {request : Request} {document : Document}
    (h : Document.read? service.configuration.parser request.query = some document)
    (objects : ref → ObjectType ref) (bound : Nat) :
    service.execute objects bound request =
      service.executeWritten objects bound document request.operationName request.bindings := by
  have hread : service.readDocument request.query = ExecutableDocument.ofDocument document := by
    simp only [readDocument, ExecutableDocument.read, h]
  cases hdocument : ExecutableDocument.ofDocument document <;>
    simp only [execute, executeWritten, hread, hdocument]

end Service

namespace Service

variable {ref : Type}

/-- In the operation of that name, two documents come to a bared field that shows. -/
def Bares (service : Service ref) (objects : ref → ObjectType ref)
    (left right : ExecutableDocument) (operationName : Option String) (bindings : Variables) :
    Prop :=
  ∃ one other root, left.operation operationName = .ok one ∧
    right.operation operationName = .ok other ∧ service.schema.root one.kind = some root ∧
    (service.context objects left (one.complete bindings)).BaresOperation
      (service.context objects right (one.complete bindings)) root root one.selections
      other.selections one.kind

end Service

/-- A document whose conditions on a variable are settled, in any number of places, by the value that
    the variable has: no request tells the two documents apart, whether they are given or read from
    a text. There are two exceptions. The settled document is spared the error of a selection that it
    leaves out for good, or a field is bared by it and shows that. -/
theorem settled_conditions_agree {ref : Type} (service : Service ref) (objects : ref → ObjectType ref)
    {document settled : Document}
    (hsettles : List.Forall₂ (Document.Definition.Settles name b) document settled)
    {bindings : Variables} (hbound : Binds name b bindings) (operationName : Option String) :
    (∀ bound count,
      (service.executeWritten objects bound settled operationName bindings).watch bound count =
          (service.executeWritten objects bound document operationName bindings).watch bound count ∧
        ∀ query text, Document.read? service.configuration.parser query = some document →
          Document.read? service.configuration.parser text = some settled →
          (service.execute objects bound ⟨text, operationName, bindings⟩).watch bound count =
            (service.execute objects bound ⟨query, operationName, bindings⟩).watch bound count) ∨
    (∃ place ∈ Document.places document settled, place.Spared ∧
      ∃ error, Selection.ofDocument place.level place.selection = .error error ∧
        ∀ bound, service.executeWritten objects bound document operationName bindings =
          .done (.error (.document error))) ∨
    ∃ one other, ExecutableDocument.ofDocument document = .ok one ∧
      ExecutableDocument.ofDocument settled = .ok other ∧
      service.Bares objects one other operationName bindings := by
  -- Requests say nothing that the documents in their texts do not say.
  suffices hwritten : (∀ bound count,
      (service.executeWritten objects bound settled operationName bindings).watch bound count =
        (service.executeWritten objects bound document operationName bindings).watch bound count) ∨ _
    from hwritten.imp_left fun h bound count => ⟨h bound count, fun query text hquery htext => by
      rw [Service.execute_eq_executeWritten htext, Service.execute_eq_executeWritten hquery]
      exact h bound count⟩
  have hcompares := ExecutableDocument.compares_ofDocument hsettles
  generalize hread : ExecutableDocument.ofDocument document = read at hcompares
  generalize hread' : ExecutableDocument.ofDocument settled = read' at hcompares
  simp only [Service.executeWritten, hread, hread']
  cases hcompares with
  | failed error => exact .inl fun _ _ => rfl
  | spared _ hm hspared herror => exact .inr (.inl ⟨_, hm, hspared, _, herror, fun _ => rfl⟩)
  | @read one other hsame =>
    by_cases hbares : service.Bares objects one other operationName bindings
    · exact .inr (.inr ⟨one, other, rfl, rfl, hbares⟩)
    · refine .inl fun bound count => ?_
      refine (Service.Alike.refl service).watch_executeDocument (fun operation _ =>
        Collection.corresponds_pruned (operation.find?_complete hbound) hsame.1) hsame.2 ?_ _ _
      intro first second root double hfirst hsecond hroot hdouble _ _ _ hb
      obtain rfl := Option.some.inj (hroot.symm.trans hdouble)
      exact hbares ⟨first, second, root, hfirst, hsecond, hroot, hb⟩

/-- Where a bared field shows, the data of the two responses to a query or mutation differs. -/
theorem settled_data_ne {ref : Type} {service : Service ref} {objects : ref → ObjectType ref}
    {document settled : Document}
    (hsettles : List.Forall₂ (Document.Definition.Settles name b) document settled)
    {bindings : Variables} (hbound : Binds name b bindings) {one other : ExecutableDocument}
    (hone : ExecutableDocument.ofDocument document = .ok one)
    (hother : ExecutableDocument.ofDocument settled = .ok other) {operationName : Option String}
    (hbares : service.Bares objects one other operationName bindings)
    {bound more start begun : Nat} {timed timed' : Timed (Except RequestError (Reply ref))}
    (h : service.executeWritten objects bound document operationName bindings start = some timed)
    (h' : service.executeWritten objects more settled operationName bindings begun = some timed')
    {response response' : Response Error} (hresponse : timed.value = .ok (.response response))
    (hresponse' : timed'.value = .ok (.response response')) : response.data ≠ response'.data := by
  have hcompares := ExecutableDocument.compares_ofDocument hsettles
  rw [hone, hother] at hcompares
  cases hcompares with
  | read hsame =>
    obtain ⟨_, finish, record⟩ := timed
    obtain ⟨_, finish', record'⟩ := timed'
    subst hresponse hresponse'
    simp only [Service.executeWritten, hone] at h
    simp only [Service.executeWritten, hother] at h'
    obtain ⟨operation, root, outcomes, hselects, hrun, rfl⟩ :=
      Service.executeDocument_eq_response_iff.mp h
    obtain ⟨twin, root', outcomes', hselects', hrun', rfl⟩ :=
      Service.executeDocument_eq_response_iff.mp h'
    obtain ⟨_, _, _, hpicked, hpicked', hroot, hbares⟩ := hbares
    obtain rfl := Except.ok.inj (hselects.picked.symm.trans hpicked)
    obtain rfl := Except.ok.inj (hselects'.picked.symm.trans hpicked')
    obtain rfl := Option.some.inj (hselects.served.symm.trans hroot)
    have hoperation : operation.Alike (Selection.PrunedAll (Binds name b)) twin := by
      rcases ExecutableDocument.operation_cases hsame.2 operationName with
        ⟨_, herror, -⟩ | ⟨first, _, second, halike, hfirst, hsecond⟩
      · rw [hpicked] at herror
        cases herror
      · obtain rfl := Except.ok.inj (hpicked.symm.trans hfirst)
        obtain rfl := Except.ok.inj (hpicked'.symm.trans hsecond)
        exact halike
    have hcomplete : twin.complete bindings = operation.complete bindings := by
      simp only [Operation.complete, hoperation.declared]
    obtain rfl : root = root' := by
      have hserved := hselects'.served
      rw [hoperation.kind, hroot] at hserved
      exact Option.some.inj hserved
    rw [Service.executeRoot, hcomplete] at hrun'
    have hcontext := (Service.Alike.refl service).alike_context objects
      (Collection.corresponds_pruned (operation.find?_complete hbound) hsame.1)
    generalize hkind : operation.kind = kind at hbares
    cases hbares with
    | fields _ hbares =>
      exact hcontext.data_ne_of_baresFields (.refl root) hoperation.selections hbares hrun hrun'
    | event => exact absurd hkind hselects.kind_ne

namespace Sample

/-- A directive that skips under a condition. -/
def skip (condition : Document.Literal) : Document.Directive := ⟨"skip", [("if", condition)]⟩

/-- A field that is written without arguments. -/
def write (fieldName : String) (directives : List Document.Directive)
    (below : List Document.Selection) : Document.Selection :=
  .field none fieldName [] directives below ⟨1, 1⟩

/-- Asks for two ships, for the second one with a condition on its name. The second ship has a label
    that the first one gives to a field without a selection set. -/
def guarded (condition : Document.Literal) : Document :=
  [.operation .query none []
    [write "ship" [] [.field (some "x") "name" [] [] [] ⟨1, 1⟩],
      .field (some "x") "ship" [] [] [write "name" [skip condition] []] ⟨1, 1⟩]]

/-- The data of the two ships if the condition holds. -/
def guardedData : Value :=
  .object [("ship", .object [("x", .string "Rocinante")]), ("x", .object [])]

/-- Asks for a ship, and under a condition for one at a distance that is no number. -/
def remote (condition : Document.Literal) : Document :=
  [.operation .query none []
    [write "ship" [] [write "name" [] []],
      .field (some "far") "ship" [("distance", .float "1e999")] [skip condition]
        [write "name" [] []] ⟨1, 1⟩]]

/-- Asks for a ship without saying what of it, and then, under a condition, for its name. -/
def bare (condition : Document.Literal) : Document :=
  [.operation .query none []
    [write "ship" [] [], write "ship" [] [write "name" [skip condition] []]]]

/-- Executes a document while the condition holds. -/
def hidden (document : Document) : Job (Except RequestError (Reply Unit)) :=
  (service 3 2).executeWritten (fun _ => ship 3) 20 document none [("hide", .boolean true)]

/-- What it comes to. -/
def result (document : Document) : Option (Except RequestError (Reply Unit)) :=
  (hidden document 0).map Timed.value

/-- The data that it is answered with. -/
def data? (document : Document) : Option Value :=
  match result document with
  | some (.ok (.response response)) => response.data
  | _ => none

theorem data?_congr {document settled : Document} (h : result settled = result document) :
    data? settled = data? document := by
  rw [data?, data?, h]

theorem exists_of_data? {document : Document} {value : Value} (h : data? document = some value) :
    ∃ timed response, hidden document 0 = some timed ∧ timed.value = .ok (.response response) ∧
      response.data = some value := by
  rw [data?] at h
  split at h
  · rename_i response hresult
    obtain ⟨timed, htimed, hvalue⟩ := Option.map_eq_some_iff.mp hresult
    exact ⟨timed, response, htimed, hvalue, h⟩
  · cases h

theorem settles_skip : List.Forall₂ (Document.Directive.Settles "hide" true) [skip (.var "hide")]
    [skip (.boolean true)] :=
  .cons (.settled rfl rfl rfl) .nil

end Sample

/-- The label `x` is that of a ship and that of a name. No field is bared, and both documents are
    answered alike. -/
theorem settled_conditions_agree_sample :
    List.Forall₂ (Document.Definition.Settles "hide" true) (Sample.guarded (.var "hide"))
      (Sample.guarded (.boolean true)) ∧
    Binds "hide" true [("hide", .boolean true)] ∧
    (Sample.hidden (Sample.guarded (.boolean true))).watch 20 0 =
      (Sample.hidden (Sample.guarded (.var "hide"))).watch 20 0 ∧
    Sample.data? (Sample.guarded (.boolean true)) = some Sample.guardedData := by
  have hsettles : List.Forall₂ (Document.Definition.Settles "hide" true)
      (Sample.guarded (.var "hide")) (Sample.guarded (.boolean true)) :=
    .cons (.operation _ _ _ (.cons (.refl _) (.cons (.field _ _ _ _ .nil
      (.cons (.field _ _ _ _ Sample.settles_skip .nil) .nil)) .nil))) .nil
  have hbound : Binds "hide" true [("hide", .boolean true)] := rfl
  have hdata : Sample.data? (Sample.guarded (.boolean true)) = some Sample.guardedData := rfl
  have hdata' : Sample.data? (Sample.guarded (.var "hide")) = some Sample.guardedData := rfl
  refine ⟨hsettles, hbound, ?_, hdata⟩
  obtain ⟨timed, response, hrun, hvalue, hresponse⟩ := Sample.exists_of_data? hdata'
  obtain ⟨timed', response', hrun', hvalue', hresponse'⟩ := Sample.exists_of_data? hdata
  rcases settled_conditions_agree (Sample.service 3 2) (fun _ => Sample.ship 3) hsettles hbound none
    with hagree | ⟨_, _, _, _, _, hfails⟩ | ⟨one, other, hone, hother, hbares⟩
  · exact (hagree 20 0).1
  · rw [Sample.hidden, hfails] at hrun
    obtain rfl := Option.some.inj hrun
    cases hvalue
  · exact absurd (hresponse.trans hresponse'.symm)
      (settled_data_ne hsettles hbound hone hother hbares hrun hrun' hvalue hvalue')

/-- Where the number cannot be read, the variable fails the request, and the settled document, which
    leaves the selection out, is answered. Where nothing is left below a ship that stands first
    without a selection set, the variable gives an empty ship and the settled document fails. -/
theorem settled_conditions_differ :
    Binds "hide" true [("hide", .boolean true)] ∧
    (List.Forall₂ (Document.Definition.Settles "hide" true) (Sample.remote (.var "hide"))
        (Sample.remote (.boolean true)) ∧
      Sample.result (Sample.remote (.var "hide")) =
        some (.error (.document (.invalidLiteral "1e999"))) ∧
      Sample.data? (Sample.remote (.boolean true)) =
        some (.object [("ship", .object [("name", .string "Rocinante")])])) ∧
    (List.Forall₂ (Document.Definition.Settles "hide" true) (Sample.bare (.var "hide"))
        (Sample.bare (.boolean true)) ∧
      Sample.data? (Sample.bare (.var "hide")) = some (.object [("ship", .object [])]) ∧
      Sample.data? (Sample.bare (.boolean true)) = some .null) ∧
    ¬ ∀ document settled, List.Forall₂ (Document.Definition.Settles "hide" true) document settled →
      Sample.result settled = Sample.result document := by
  have hremote : List.Forall₂ (Document.Definition.Settles "hide" true)
      (Sample.remote (.var "hide")) (Sample.remote (.boolean true)) :=
    .cons (.operation _ _ _ (.cons (.refl _) (.cons (.field _ _ _ _ Sample.settles_skip
      (Document.Selection.Settles.refl_all _)) .nil))) .nil
  have hbare : List.Forall₂ (Document.Definition.Settles "hide" true)
      (Sample.bare (.var "hide")) (Sample.bare (.boolean true)) :=
    .cons (.operation _ _ _ (.cons (.refl _) (.cons (.field _ _ _ _ .nil
      (.cons (.field _ _ _ _ Sample.settles_skip .nil) .nil)) .nil))) .nil
  have hempty : Sample.data? (Sample.bare (.var "hide")) = some (.object [("ship", .object [])]) :=
    rfl
  have hnull : Sample.data? (Sample.bare (.boolean true)) = some .null := rfl
  refine ⟨rfl, ⟨hremote, rfl, rfl⟩, ⟨hbare, hempty, hnull⟩, fun hagree => ?_⟩
  have hdata := Sample.data?_congr (hagree _ _ hbare)
  rw [hempty, hnull] at hdata
  cases hdata

end GraphQL

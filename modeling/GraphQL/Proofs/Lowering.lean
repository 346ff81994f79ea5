import Mathlib.Data.List.TakeWhile
import GraphQL.Proofs.SettledConditions
import GraphQL.Proofs.WholeFloats

/-!
# What lowering keeps

`Selection.allOfDocument` makes selections ready for execution. It fails in two ways, and a
selection that is skipped for good hides both in all that lies below it. `Selection.visible` lists
in document order what is not hidden so, `Place.faults` the errors of each place; the first error of
the list is the one that is reported. Without errors, `Lowers` tells what becomes of the selections
that are not dropped.

Results:
* `Document.Literal.fault?_int`: a whole number fails exactly if no finite float lies near it.
* `Selection.allReported`: the first fault in document order, or what `Lowers` describes.
* `Document.Selection.Lowers.unique`: that relation leaves no choice.
* `lowering_exact`: when lowering fails, with which error, and what it gives otherwise.
-/

namespace GraphQL

/-! ## Literals -/

namespace Document.Literal

mutual

/-- A value and all values in it, in document order. -/
def parts : Literal → List Literal
  | .list items => .list items :: allParts items
  | .object fields => .object fields :: namedParts fields
  | literal => [literal]

/-- The values in the items of a list. -/
def allParts : List Literal → List Literal
  | [] => []
  | item :: rest => item.parts ++ allParts rest

/-- The values in named values. -/
def namedParts : List (String × Literal) → List Literal
  | [] => []
  | (_, item) :: rest => item.parts ++ namedParts rest

end

/-- Whether a finite float lies nearest to a number. -/
def hasFloat (written : String) : Bool := (Decimal.ofText written.toList).toFinite?.isSome

/-- The error of a number that has no value. A whole number that fits 64 bits does not become a
    float. -/
def fault? : Literal → Option DocumentError
  | .int written =>
    if fitsInt64 (Decimal.signedDigits written.toList) || hasFloat written then none
    else some (.invalidLiteral written)
  | .float written => if hasFloat written then none else some (.invalidLiteral written)
  | _ => none

/-- The notation of a whole number: digits behind an optional minus sign. -/
def IsWhole (written : String) : Prop :=
  ∃ digits : List Char, (∀ c ∈ digits, c.isDigit) ∧
    (written.toList = digits ∨ written.toList = '-' :: digits)

theorem namedParts_eq_flatMap (fields : List (String × Literal)) :
    namedParts fields = fields.flatMap fun field => field.2.parts := by
  induction fields with
  | nil => rfl
  | cons field rest ih =>
    obtain ⟨name, item⟩ := field
    rw [namedParts, ih, List.flatMap_cons]

end Document.Literal

/-- A number without a fraction and an exponent consists of its digits. -/
theorem Decimal.ofText_whole {digits : List Char} (h : ∀ c ∈ digits, c.isDigit) :
    ofText digits = ⟨false, digitsValue digits, 0⟩ ∧
      ofText ('-' :: digits) = ⟨true, digitsValue digits, 0⟩ := by
  have hwhole : digits.takeWhile Char.isDigit = digits := List.takeWhile_eq_self_iff.mpr h
  have hsign : digits.head? ≠ some '-' := fun hhead =>
    absurd (h '-' (List.mem_of_mem_head? hhead)) (by decide)
  constructor <;> simp [ofText, hwhole, hsign, signedDigits, digitsValue]

namespace Document.Literal

/-- Whole numbers that fit 64 bits have finite floats nearest to them. -/
theorem hasFloat_of_fitsInt64 {written : String} (hwhole : IsWhole written)
    (hfits : fitsInt64 (Decimal.signedDigits written.toList) = true) : hasFloat written = true := by
  obtain ⟨digits, hdigits, hwritten⟩ := hwhole
  obtain ⟨hplain, hsigned⟩ := Decimal.ofText_whole hdigits
  have hleast : Int64.minValue.toInt = -2 ^ 63 := by decide
  have hgreatest : Int64.maxValue.toInt = 2 ^ 63 - 1 := by decide
  have hfloat : ∀ negative, digitsValue digits < 2 ^ 64 →
      (Decimal.toFinite? ⟨negative, digitsValue digits, 0⟩).isSome = true := by
    intro negative hsmall
    rw [Decimal.toFinite?, Decimal.isFinite_toFloat hsmall]
    rfl
  simp only [fitsInt64, Bool.and_eq_true, decide_eq_true_eq] at hfits
  rcases hwritten with hwritten | hwritten
  · have hvalue : Decimal.signedDigits digits = digitsValue digits := by
      unfold Decimal.signedDigits
      split
      · exact absurd (hdigits '-' List.mem_cons_self) (by decide)
      · exact absurd (hdigits '+' List.mem_cons_self) (by decide)
      · rfl
    rw [hwritten, hvalue] at hfits
    rw [hasFloat, hwritten, hplain]
    exact hfloat _ (by omega)
  · rw [hwritten, Decimal.signedDigits] at hfits
    rw [hasFloat, hwritten, hsigned]
    exact hfloat _ (by omega)

/-- A whole number cannot be read exactly if it has no finite float. -/
theorem fault?_int {written : String} (h : IsWhole written) :
    (int written).fault? = if hasFloat written then none else some (.invalidLiteral written) := by
  cases hfits : fitsInt64 (Decimal.signedDigits written.toList) with
  | true => simp only [fault?, hfits, hasFloat_of_fitsInt64 h hfits, Bool.true_or, ite_true]
  | false => simp only [fault?, hfits, Bool.false_or]

end Document.Literal

/-! ## Places -/

namespace Document

/-- A selection and its level. -/
structure VisiblePlace where
  level : Nat
  selection : Selection

namespace Selection

/-- The arguments of a field. -/
def arguments : Selection → Arguments
  | .field _ _ arguments _ _ _ => arguments
  | _ => []

mutual

/-- A selection and those in it that no skipped selection hides, in document order. -/
def visible (level : Nat) : Selection → List VisiblePlace
  | selection@(.field _ _ _ _ below _) | selection@(.inlineFragment _ _ below) =>
    ⟨level, selection⟩ :: if selection.guard.alwaysSkips then [] else allVisible (level + 1) below
  | selection@(.spread _ _) => [⟨level, selection⟩]

/-- What is visible in selections. -/
def allVisible (level : Nat) : List Selection → List VisiblePlace
  | [] => []
  | selection :: rest => selection.visible level ++ allVisible level rest

end

mutual

/-- Whether nothing becomes of a selection: it is skipped for good, or it is an inline fragment that
    holds nothing else. -/
def isDropped : Selection → Bool
  | selection@(.inlineFragment _ _ below) => selection.guard.alwaysSkips || allDropped below
  | selection => selection.guard.alwaysSkips

/-- Whether nothing becomes of any selection. -/
def allDropped : List Selection → Bool
  | [] => true
  | selection :: rest => selection.isDropped && allDropped rest

end

/-- The selections that something becomes of. -/
def remaining (selections : List Selection) : List Selection :=
  selections.filter fun selection => !selection.isDropped

theorem remaining_cons (selection : Selection) (rest : List Selection) :
    remaining (selection :: rest) = remaining [selection] ++ remaining rest :=
  List.filter_append [selection] rest

theorem remaining_singleton {selection : Selection} (h : selection.isDropped = false) :
    remaining [selection] = [selection] := by
  simp [remaining, h]

theorem isDropped_of_alwaysSkips {selection : Selection} (h : selection.guard.alwaysSkips = true) :
    selection.isDropped = true := by
  cases selection <;> simp [isDropped, h]

theorem allDropped_eq_isEmpty (selections : List Selection) :
    allDropped selections = (remaining selections).isEmpty := by
  induction selections with
  | nil => rfl
  | cons selection rest ih =>
    rw [allDropped, ih, remaining, remaining, List.filter_cons]
    cases selection.isDropped <;> rfl

/-- What a selection becomes: its arguments are read and the remaining selections follow in order. A
    field keeps in mind whether the document gave it selections. -/
inductive Lowers : Selection → GraphQL.Selection → Prop
  | field {arguments : Arguments} {values : List (String × InputValue)} {below : List Selection}
      {selections : List GraphQL.Selection} (aliasName : Option String) (name : String)
      (directives : List Directive) (location : Location) :
    List.Forall₂ (fun argument value =>
      value.1 = argument.1 ∧ InputValue.ofLiteral argument.2 = .ok value.2) arguments values →
    List.Forall₂ Lowers (remaining below) selections →
    Lowers (.field aliasName name arguments directives below location)
      (.field ⟨aliasName, name, values, selections, !below.isEmpty, Guard.ofDirectives directives,
        location⟩)
  | inlineFragment {below : List Selection} {selections : List GraphQL.Selection}
      (condition : Option String) (directives : List Directive) :
    List.Forall₂ Lowers (remaining below) selections →
    Lowers (.inlineFragment condition directives below)
      (.inlineFragment condition (Guard.ofDirectives directives) selections)
  | spread (name : String) (directives : List Directive) :
    Lowers (.spread name directives) (.spread name (Guard.ofDirectives directives))

theorem unique_arguments {arguments : Arguments} {values others : List (String × InputValue)}
    (h : List.Forall₂ (fun argument value =>
      value.1 = argument.1 ∧ InputValue.ofLiteral argument.2 = .ok value.2) arguments values)
    (hother : List.Forall₂ (fun argument value =>
      value.1 = argument.1 ∧ InputValue.ofLiteral argument.2 = .ok value.2) arguments others) :
    values = others := by
  induction h generalizing others with
  | nil =>
    cases hother
    rfl
  | cons hfirst _ ih =>
    obtain ⟨_, rest, ⟨hname, hvalue⟩, hrest, rfl⟩ := List.forall₂_cons_left_iff.mp hother
    have hsame := Except.ok.inj (hfirst.2.symm.trans hvalue)
    exact congrArg₂ List.cons (Prod.ext (hfirst.1.trans hname.symm) hsame) (ih hrest)

mutual

/-- A selection becomes one thing only. -/
theorem Lowers.unique : ∀ {selection : Selection} {one other : GraphQL.Selection},
    Lowers selection one → Lowers selection other → one = other
  | .field .., _, _, .field _ _ _ _ hvalues hbelow, .field _ _ _ _ hvalues' hbelow' => by
    rw [unique_arguments hvalues hvalues', Lowers.unique_all hbelow hbelow']
  | .inlineFragment .., _, _, .inlineFragment _ _ hbelow, .inlineFragment _ _ hbelow' => by
    rw [Lowers.unique_all hbelow hbelow']
  | .spread .., _, _, .spread _ _, .spread _ _ => rfl

/-- And so do selections. -/
theorem Lowers.unique_all : ∀ {selections : List Selection} {ones others : List GraphQL.Selection},
    List.Forall₂ Lowers (remaining selections) ones →
    List.Forall₂ Lowers (remaining selections) others → ones = others
  | [], _, _, h, h' => by
    cases h
    cases h'
    rfl
  | selection :: rest, _, _, h, h' => by
    cases hdropped : selection.isDropped with
    | true =>
      have hrest : remaining (selection :: rest) = remaining rest := by simp [remaining, hdropped]
      rw [hrest] at h h'
      exact Lowers.unique_all h h'
    | false =>
      have hcons : remaining (selection :: rest) = selection :: remaining rest := by
        simp [remaining, hdropped]
      rw [hcons] at h h'
      obtain ⟨_, _, hone, hones, rfl⟩ := List.forall₂_cons_left_iff.mp h
      obtain ⟨_, _, hother, hothers, rfl⟩ := List.forall₂_cons_left_iff.mp h'
      exact congrArg₂ List.cons (Lowers.unique hone hother) (Lowers.unique_all hones hothers)

end

end Selection

/-- The errors of a place, not counting what lies below it. -/
def VisiblePlace.faults (place : VisiblePlace) : List DocumentError :=
  if maxSelectionDepth < place.level then [.tooDeep]
  else if place.selection.guard.alwaysSkips then []
  else (Literal.namedParts place.selection.arguments).filterMap Literal.fault?

end Document

/-! ## Reading -/

/-- What reading gives where there are faults: the first of them, or a result that is right if there
    are none. -/
inductive Reports {α : Type} (right : α → Prop) : List DocumentError → Except DocumentError α → Prop
  | failed (error : DocumentError) (others : List DocumentError) :
    Reports right (error :: others) (.error error)
  | read {result : α} : right result → Reports right [] (.ok result)

namespace Reports

variable {α β : Type} {right : α → Prop} {also : β → Prop} {first second : List DocumentError}
  {reading : Except DocumentError α} {next : α → Except DocumentError β}

/-- The faults of one step come before those of the next. -/
theorem bind (h : Reports right first reading)
    (hnext : ∀ result, right result → Reports also second (next result)) :
    Reports also (first ++ second) (reading >>= next) := by
  cases h with
  | failed error others => exact .failed error (others ++ second)
  | read hright => exact hnext _ hright

theorem map {f : α → β} (h : Reports right first reading)
    (hf : ∀ result, right result → also (f result)) :
    Reports also first (reading >>= fun result => .ok (f result)) := by
  have hboth := h.bind fun result hright => Reports.read (hf result hright)
  rwa [List.append_nil] at hboth

/-- What has been read is what reading gives. -/
theorem self (h : Reports right first reading) : Reports (reading = .ok ·) first reading := by
  cases h with
  | failed error others => exact .failed error others
  | read => exact .read rfl

theorem error_iff (h : Reports right first reading) {error : DocumentError} :
    reading = .error error ↔ first.head? = some error := by
  cases h with
  | failed => simp
  | read => simp

theorem ok_cases (h : Reports right first reading) {result : α} (hread : reading = .ok result) :
    first = [] ∧ right result := by
  subst hread
  cases h with
  | read hright => exact ⟨rfl, hright⟩

end Reports

namespace InputValue

open Document (Literal)

theorem reports_readFloat (written : String) :
    Reports (fun _ => True) (if Literal.hasFloat written then [] else [.invalidLiteral written])
      (readFloat written) := by
  rw [Literal.hasFloat, readFloat]
  cases (Decimal.ofText written.toList).toFinite? with
  | none => exact .failed _ _
  | some f => exact .read trivial

mutual

/-- The faults of a value are those of its parts. -/
theorem reports_ofLiteral :
    ∀ literal : Literal, Reports (fun _ => True) (literal.parts.filterMap Literal.fault?)
      (ofLiteral literal)
  | .null | .boolean _ | .string _ | .enum _ | .var _ => .read trivial
  | .int written => by
    have hfaults : [Literal.int written].filterMap Literal.fault? =
        if fitsInt64 (Decimal.signedDigits written.toList) then []
        else if Literal.hasFloat written then [] else [.invalidLiteral written] := by
      rw [List.filterMap_cons, Literal.fault?]
      cases fitsInt64 (Decimal.signedDigits written.toList) <;>
        cases Literal.hasFloat written <;> rfl
    show Reports _ ([Literal.int written].filterMap Literal.fault?) (readInt written)
    rw [hfaults, readInt]
    split
    · exact .read trivial
    · exact reports_readFloat written
  | .float written => by
    have hfaults : [Literal.float written].filterMap Literal.fault? =
        if Literal.hasFloat written then [] else [.invalidLiteral written] := by
      rw [List.filterMap_cons, Literal.fault?]
      cases Literal.hasFloat written <;> rfl
    show Reports _ ([Literal.float written].filterMap Literal.fault?) (readFloat written)
    rw [hfaults]
    exact reports_readFloat written
  | .list items => (reports_ofLiterals items).map fun _ _ => trivial
  | .object fields => (reports_ofNamedLiterals fields).map fun _ _ => trivial

theorem reports_ofLiterals :
    ∀ items : List Literal, Reports (fun _ => True)
      ((Literal.allParts items).filterMap Literal.fault?) (ofLiterals items)
  | [] => .read trivial
  | item :: rest => by
    rw [Literal.allParts, List.filterMap_append]
    exact (reports_ofLiteral item).bind fun _ _ => (reports_ofLiterals rest).map fun _ _ => trivial

theorem reports_ofNamedLiterals :
    ∀ fields : List (String × Literal), Reports (List.Forall₂ (fun argument value =>
        value.1 = argument.1 ∧ ofLiteral argument.2 = .ok value.2) fields)
      ((Literal.namedParts fields).filterMap Literal.fault?) (ofNamedLiterals fields)
  | [] => .read .nil
  | (name, item) :: rest => by
    rw [Literal.namedParts, List.filterMap_append]
    exact (reports_ofLiteral item).self.bind fun value hvalue =>
      (reports_ofNamedLiterals rest).map fun _ hrest => .cons ⟨rfl, hvalue⟩ hrest

end

end InputValue

namespace Selection

open Document.Selection

/-- What is too deep has one fault. -/
theorem faults_of_tooDeep {level : Nat} (h : maxSelectionDepth < level)
    (selection : Document.Selection) :
    (Document.VisiblePlace.mk level selection).faults = [.tooDeep] := if_pos h

/-- What is skipped for good has no faults. -/
theorem faults_of_alwaysSkips {level : Nat} (h : level ≤ maxSelectionDepth)
    {selection : Document.Selection} (hskips : selection.guard.alwaysSkips = true) :
    (Document.VisiblePlace.mk level selection).faults = [] := by
  rw [Document.VisiblePlace.faults, if_neg (Nat.not_lt.mpr h), if_pos hskips]

/-- The faults of what is read are those of its arguments. -/
theorem faults_of_kept {level : Nat} (h : level ≤ maxSelectionDepth)
    {selection : Document.Selection} (hkept : selection.guard.alwaysSkips = false) :
    (Document.VisiblePlace.mk level selection).faults =
      (Document.Literal.namedParts selection.arguments).filterMap Document.Literal.fault? := by
  rw [Document.VisiblePlace.faults, if_neg (Nat.not_lt.mpr h), if_neg (by simp [hkept])]

/-- A selection stands before what is visible in it. -/
theorem visible_eq_cons (level : Nat) (selection : Document.Selection) :
    ∃ below, selection.visible level = ⟨level, selection⟩ :: below := by
  cases selection <;> exact ⟨_, rfl⟩

/-- Nothing is visible below what is skipped for good. -/
theorem visible_of_alwaysSkips {level : Nat} {selection : Document.Selection}
    (hskips : selection.guard.alwaysSkips = true) :
    selection.visible level = [⟨level, selection⟩] := by
  cases selection <;> simp [visible, hskips]

/-- Reading the selection gives its first fault in document order. If there is none, it gives what
    the selection becomes. -/
def Reported (level : Nat) (selection : Document.Selection) : Prop :=
  Reports (fun result => List.Forall₂ Lowers (remaining [selection]) result.toList)
    ((selection.visible level).flatMap Document.VisiblePlace.faults) (ofDocument level selection)

/-- And so does reading selections. -/
def AllReported (level : Nat) (selections : List Document.Selection) : Prop :=
  Reports (List.Forall₂ Lowers (remaining selections))
    ((allVisible level selections).flatMap Document.VisiblePlace.faults)
    (allOfDocument level selections)

section Steps

variable {level : Nat} {directives : List Document.Directive} {below : List Document.Selection}

/-- What is too deep fails, whatever lies below it. -/
theorem reported_of_tooDeep (h : maxSelectionDepth < level) (selection : Document.Selection) :
    Reported level selection := by
  obtain ⟨below, hbelow⟩ := visible_eq_cons level selection
  rw [Reported, hbelow, List.flatMap_cons, faults_of_tooDeep h, ofDocument_of_tooDeep h]
  exact .failed _ _

/-- Nothing becomes of what is skipped for good. -/
theorem reported_of_alwaysSkips (h : level ≤ maxSelectionDepth) {selection : Document.Selection}
    (hskips : selection.guard.alwaysSkips = true) : Reported level selection := by
  rw [Reported, visible_of_alwaysSkips hskips, ofDocument_of_alwaysSkips h hskips,
    List.flatMap_singleton, faults_of_alwaysSkips h hskips]
  refine .read ?_
  rw [remaining, List.filter_cons_of_neg (by simp [isDropped_of_alwaysSkips hskips])]
  exact .nil

/-- The faults of a field are those of its arguments and then those of what lies below it. -/
theorem reported_field (h : level ≤ maxSelectionDepth)
    (hkept : (Guard.ofDirectives directives).alwaysSkips = false)
    (hbelow : AllReported (level + 1) below) (aliasName : Option String) (name : String)
    (arguments : Document.Arguments) (location : Location) :
    Reported level (.field aliasName name arguments directives below location) := by
  have hskips : (Document.Selection.field aliasName name arguments directives below
    location).guard.alwaysSkips = false := hkept
  rw [Reported, ofDocument_field h hskips, visible, List.flatMap_cons, hskips,
    faults_of_kept h hskips, remaining_singleton (by simp [isDropped, hskips])]
  refine (InputValue.reports_ofNamedLiterals arguments).bind fun values hvalues => ?_
  refine hbelow.map fun selections hselections => ?_
  exact .cons (.field _ _ _ _ hvalues hselections) .nil

/-- The faults of an inline fragment lie below it. It is dropped if nothing remains there. -/
theorem reported_inlineFragment (h : level ≤ maxSelectionDepth)
    (hkept : (Guard.ofDirectives directives).alwaysSkips = false)
    (hbelow : AllReported (level + 1) below) (condition : Option String) :
    Reported level (.inlineFragment condition directives below) := by
  have hskips : (Document.Selection.inlineFragment condition directives
    below).guard.alwaysSkips = false := hkept
  have hdropped : (Document.Selection.inlineFragment condition directives below).isDropped =
      (remaining below).isEmpty := by
    rw [isDropped, hskips, allDropped_eq_isEmpty, Bool.false_or]
  rw [Reported, ofDocument_inlineFragment h hskips, visible, List.flatMap_cons, hskips,
    faults_of_kept h hskips]
  refine hbelow.map fun selections hselections => ?_
  have hempty : selections.isEmpty = (remaining below).isEmpty := by
    rw [Bool.eq_iff_iff, List.isEmpty_iff_length_eq_zero, List.isEmpty_iff_length_eq_zero,
      hselections.length_eq]
  rw [remaining, List.filter_cons, hdropped, hempty]
  cases (remaining below).isEmpty with
  | true => exact .nil
  | false => exact .cons (.inlineFragment condition directives hselections) .nil

/-- A spread has no faults: the fragment is lowered where it is defined. -/
theorem reported_spread (h : level ≤ maxSelectionDepth)
    (hkept : (Guard.ofDirectives directives).alwaysSkips = false) (name : String) :
    Reported level (.spread name directives) := by
  have hskips : (Document.Selection.spread name directives).guard.alwaysSkips = false := hkept
  rw [Reported, ofDocument_spread h hskips, visible, List.flatMap_singleton,
    faults_of_kept h hskips, remaining_singleton (by simp [isDropped, hskips])]
  exact .read (.cons (.spread name directives) .nil)

end Steps

mutual

theorem reported (level : Nat) : ∀ selection : Document.Selection, Reported level selection := by
  intro selection
  rcases Nat.lt_or_ge maxSelectionDepth level with hdeep | hlevel
  · exact reported_of_tooDeep hdeep selection
  cases hskips : selection.guard.alwaysSkips with
  | true => exact reported_of_alwaysSkips hlevel hskips
  | false =>
    cases selection with
    | field aliasName name arguments directives below location =>
      exact reported_field hlevel hskips (allReported (level + 1) below) _ _ _ _
    | inlineFragment condition directives below =>
      exact reported_inlineFragment hlevel hskips (allReported (level + 1) below) _
    | spread name directives => exact reported_spread hlevel hskips name

theorem allReported (level : Nat) :
    ∀ selections : List Document.Selection, AllReported level selections
  | [] => .read .nil
  | selection :: rest => by
    rw [AllReported, allVisible, List.flatMap_append]
    refine (reported level selection).bind fun first hfirst => ?_
    refine (allReported level rest).map fun others hothers => ?_
    rw [remaining_cons]
    exact List.rel_append hfirst hothers

end

end Selection

open Document (Literal)
open Document.Selection (Lowers allVisible remaining)

/-- A place has faults if it is too deep, or if it is read and an argument holds a number that
    cannot be read. -/
theorem Document.VisiblePlace.faults_ne_nil_iff {place : VisiblePlace} :
    place.faults ≠ [] ↔ maxSelectionDepth < place.level ∨
      place.selection.guard.alwaysSkips = false ∧
        ∃ argument ∈ place.selection.arguments, ∃ part ∈ argument.2.parts, part.fault? ≠ none := by
  have hparts : (Literal.namedParts place.selection.arguments).filterMap Literal.fault? ≠ [] ↔
      ∃ argument ∈ place.selection.arguments, ∃ part ∈ argument.2.parts, part.fault? ≠ none := by
    rw [ne_eq, List.filterMap_eq_nil_iff, Literal.namedParts_eq_flatMap]
    simp only [List.mem_flatMap, forall_exists_index, and_imp, not_forall, exists_prop]
    constructor
    · rintro ⟨part, argument, hargument, hpart, hfault⟩
      exact ⟨argument, hargument, part, hpart, hfault⟩
    · rintro ⟨argument, hargument, part, hpart, hfault⟩
      exact ⟨part, argument, hargument, hpart, hfault⟩
  rw [faults]
  split
  case isTrue hdeep => simp [hdeep]
  case isFalse hlevel =>
    split
    case isTrue hskips => simp [hlevel, hskips]
    case isFalse hkept => simp [hparts, hlevel, hkept]

/-- Lowering fails exactly if some selection that no skipped one hides lies more than 512 levels
    below the top, or is a field that is not skipped and holds a number without a finite float; the
    error is the first one in document order. Otherwise all but the dropped selections are
    lowered. -/
theorem lowering_exact (selections : List Document.Selection) :
    ((∃ error, Selection.allOfDocument 0 selections = .error error) ↔
      ∃ place ∈ allVisible 0 selections, 512 < place.level ∨
        place.selection.guard.alwaysSkips = false ∧
          ∃ argument ∈ place.selection.arguments, ∃ part ∈ argument.2.parts,
            part.fault? ≠ none) ∧
    (∀ error, Selection.allOfDocument 0 selections = .error error ↔
      ∃ before place after, allVisible 0 selections = before ++ place :: after ∧
        (∀ earlier ∈ before, earlier.faults = []) ∧ place.faults.head? = some error) ∧
    (∀ lowered, Selection.allOfDocument 0 selections = .ok lowered ↔
      (∀ place ∈ allVisible 0 selections, place.faults = []) ∧
        List.Forall₂ Lowers (remaining selections) lowered) ∧
    ∀ written,
      (Literal.float written).fault? =
        (if Literal.hasFloat written then none else some (.invalidLiteral written)) ∧
      (Literal.IsWhole written → (Literal.int written).fault? =
        if Literal.hasFloat written then none else some (.invalidLiteral written)) := by
  have hreports := Selection.allReported 0 selections
  rw [Selection.AllReported] at hreports
  have hnone : (allVisible 0 selections).flatMap Document.VisiblePlace.faults = [] ↔
      ∀ place ∈ allVisible 0 selections, place.faults = [] := List.flatMap_eq_nil_iff
  refine ⟨?_, fun error => ?_, fun lowered => ⟨fun h => ?_, fun ⟨hfaults, hlowered⟩ => ?_⟩,
    fun written => ⟨rfl, Literal.fault?_int⟩⟩
  · have hfails : (∃ error, Selection.allOfDocument 0 selections = .error error) ↔
        ¬ ∀ place ∈ allVisible 0 selections, place.faults = [] := by
      rw [← hnone, ← List.head?_eq_none_iff, ← ne_eq, Option.ne_none_iff_exists']
      exact exists_congr fun error => hreports.error_iff
    simp only [hfails, not_forall, exists_prop]
    exact exists_congr fun place =>
      and_congr_right fun _ => Document.VisiblePlace.faults_ne_nil_iff
  · rw [hreports.error_iff, List.head?_flatMap, List.findSome?_eq_some_iff]
    simp only [List.head?_eq_none_iff, and_comm]
  · obtain ⟨hfaults, hlowered⟩ := hreports.ok_cases h
    exact ⟨hnone.mp hfaults, hlowered⟩
  · rw [hnone.mpr hfaults] at hreports
    cases hread : Selection.allOfDocument 0 selections with
    | error error => simp [hreports.error_iff] at hread
    | ok result =>
      have hresult := (hreports.ok_cases hread).2
      rw [Lowers.unique_all hresult hlowered]

end GraphQL

import GraphQL.Proofs.NestedReferences

/-!
# Variables that are checked up front

A host may coerce the variables of a request to their declared types before it executes anything.
The check starts from the value of a variable, a field from a reference to it. What the check gives
is what a field receives, or fails with, as long as the value is no reference itself: a field refuses
such a variable, and the check, which has the value for its own, follows the reference.

Results:
* `coerceVariables_eq_ok_iff`, `coerceVariables_eq_error_iff`: the check goes through if and only if
  every variable can be coerced, and fails with the first one that cannot.
* `coerceArgument_eq_checkVariable`: an argument that is given by a variable comes to what the
  variable was checked for.
* `checked_variables`: so fields receive the values that have been checked.
* `unchecked_reference`: a variable that passes the check and is refused by a field.
-/

namespace GraphQL

namespace Coercion

/-- What the check of variables comes to for one of them. -/
def checkVariable (types : Types) (bindings : Variables) (bound : Nat) (name : String)
    (type : TypeRef) : Result CoercionError Value :=
  coerce types bindings bound type ((Entries.find? bindings name).getD .null)

/-- A field gives the argument by a variable that is declared with its type and set to a value. The
    value is no reference. -/
structure Passes (definitions : Entries TypeRef) (bindings : Variables) (field : Field)
    (argument : Argument) (name : String) : Prop where
  given : field.argument? argument.name = some (.var name)
  declared : Entries.find? definitions name = some argument.type
  set : ∃ value, Entries.find? bindings name = some value ∧ ∀ nested, value ≠ .var nested

/-- What was checked of the variable by which an argument is given. -/
def checkedValue (checked : Fields) (field : Field) (argument : Argument) : Value :=
  match field.argument? argument.name with
  | some (.var name) => (Entries.find? checked name).getD .null
  | _ => .null

variable {types : Types} {bindings : Variables} {bound : Nat} {definitions : Entries TypeRef}
  {name : String}

/-! ## The check -/

/-- The values that are checked are those of the variables one by one. -/
theorem coerceVariables_eq_ok_iff {checked : Fields} :
    (coerceVariables types bound definitions bindings).run = some (.ok checked) ↔
      List.Forall₂ (fun definition entry => entry.1 = definition.1 ∧
        (checkVariable types bindings bound definition.1 definition.2).run = some (.ok entry.2))
        definitions checked := by
  unfold coerceVariables
  rw [mapM_eq_ok_iff]
  constructor
  · intro h
    refine h.imp fun definition entry hentry => ?_
    obtain ⟨value, hvalue, ⟨⟩⟩ := bind_eq_ok_iff.mp hentry
    exact ⟨rfl, named_eq_ok_iff.mp hvalue⟩
  · intro h
    refine h.imp fun definition entry hentry => ?_
    obtain ⟨hname, hvalue⟩ := hentry
    refine bind_eq_ok_iff.mpr ⟨entry.2, named_eq_ok_iff.mpr hvalue, ?_⟩
    rw [← hname]
    rfl

/-- The error is that of the first variable that cannot be coerced. -/
theorem coerceVariables_eq_error_iff {error : CoercionError} :
    (coerceVariables types bound definitions bindings).run = some (.error (name, error)) ↔
      ∃ before type after, definitions = before ++ (name, type) :: after ∧
        (∀ earlier ∈ before, ∃ value,
          (checkVariable types bindings bound earlier.1 earlier.2).run = some (.ok value)) ∧
        (checkVariable types bindings bound name type).run = some (.error error) := by
  unfold coerceVariables
  rw [mapM_eq_error_iff]
  constructor
  · rintro ⟨before, ⟨failed, type⟩, after, rfl, hbefore, hfailed⟩
    obtain hfailed | ⟨_, _, ⟨⟩⟩ := bind_eq_error_iff.mp hfailed
    obtain ⟨rfl, herror⟩ := named_eq_error_iff.mp hfailed
    refine ⟨before, type, after, rfl, fun earlier hm => ?_, herror⟩
    obtain ⟨entry, hentry⟩ := hbefore earlier hm
    obtain ⟨value, hvalue, -⟩ := bind_eq_ok_iff.mp hentry
    exact ⟨value, named_eq_ok_iff.mp hvalue⟩
  · rintro ⟨before, type, after, rfl, hbefore, herror⟩
    refine ⟨before, (name, type), after, rfl, fun earlier hm => ?_, ?_⟩
    · obtain ⟨value, hvalue⟩ := hbefore earlier hm
      exact ⟨(earlier.1, value), bind_eq_ok_iff.mpr ⟨value, named_eq_ok_iff.mpr hvalue, rfl⟩⟩
    · exact bind_eq_error_iff.mpr (.inl (named_eq_error_iff.mpr ⟨rfl, herror⟩))

/-- What was checked for a variable is found under its name. -/
theorem find?_of_coerceVariables {checked : Fields} {type : TypeRef}
    (h : (coerceVariables types bound definitions bindings).run = some (.ok checked))
    (htype : Entries.find? definitions name = some type) :
    ∃ value, Entries.find? checked name = some value ∧
      (checkVariable types bindings bound name type).run = some (.ok value) := by
  rw [coerceVariables_eq_ok_iff] at h
  induction h with
  | nil => cases htype
  | @cons definition entry definitions checked hentry _ ih =>
    obtain ⟨declared, other⟩ := definition
    obtain ⟨key, value⟩ := entry
    obtain ⟨rfl, hvalue⟩ := hentry
    rw [Entries.find?_cons] at htype ⊢
    split
    · next he =>
      rw [ite_cond_eq_true _ _ (eq_true he)] at htype
      cases htype
      subst he
      exact ⟨value, rfl, hvalue⟩
    · next hne =>
      rw [ite_cond_eq_false _ _ (eq_false hne)] at htype
      exact ih htype

/-! ## Its use -/

/-- A variable that is set is coerced like what it is set to. -/
theorem coerceArgument_of_given {field : Field} {argument : Argument} {value : InputValue}
    (hgiven : field.argument? argument.name = some (.var name))
    (hvalue : Entries.find? bindings name = some value) :
    coerceArgument types bindings bound field argument =
      coerce types bindings bound argument.type (.var name) := by
  have hset : isUnset bindings (.var name) = false := by
    rw [isUnset, Entries.has, hvalue]
    rfl
  rw [coerceArgument, hgiven, Option.filter_some, hset]
  rfl

/-- An argument that is given by a variable comes to what the variable was checked for. -/
theorem coerceArgument_eq_checkVariable {field : Field} {argument : Argument} {value : InputValue}
    (hgiven : field.argument? argument.name = some (.var name))
    (hvalue : Entries.find? bindings name = some value) (hvar : ∀ nested, value ≠ .var nested) :
    coerceArgument types bindings bound field argument =
      checkVariable types bindings bound name argument.type := by
  rw [coerceArgument_of_given hgiven hvalue, checkVariable, hvalue, Option.getD_some]
  cases bound with
  | zero => rfl
  | succ bound => exact coerce_of_resolve (resolve_of_bound hvalue hvar) argument.type

/-- A variable whose value is a reference is refused. -/
theorem coerceArgument_of_reference {field : Field} {argument : Argument} {nested : String}
    (hgiven : field.argument? argument.name = some (.var name))
    (hvalue : Entries.find? bindings name = some (.var nested)) :
    Ends (fun bound => coerceArgument types bindings bound field argument)
      (.error (.nestedVariable nested)) := by
  simp only [coerceArgument_of_given hgiven hvalue]
  have hreads : Reads types bindings argument.type (.var name) name := .reference
  exact hreads.ends hvalue

/-- The arguments that a field receives by way of variables are the values that were checked. -/
theorem coerceArguments_eq_checked {checked : Fields} {arguments : List Argument} {field : Field}
    (h : (coerceVariables types bound definitions bindings).run = some (.ok checked))
    (hpasses : ∀ argument ∈ arguments, ∃ name, Passes definitions bindings field argument name) :
    (coerceArguments types bindings bound arguments field).run =
      some (.ok (Entries.ofList (arguments.map fun argument =>
        (argument.name, checkedValue checked field argument)))) := by
  refine bind_eq_ok_iff.mpr ⟨_, mapM_eq_ok_iff.mpr ?_, rfl⟩
  rw [List.forall₂_map_right_iff, List.forall₂_same]
  intro argument hm
  obtain ⟨name, hgiven, hdeclared, value, hvalue, hvar⟩ := hpasses argument hm
  obtain ⟨result, hresult, hchecked⟩ := find?_of_coerceVariables h hdeclared
  have hreceived : checkedValue checked field argument = result := by
    rw [checkedValue, hgiven]
    exact congrArg (·.getD .null) hresult
  rw [hreceived]
  refine bind_eq_ok_iff.mpr ⟨result, named_eq_ok_iff.mpr ?_, rfl⟩
  rw [coerceArgument_eq_checkVariable hgiven hvalue hvar]
  exact hchecked

end Coercion

open Coercion

/-- Checking variables up front comes to the values of all of them, in the order in which they are
    declared, or to the error of the first one that has none. An argument that is given by a variable
    comes to the same value or error, unless the value of the variable is a reference: then the field
    fails. So a field with checked variables for its arguments receives what was checked. -/
theorem checked_variables (types : Types) (bindings : Variables) (bound : Nat)
    (definitions : Entries TypeRef) :
    (∀ checked, (coerceVariables types bound definitions bindings).run = some (.ok checked) ↔
      List.Forall₂ (fun definition entry => entry.1 = definition.1 ∧
        (checkVariable types bindings bound definition.1 definition.2).run = some (.ok entry.2))
        definitions checked) ∧
    (∀ name error,
      (coerceVariables types bound definitions bindings).run = some (.error (name, error)) ↔
        ∃ before type after, definitions = before ++ (name, type) :: after ∧
          (∀ earlier ∈ before, ∃ value,
            (checkVariable types bindings bound earlier.1 earlier.2).run = some (.ok value)) ∧
          (checkVariable types bindings bound name type).run = some (.error error)) ∧
    (∀ (field : Field) (argument : Argument) name value,
      field.argument? argument.name = some (.var name) →
      Entries.find? bindings name = some value →
      (∀ nested, value ≠ .var nested) ∧
          coerceArgument types bindings bound field argument =
            checkVariable types bindings bound name argument.type ∨
        ∃ nested, value = .var nested ∧
          Ends (fun bound => coerceArgument types bindings bound field argument)
            (.error (.nestedVariable nested))) ∧
    ∀ checked arguments field,
      (coerceVariables types bound definitions bindings).run = some (.ok checked) →
      (∀ argument ∈ arguments, ∃ name, Passes definitions bindings field argument name) →
      (coerceArguments types bindings bound arguments field).run =
        some (.ok (Entries.ofList (arguments.map fun argument =>
          (argument.name, checkedValue checked field argument)))) := by
  refine ⟨fun checked => coerceVariables_eq_ok_iff, fun name error => coerceVariables_eq_error_iff,
    fun field argument name value hgiven hvalue => ?_,
    fun checked arguments field h hpasses => coerceArguments_eq_checked h hpasses⟩
  by_cases hvar : ∃ nested, value = .var nested
  · obtain ⟨nested, rfl⟩ := hvar
    exact .inr ⟨nested, rfl, coerceArgument_of_reference hgiven hvalue⟩
  · have hvar : ∀ nested, value ≠ .var nested := fun nested he => hvar ⟨nested, he⟩
    exact .inl ⟨hvar, coerceArgument_eq_checkVariable hgiven hvalue hvar⟩

namespace Sample

/-- A range, and a single number in place of a list. -/
def wantedVariables : Variables := [("ids", .int 5), ("range", .object [("high", .int 9)])]

def wantedDefinitions : Entries TypeRef :=
  [("range", .nonNull (.named "Range")), ("ids", .list .int)]

def wantedArguments : List Argument :=
  [⟨"only", .list .int, none⟩, ⟨"within", .nonNull (.named "Range"), none⟩]

/-- Gives both arguments by variables. -/
def wantedField : Field where
  aliasName := none
  name := "ships"
  arguments := [("within", .var "range"), ("only", .var "ids")]
  selections := []
  composite := false
  guard := {}
  location := ⟨1, 1⟩

theorem passes_wanted : ∀ argument ∈ wantedArguments,
    ∃ name, Passes wantedDefinitions wantedVariables wantedField argument name := by
  refine List.forall_mem_cons.mpr ⟨⟨"ids", rfl, rfl, .int 5, rfl, nofun⟩, ?_⟩
  exact List.forall_mem_singleton.mpr
    ⟨"range", rfl, rfl, .object [("high", .int 9)], rfl, nofun⟩

end Sample

/-- The default of the range and the list around the number are in the check and in the field. -/
theorem checked_variables_wanted :
    (coerceVariables Sample.rangeTypes 4 Sample.wantedDefinitions Sample.wantedVariables).run =
      some (.ok [("range", .object [("low", .int 1), ("high", .int 9)]), ("ids", .list [.int 5])]) ∧
    coerceArgument Sample.rangeTypes Sample.wantedVariables 4 Sample.wantedField
        ⟨"only", .list .int, none⟩ =
      checkVariable Sample.rangeTypes Sample.wantedVariables 4 "ids" (.list .int) ∧
    (coerceArguments Sample.rangeTypes Sample.wantedVariables 4 Sample.wantedArguments
        Sample.wantedField).run =
      some (.ok
        [("only", .list [.int 5]), ("within", .object [("low", .int 1), ("high", .int 9)])]) := by
  obtain ⟨-, -, hagrees, hreceives⟩ := checked_variables Sample.rangeTypes Sample.wantedVariables 4
    Sample.wantedDefinitions
  have hchecked : (coerceVariables Sample.rangeTypes 4 Sample.wantedDefinitions
      Sample.wantedVariables).run = some (.ok _) := rfl
  refine ⟨hchecked, ?_, hreceives _ _ _ hchecked Sample.passes_wanted⟩
  obtain ⟨-, hsame⟩ | ⟨_, hreference, -⟩ :=
    hagrees Sample.wantedField ⟨"only", .list .int, none⟩ "ids" (.int 5) rfl rfl
  · exact hsame
  · cases hreference

/-- A variable that refers to another one passes the check with the value of that one. The field
    that is given the variable fails. -/
theorem unchecked_reference :
    let bindings : Variables := [("x", .var "y"), ("y", .int 1)]
    let argument : Argument := ⟨"within", .int, none⟩
    let field := { Sample.wantedField with arguments := [("within", .var "x")] }
    Ends (fun bound => coerceVariables Sample.rangeTypes bound [("x", .int)] bindings)
      (.ok [("x", .int 1)]) ∧
    Ends (fun bound => coerceArguments Sample.rangeTypes bindings bound [argument] field)
      (.error ("within", .nestedVariable "y")) := by
  intro bindings argument field
  constructor
  · exact .succ ⟨0, fun _ _ => rfl⟩
  · exact .succ ⟨0, fun _ _ => rfl⟩

end GraphQL

import GraphQL.Proofs.Elimination
import GraphQL.Proofs.WrittenEntries

/-!
# Arguments that are declared and bound

A field is built by declaring its arguments one after the other. A name that is declared again keeps
its place and takes the new type and default, so declaring is writing under the name of the argument
(`Resolver.byName_redeclare`). A resolver of a single argument refines the one that it has and takes
no others. Either way the function behind the field stays.

The names are distinct, so coerced arguments are entered one by one under the names that the
resolver declares, and what a resolver of a single argument looks for is always there.

Results:
* `Resolver.nodup_declareAll`: names stay distinct.
* `Resolver.declareAll_named`, `Resolver.declareAll_single`: what declarations come to.
* `Resolver.names_of_written`, `Resolver.last?_of_written`: first places and last declarations.
* `Coercion.coerceArguments_eq_ok`: coerced arguments stand under the declared names.
* `arguments_bound`: what is declared and what a resolver receives.
-/

namespace GraphQL

variable {ref : Type}

/-! ## Declarations -/

/-- The last of the declarations of a name. -/
def Argument.last? (declared : List Argument) (name : String) : Option Argument :=
  declared.reverse.find? fun argument => argument.name = name

theorem Argument.last?_concat (declared : List Argument) (argument : Argument) (name : String) :
    last? (declared ++ [argument]) name =
      if argument.name = name then some argument else last? declared name := by
  rw [last?, List.reverse_append, List.reverse_singleton, List.singleton_append, List.find?_cons]
  by_cases h : argument.name = name <;> simp [h, last?]

theorem Argument.name_of_last? {declared : List Argument} {name : String} {argument : Argument}
    (h : last? declared name = some argument) : argument.name = name := by
  have hname := List.find?_some h
  exact of_decide_eq_true hname

namespace Resolver

/-- Declares arguments one after the other. -/
def declareAll (resolver : Resolver ref) (declared : List Argument) : Resolver ref :=
  declared.foldl declare resolver

theorem declareAll_concat (resolver : Resolver ref) (declared : List Argument)
    (argument : Argument) :
    resolver.declareAll (declared ++ [argument]) =
      (resolver.declareAll declared).declare argument :=
  List.foldl_concat ..

/-- Whatever is declared, names stay distinct. -/
theorem nodup_declareAll (resolver : Resolver ref)
    (h : (resolver.arguments.map Argument.name).Nodup) (declared : List Argument) :
    ((resolver.declareAll declared).arguments.map Argument.name).Nodup := by
  induction declared using List.reverseRecOn with
  | nil => exact h
  | append_singleton declared argument ih =>
    rw [declareAll_concat]
    exact nodup_declare ih argument

/-- The only argument is refined by the declarations of its name. -/
theorem declareAll_single (known : Argument) (resolve : Value → Node ref)
    (declared : List Argument) :
    ∃ argument, (Resolver.single known resolve).declareAll declared = .single argument resolve ∧
      Argument.last? (known :: declared) known.name = some argument := by
  induction declared using List.reverseRecOn with
  | nil => exact ⟨known, rfl, List.find?_cons_of_pos (decide_eq_true rfl)⟩
  | append_singleton declared argument ih =>
    obtain ⟨last, hdeclared, hlast⟩ := ih
    have hname : last.name = known.name := Argument.name_of_last? hlast
    rw [declareAll_concat, hdeclared, declare, hname, ← List.cons_append, Argument.last?_concat]
    by_cases h : known.name = argument.name
    · exact ⟨argument, if_pos h, if_pos h.symm⟩
    · exact ⟨last, if_neg h, (if_neg fun he => h he.symm).trans hlast⟩

/-- What all declarations come to. -/
theorem declareAll_named (resolve : Fields → Node ref) (declared : List Argument) :
    ∃ arguments, (Resolver.named [] resolve).declareAll declared = .named arguments resolve ∧
      byName arguments = Entries.ofList (byName declared) := by
  induction declared using List.reverseRecOn with
  | nil => exact ⟨[], rfl, rfl⟩
  | append_singleton declared argument ih =>
    obtain ⟨arguments, hdeclared, hwritten⟩ := ih
    refine ⟨(redeclare argument arguments).getD (arguments ++ [argument]), ?_, ?_⟩
    · rw [declareAll_concat, hdeclared, declare]
    · have hconcat : byName (declared ++ [argument]) =
          byName declared ++ [(argument.name, argument)] := List.map_append
      rw [byName_redeclare, hwritten, hconcat, Entries.ofList_concat]

theorem find?_byName (arguments : List Argument) (name : String) :
    Entries.find? (byName arguments) name =
      arguments.find? fun argument => argument.name = name := by
  induction arguments with
  | nil => rfl
  | cons first rest ih =>
    rw [byName, List.map_cons, Entries.find?_cons, List.find?_cons]
    by_cases h : first.name = name
    · simp [h]
    · have hname : ¬ name = first.name := fun he => h he.symm
      simp only [h, hname, if_false, decide_false]
      exact ih

section Written

variable {arguments declared : List Argument}
  (h : byName arguments = Entries.ofList (byName declared))

include h

/-- The names stand in the order in which they were declared first. -/
theorem names_of_written :
    arguments.map Argument.name = (declared.map Argument.name).eraseDups := by
  rw [← keys_byName, h, Entries.keys_ofList, keys_byName]

/-- Each argument is what was declared last under its name. -/
theorem last?_of_written {argument : Argument} (hm : argument ∈ arguments) :
    Argument.last? declared argument.name = some argument := by
  have hentry : (argument.name, argument) ∈ Entries.ofList (byName declared) :=
    h ▸ List.mem_map_of_mem hm
  have hfound := Entries.find?_of_mem (Entries.nodup_keys_ofList (byName declared)) hentry
  rw [Entries.find?_ofList, byName, ← List.map_reverse] at hfound
  exact (find?_byName declared.reverse argument.name).symm.trans hfound

end Written

end Resolver

/-! ## Binding -/

namespace Coercion

variable {types : Types} {bindings : Variables} {bound : Nat} {arguments : List Argument}
  {field : Field} {received : Fields}

/-- Arguments with distinct names are entered one by one, each with its coerced value. -/
theorem coerceArguments_eq_ok (hnodup : (arguments.map Argument.name).Nodup)
    (h : (coerceArguments types bindings bound arguments field).run = some (.ok received)) :
    List.Forall₂ (fun argument entry => argument.name = entry.1 ∧
      (coerceArgument types bindings bound field argument).run = some (.ok entry.2))
      arguments received := by
  obtain ⟨coerced, hcoerced, hreceived⟩ := bind_eq_ok_iff.mp h
  have hentries : List.Forall₂ (fun argument entry => argument.name = entry.1 ∧
      (coerceArgument types bindings bound field argument).run = some (.ok entry.2))
      arguments coerced := by
    refine (mapM_eq_ok_iff.mp hcoerced).imp fun argument entry hentry => ?_
    obtain ⟨value, hvalue, ⟨⟩⟩ := bind_eq_ok_iff.mp hentry
    exact ⟨rfl, named_eq_ok_iff.mp hvalue⟩
  have hkeys : arguments.map Argument.name = Entries.keys coerced :=
    Entries.map_eq_keys_iff.mpr (hentries.imp fun _ _ hentry => hentry.1)
  cases hreceived
  rw [Entries.ofList_eq_self (hkeys ▸ hnodup)]
  exact hentries

end Coercion

open Coercion

/-- Whatever is declared, the arguments have distinct names in the order in which these were
    declared first, each with the type and default that were declared last; a resolver of a single
    argument has just that one. If the arguments of a field are coerced, a resolver receives all of
    them under their names, in this order, or else the coerced value of its single argument. -/
theorem arguments_bound (declared : List Argument) (types : Types) (bindings : Variables)
    (bound : Nat) (field : Field) :
    (∀ resolve : Fields → Node ref,
      let resolver := (Resolver.named [] resolve).declareAll declared
      let names := (declared.map Argument.name).eraseDups
      names.Nodup ∧ resolver.arguments.map Argument.name = names ∧
      (∀ argument ∈ resolver.arguments,
        Argument.last? declared argument.name = some argument) ∧
      ∀ received,
        (coerceArguments types bindings bound resolver.arguments field).run =
          some (.ok received) →
        resolver.call received = resolve received ∧ Entries.keys received = names ∧
        List.Forall₂ (fun argument entry => argument.name = entry.1 ∧
          (coerceArgument types bindings bound field argument).run = some (.ok entry.2))
          resolver.arguments received) ∧
    ∀ (name : String) (type : TypeRef) (resolve : Value → Node ref),
      let first : Argument := ⟨name, type, none⟩
      let resolver := (Resolver.single first resolve).declareAll declared
      ∃ argument, resolver.arguments = [argument] ∧ argument.name = name ∧
        Argument.last? (first :: declared) name = some argument ∧
        ∀ received,
          (coerceArguments types bindings bound resolver.arguments field).run =
            some (.ok received) →
          ∃ value, received = [(name, value)] ∧ resolver.call received = resolve value ∧
            (coerceArgument types bindings bound field argument).run = some (.ok value) := by
  constructor
  · intro resolve resolver names
    obtain ⟨arguments, hresolver, hwritten⟩ := Resolver.declareAll_named resolve declared
    have hresolver : resolver = .named arguments resolve := hresolver
    have hnames : arguments.map Argument.name = names := Resolver.names_of_written hwritten
    have hnodup : (resolver.arguments.map Argument.name).Nodup :=
      Resolver.nodup_declareAll (.named [] resolve) List.nodup_nil declared
    rw [hresolver] at hnodup ⊢
    refine ⟨hnames ▸ hnodup, hnames, fun argument => Resolver.last?_of_written hwritten, ?_⟩
    intro received h
    have hentries := coerceArguments_eq_ok hnodup h
    refine ⟨rfl, ?_, hentries⟩
    rw [← hnames]
    exact (Entries.map_eq_keys_iff.mpr (hentries.imp fun _ _ hentry => hentry.1)).symm
  · intro name type resolve first resolver
    obtain ⟨argument, hresolver, hlast⟩ := Resolver.declareAll_single first resolve declared
    have hresolver : resolver = .single argument resolve := hresolver
    have hname : argument.name = name := Argument.name_of_last? hlast
    have hnodup : (resolver.arguments.map Argument.name).Nodup :=
      Resolver.nodup_declareAll (.single first resolve) (List.nodup_singleton _) declared
    rw [hresolver] at hnodup ⊢
    refine ⟨argument, rfl, hname, hlast, fun received h => ?_⟩
    obtain _ | @⟨_, ⟨key, value⟩, _, _, ⟨hkey, hvalue⟩, ⟨⟩⟩ := coerceArguments_eq_ok hnodup h
    obtain rfl : key = name := hkey.symm.trans hname
    refine ⟨value, rfl, ?_, hvalue⟩
    rw [Resolver.call, hname, Entries.find?_cons, if_pos rfl, Option.getD_some]

namespace Sample

/-- The ids, a limit, and the ids once more with another type. -/
def shipArguments : List Argument :=
  [⟨"ids", .int, none⟩, ⟨"limit", .int, some (.int 10)⟩, ⟨"ids", .list .int, none⟩]

/-- Gives the ids by a variable and nothing else. -/
def shipsField : Field where
  aliasName := none
  name := "ships"
  arguments := [("ids", .var "id")]
  selections := []
  composite := false
  guard := {}
  location := ⟨1, 1⟩

/-- Answers what it receives. -/
def shipsResolver : Resolver Empty :=
  (Resolver.named [] fun received => .ready none (.leaf (.object received))).declareAll
    shipArguments

/-- Takes ids and nothing else. -/
def idsResolver : Resolver Empty :=
  (Resolver.single ⟨"ids", .int, none⟩ fun value => .ready none (.leaf value)).declareAll
    shipArguments

end Sample

/-- The ids come first, as a list, and the limit has its default. The limit is not declared where
    the ids are the single argument. -/
theorem arguments_bound_ships :
    (coerceArguments {} [("id", .int 5)] 3 Sample.shipsResolver.arguments
        Sample.shipsField).run =
      some (.ok [("ids", .list [.int 5]), ("limit", .int 10)]) ∧
    Sample.shipsResolver.arguments.map Argument.name = ["ids", "limit"] ∧
    Sample.shipsResolver.call [("ids", .list [.int 5]), ("limit", .int 10)] =
      .ready none (.leaf (.object [("ids", .list [.int 5]), ("limit", .int 10)])) ∧
    (coerceArguments {} [("id", .int 5)] 3 Sample.idsResolver.arguments
        Sample.shipsField).run =
      some (.ok [("ids", .list [.int 5])]) ∧
    Sample.idsResolver.call [("ids", .list [.int 5])] =
      .ready none (.leaf (.list [.int 5])) := by
  have hships : (coerceArguments {} [("id", .int 5)] 3 Sample.shipsResolver.arguments
    Sample.shipsField).run = some (.ok [("ids", .list [.int 5]), ("limit", .int 10)]) := rfl
  have hids : (coerceArguments {} [("id", .int 5)] 3 Sample.idsResolver.arguments
    Sample.shipsField).run = some (.ok [("ids", .list [.int 5])]) := rfl
  obtain ⟨hnamed, hsingle⟩ := @arguments_bound Empty Sample.shipArguments {}
    [("id", .int 5)] 3 Sample.shipsField
  obtain ⟨-, hnames, -, hreceives⟩ := hnamed fun received => .ready none (.leaf (.object received))
  obtain ⟨argument, -, -, -, hreceived⟩ :=
    hsingle "ids" .int fun value => .ready none (.leaf value)
  obtain ⟨value, hvalue, hcall, -⟩ := hreceived _ hids
  cases hvalue
  exact ⟨hships, hnames, (hreceives _ hships).1, hids, hcall⟩

end GraphQL

import GraphQL.Proofs.Conformance
import GraphQL.Proofs.NestedReferences
import GraphQL.Proofs.Reading

/-!
# Coercion with the variables of a request

The variables of a request refer to no variables, and with such variables coercion always ends,
however the input types refer to themselves: each step makes the value or the type smaller, but for
reading a variable, and that happens once on the way to an atom. Nothing is left that could be
refused for a reference from the value of a variable.

Results:
* `Coercion.ne_nestedVariable`: without references in variables, this refusal does not occur.
* `coercions_end`: coercion, raw values and arguments come to an end, and not to this one. The
  variables of a request have no references, defaults included.
-/

namespace GraphQL

namespace Coercion

variable {types : Types} {bindings : Variables} {bound : Nat}

/-- What finishes ends with an outcome that some bound gives. -/
theorem exists_ends {ε α : Type} {coercion : Nat → Result ε α} {P : Except ε α → Prop}
    (h : Finishes fun bound => (coercion bound).run)
    (hP : ∀ bound outcome, (coercion bound).run = some outcome → P outcome) :
    ∃ outcome, Ends coercion outcome ∧ P outcome := by
  obtain ⟨bound, outcome, h⟩ := h
  have houtcome : P outcome := hP bound outcome (h bound (Nat.le_refl bound))
  exact ⟨outcome, ⟨bound, h⟩, houtcome⟩

/-- A reference is refused only if it is the value of a variable, and no value has references. -/
theorem ne_nestedVariable (hclosed : bindings.Closed) (type : TypeRef) (written : InputValue)
    (nested : String) :
    (coerce types bindings bound type written).run ≠ some (.error (.nestedVariable nested)) := by
  intro h
  obtain ⟨name, -, hvalue⟩ := exists_reads nested bound type written h
  have hnone : (InputValue.var nested).references = [] := hclosed name _ hvalue
  rw [InputValue.references] at hnone
  exact absurd hnone (List.cons_ne_nil nested [])

theorem coerceArgument_ne_nestedVariable (hclosed : bindings.Closed) (field : Field)
    (argument : Argument) (nested : String) :
    (coerceArgument types bindings bound field argument).run ≠
      some (.error (.nestedVariable nested)) := by
  unfold coerceArgument
  split
  · exact ne_nestedVariable hclosed _ _ nested
  · split
    · rintro ⟨⟩
    · exact ne_nestedVariable hclosed _ _ nested

theorem coerceArguments_ne_nestedVariable (hclosed : bindings.Closed) (arguments : List Argument)
    (field : Field) (name nested : String) :
    (coerceArguments types bindings bound arguments field).run ≠
      some (.error (name, .nestedVariable nested)) := by
  intro h
  obtain h | ⟨_, _, ⟨⟩⟩ := bind_eq_error_iff.mp h
  obtain ⟨before, argument, after, -, -, h⟩ := mapM_eq_error_iff.mp h
  obtain h | ⟨_, _, ⟨⟩⟩ := bind_eq_error_iff.mp h
  obtain ⟨-, hargument⟩ := named_eq_error_iff.mp h
  exact coerceArgument_ne_nestedVariable hclosed field argument nested hargument

end Coercion

open Coercion

/-- If no value of a variable refers to a variable, coercing a value, reading it raw and coercing
    the arguments of a field come to an end, whatever the types are, and no reference is refused for
    where it stands. The variables of a request are such ones, and they remain so when the defaults
    of the operation are added. -/
theorem coercions_end (types : Types) :
    (∀ bindings : Variables, bindings.Closed →
      (∀ type written, ∃ outcome,
        Ends (fun bound => coerce types bindings bound type written) outcome ∧
          ∀ nested, outcome ≠ .error (.nestedVariable nested)) ∧
      (∀ written : InputValue, ∃ bound raw, ∀ more ≥ bound,
        written.toValue bindings more = some raw) ∧
      ∀ arguments field, ∃ outcome,
        Ends (fun bound => coerceArguments types bindings bound arguments field) outcome ∧
          ∀ name nested, outcome ≠ .error (name, .nestedVariable nested)) ∧
    ∀ body request limits document operation, Request.read? body = some request →
      ExecutableDocument.read limits request.query = .ok document →
      document.operation request.operationName = .ok operation →
      (operation.complete request.bindings).Closed := by
  constructor
  · intro bindings hclosed
    refine ⟨fun type written => ?_, fun written => ?_, fun arguments field => ?_⟩
    · refine exists_ends (coerce_finishes hclosed type written) ?_
      rintro bound _ h nested rfl
      exact ne_nestedVariable hclosed type written nested h
    · exact InputValue.toValue_finishes hclosed written
    · refine exists_ends (coerceArguments_finishes hclosed arguments field) ?_
      rintro bound _ h name nested rfl
      exact coerceArguments_ne_nestedVariable hclosed arguments field name nested h
  · intro body request limits document operation hrequest hdocument hoperation
    have hclosed : request.bindings.Closed := Request.closed_of_read hrequest
    exact ExecutableDocument.closed_complete hdocument hoperation hclosed

namespace Sample

/-- Asks with a search within a search as a default. -/
def searchQuery : String := "query($s:Search=\x7bwithin:\x7b\x7d\x7d)\x7ba\x7d"

/-- The same as it arrives, with a variable that the operation does not declare. -/
def searchBody : String := "[\"" ++ searchQuery ++ "\",null,\x7b\"q\":[1]\x7d]"

def searchOperation : Operation where
  name := none
  kind := .query
  declared := [("s", some (.object [("within", .object [])]))]
  selections := [.field ⟨none, "a", [], [], false, {}, ⟨1, 30⟩⟩]

theorem read_searchBody :
    Request.read? searchBody = some ⟨searchQuery, none, [("q", .list [.int 1])]⟩ := by
  rw [Request.read?, Json.Outline.read?]
  simp only [searchBody, searchQuery, String.reduceAppend, String.reduceToList]
  rfl

theorem scan_searchQuery : Token.scan 99 searchQuery =
    some (line [(.name "query", 1), (.parenL, 6), (.dollar, 7), (.name "s", 8), (.colon, 9),
      (.name "Search", 10), (.equals, 16), (.braceL, 17), (.name "within", 18), (.colon, 24),
      (.braceL, 25), (.braceR, 26), (.braceR, 27), (.parenR, 28), (.braceL, 29), (.name "a", 30),
      (.braceR, 31)]) := by
  decide +kernel

theorem read_searchQuery :
    ExecutableDocument.read ⟨9, 99⟩ searchQuery = .ok ⟨[], [searchOperation]⟩ :=
  (ExecutableDocument.read_of_scan scan_searchQuery rfl).trans rfl

end Sample

/-- A search may be within a search and so on. The one of this request does not say what it is
    about, and that is the outcome. -/
theorem coercions_end_search :
    let bindings := Sample.searchOperation.complete [("q", .list [.int 1])]
    Ends (fun bound => coerce Sample.searchTypes bindings bound (.named "Search") (.var "s"))
      (.error (.missingField "Search" "about")) := by
  intro bindings
  obtain ⟨hends, hclosed⟩ := coercions_end Sample.searchTypes
  obtain ⟨hcoerce, -, -⟩ := hends _ (hclosed Sample.searchBody _ ⟨9, 99⟩ _ _
    Sample.read_searchBody Sample.read_searchQuery rfl)
  obtain ⟨outcome, ⟨bound, houtcome⟩, -⟩ := hcoerce (.named "Search") (.var "s")
  -- Two levels are enough to see which outcome it is.
  have hsame := houtcome (bound + 2) (Nat.le_add_right bound 2)
  have hshown : some (.error (.missingField "Search" "about")) = some outcome := hsame
  rw [Option.some.inj hshown]
  exact ⟨bound, houtcome⟩

end GraphQL

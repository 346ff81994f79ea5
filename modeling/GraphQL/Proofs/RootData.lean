import GraphQL.Proofs.Isolation
import GraphQL.Proofs.Listing

/-!
# Root data

The data of a response is null when every root field failed. A field that failed can be told by its
errors: it has one at its own path, while errors of what lies further down have longer paths. So it
can be read off the errors of a response whether its data is null.

Results:
* `Outcome.Marked.failed_iff`: a field failed if and only if an error has the path of the field.
* `markingRules`: every step of an execution marks failures so.
* `root_data`: when the data of a response is null, and what it is otherwise.
-/

namespace GraphQL

variable {ref : Type}

/-! ## Marked failures -/

/-- A field at `path` that failed has an error there. One that did not may only be null if nothing
    failed in it. -/
structure Outcome.Marked (path : Path) (outcome : Outcome) : Prop where
  of_failed : outcome.failed = true → ∃ error ∈ outcome.errors, error.path = some path
  of_not_failed : outcome.failed = false → outcome.value = .null → outcome.errors = []

namespace Outcome.Marked

variable {path : Path} {outcome : Outcome}

theorem failure (error : FieldError) (field : Field) (path : Path) :
    (Outcome.failure error field path).Marked path where
  of_failed _ := ⟨_, List.mem_singleton_self _, rfl⟩
  of_not_failed h := by cases h

theorem clean (value : Value) (path : Path) : Outcome.Marked path ⟨value, [], false⟩ where
  of_failed h := by cases h
  of_not_failed _ _ := rfl

/-- A field with a value of its own did not fail. -/
theorem of_ne_null {value : Value} (hvalue : value ≠ .null) (errors : List Error) (path : Path) :
    Outcome.Marked path ⟨value, errors, false⟩ where
  of_failed h := by cases h
  of_not_failed _ hnull := absurd hnull hvalue

/-- A field failed if and only if it has an error at its own path. -/
theorem failed_iff (h : outcome.Marked path) (hfaults : Faults path outcome.value outcome.errors) :
    outcome.failed = true ↔ ∃ error ∈ outcome.errors, error.path = some path := by
  refine ⟨h.of_failed, ?_⟩
  rintro ⟨error, hm, hpath⟩
  obtain ⟨hnull, -⟩ := hfaults.null_of_path_eq hm hpath
  rw [← Bool.not_eq_false]
  intro hfailed
  rw [h.of_not_failed hfailed hnull] at hm
  exact List.not_mem_nil hm

end Outcome.Marked

/-- Picking has errors only in objects and lists. -/
theorem Record.marked_pick (scope : Collection.Scope) (value : Value) (declared : Option String)
    (selections : List Selection) (path : Path) :
    Outcome.Marked path ⟨(pick scope value declared selections path).value,
      (pick scope value declared selections path).errors, false⟩ := by
  cases value with
  | object fields =>
    rw [pick]
    exact .of_ne_null (by simp [pickFields]) _ _
  | list items =>
    rw [pick]
    exact .of_ne_null (by simp) _ _
  | null | boolean | int | float | string | enum =>
    rw [pick_scalar rfl rfl]
    exact .clean _ _

/-- Failures are marked by every kind of work. -/
def marking (ref : Type) : Property ref where
  value _ _ _ path _ timed := timed.value.Marked path
  node _ _ _ path _ timed := timed.value.Marked path
  field _ _ path _ timed := timed.value.Marked path
  fields _ _ path _ _ timed := ∀ entry ∈ timed.value, entry.2.Marked (path.join (.key entry.1))

/-- Every step of an execution marks failures. -/
theorem markingRules (context : Context ref) : context.Rules (marking ref) where
  picked _ := Record.marked_pick _ _ _ _ _
  leaf _ := .clean _ _
  object _ _ := .of_ne_null (by simp) _ _
  unselected _ := .failure _ _ _
  list _ := .of_ne_null (by simp) _ _
  ready h := h
  effect h := h
  failed := .failure _ _ _
  stream := .failure _ _ _
  typename _ := .clean _ _
  unresolved _ _ := .failure _ _ _
  resolved _ _ h := h
  fields h := by
    intro entry hm
    obtain ⟨i, hget⟩ := List.mem_iff_getElem?.mp hm
    obtain ⟨item, _, _, -, ⟨outcome, houtcome, rfl⟩, rfl⟩ := h.value_getElem? hget
    exact houtcome

/-! ## Data -/

theorem Outcomes.allFailed_iff_forall (outcomes : Outcomes) :
    outcomes.allFailed = true ↔ outcomes ≠ [] ∧ ∀ entry ∈ outcomes, entry.2.failed = true := by
  rw [allFailed, Bool.and_eq_true, Bool.not_eq_true', List.isEmpty_eq_false_iff, List.all_eq_true]

/-- Of the errors of an object, those at the path of a field are errors of that field. -/
theorem Outcomes.exists_error_iff {outcomes : Outcomes} {path : Path}
    (hnodup : (Entries.keys outcomes).Nodup)
    (hfaults : ∀ entry ∈ outcomes, Faults (path.join (.key entry.1)) entry.2.value entry.2.errors)
    {entry : String × Outcome} (hm : entry ∈ outcomes) :
    (∃ error ∈ outcomes.errors, error.path = some (path.join (.key entry.1))) ↔
      ∃ error ∈ entry.2.errors, error.path = some (path.join (.key entry.1)) := by
  constructor
  · rintro ⟨error, herror, hpath⟩
    obtain ⟨other, hother, herror⟩ := List.mem_flatMap.mp herror
    have hunder := Error.isUnder_iff.mp ((hfaults other hother).isUnder error herror)
    obtain ⟨place, hplace, hunder⟩ := hunder
    obtain rfl : path.join (.key entry.1) = place := Option.some.inj (hpath.symm.trans hplace)
    have hkey : other.1 = entry.1 := by
      have hsegment := hunder.join_inj (Path.Under.refl _)
      injection hsegment
    have hfound := Entries.find?_of_mem hnodup hother
    rw [hkey, Entries.find?_of_mem hnodup hm] at hfound
    rw [Option.some.inj hfound]
    exact ⟨error, herror, hpath⟩
  · rintro ⟨error, herror, hpath⟩
    exact ⟨error, List.mem_flatMap.mpr ⟨entry, hm, herror⟩, hpath⟩

/-- The data of the response to a query or mutation is null if there are root fields and each of
    them has an error with its own path. Otherwise it is an object that has the response keys of
    what the operation lists, each at its first place. Errors further down do not matter, and
    without root fields the object is empty and there are no errors. -/
theorem root_data {service : Service ref} {objects : ref → ObjectType ref}
    {bound start finish : Nat} {document : ExecutableDocument} {name : Option String}
    {bindings : Variables} {response : Response Error} {record : List Occurrence}
    (h : service.executeDocument objects bound document name bindings start =
      some ⟨.ok (.response response), finish, record⟩) :
    ∃ operation root listed seen, service.Selects document name operation root ∧
      Collection.Lists
        ((service.context objects document (operation.complete bindings)).scope (some root.name))
        [] operation.selections listed seen ∧
      let keys := (listed.map FieldSelection.responseKey).eraseDups
      let FailedItself := fun key =>
        ∃ error ∈ response.errors, error.path = some (Path.root.join (.key key))
      (response.data = some .null ↔ keys ≠ [] ∧ ∀ key ∈ keys, FailedItself key) ∧
      (¬ (keys ≠ [] ∧ ∀ key ∈ keys, FailedItself key) →
        ∃ fields, response.data = some (.object fields) ∧ Entries.keys fields = keys) ∧
      (∀ key ∈ keys, (∀ error ∈ response.errors, ∀ path, error.path = some path →
          (Path.root.join (.key key)).Under path → path ≠ Path.root.join (.key key)) →
        response.data ≠ some .null) ∧
      (keys = [] → response.data = some (.object []) ∧ response.errors = []) := by
  obtain ⟨operation, root, outcomes, hselects, hrun, rfl⟩ :=
    Service.executeDocument_eq_response_iff.mp h
  obtain ⟨hkeys, hfaults⟩ := ((faultRules _).holds bound).fields hrun
  have hmarked := ((markingRules _).holds bound).fields hrun
  obtain ⟨listed, seen, hlists, hcollect⟩ := Collection.exists_lists
    ((service.context objects document (operation.complete bindings)).scope (some root.name))
    operation.selections
  have hnodup : (Entries.keys outcomes).Nodup := hkeys ▸ nodup_keys_collect _ _
  rw [hcollect, Collection.keys_group] at hkeys
  refine ⟨operation, root, listed, seen, hselects, hlists, ?_⟩
  intro keys FailedItself
  have hfailed : ∀ entry ∈ outcomes, (entry.2.failed = true ↔ FailedItself entry.1) := by
    intro entry hm
    rw [(hmarked entry hm).failed_iff (hfaults entry hm)]
    exact (Outcomes.exists_error_iff hnodup hfaults hm).symm
  have hall : outcomes.allFailed = true ↔ keys ≠ [] ∧ ∀ key ∈ keys, FailedItself key := by
    rw [Outcomes.allFailed_iff_forall]
    have hmap : keys = outcomes.map Prod.fst := hkeys.symm
    rw [hmap, ne_eq, ne_eq, List.map_eq_nil_iff, List.forall_mem_map]
    exact and_congr_right fun _ => forall₂_congr hfailed
  have hdata : outcomes.response.data = some .null ↔ outcomes.allFailed = true := by
    cases hcase : outcomes.allFailed <;> simp [Outcomes.response, hcase]
  refine ⟨hdata.trans hall, fun hnot => ?_, fun key hkey hdeep => ?_, fun hnone => ?_⟩
  · rw [← hall, Bool.not_eq_true] at hnot
    refine ⟨outcomes.fields, by simp [Outcomes.response, hnot], ?_⟩
    rw [Outcomes.fields, Entries.mapValues, Entries.keys, List.map_map]
    exact hkeys
  · rw [ne_eq, hdata, hall]
    rintro ⟨-, hevery⟩
    obtain ⟨error, hm, hpath⟩ := hevery key hkey
    exact hdeep error hm _ hpath (.refl _) rfl
  · have hempty : outcomes = [] := by
      have hmap : outcomes.map Prod.fst = [] := hkeys.trans hnone
      exact List.map_eq_nil_iff.mp hmap
    subst hempty
    exact ⟨rfl, rfl⟩

namespace Sample

/-- Asks for a ship without its fields, and for a crew, which is not declared. -/
def stranded : ExecutableDocument :=
  ⟨[], [⟨none, .query, [], [select "ship" [], select "crew" []]⟩]⟩

end Sample

/-- The ship has come by the time that both fields have failed. -/
theorem root_data_stranded :
    ∃ (response : Response Error) (record : List Occurrence) (keys : List String),
      (Sample.service 3 2).executeDocument (fun _ => Sample.ship 3) 20 Sample.stranded none [] 0 =
        some ⟨.ok (.response response), 3, record⟩ ∧
      response.data = some .null ∧ keys ≠ [] ∧
      ∀ key ∈ keys, ∃ error ∈ response.errors, error.path = some (Path.root.join (.key key)) := by
  have hselects : (Sample.service 3 2).Selects Sample.stranded none
      ⟨none, .query, [], [Sample.select "ship" [], Sample.select "crew" []]⟩ (Sample.root 3) :=
    ⟨rfl, rfl, by decide⟩
  have hrun : ((Sample.service 3 2).executeRoot (fun _ => Sample.ship 3) 20 Sample.stranded
      ⟨none, .query, [], [Sample.select "ship" [], Sample.select "crew" []]⟩ (Sample.root 3) []
      0).map (fun timed => (timed.value.allFailed, timed.finish)) = some (true, 3) := by
    decide +kernel
  obtain ⟨⟨outcomes, finish, record⟩, hroot, hends⟩ := Option.map_eq_some_iff.mp hrun
  obtain ⟨hall, rfl⟩ := Prod.mk.inj hends
  have h := Service.executeDocument_eq_response_iff.mpr ⟨_, _, outcomes, hselects, hroot, rfl⟩
  have hnull : outcomes.response.data = some .null := by
    rw [Outcomes.response, hall]
    rfl
  obtain ⟨_, _, listed, _, -, -, hdata, -⟩ := root_data h
  obtain ⟨hsome, hfailed⟩ := hdata.mp hnull
  exact ⟨outcomes.response, record, _, h, hnull, hsome, hfailed⟩

end GraphQL

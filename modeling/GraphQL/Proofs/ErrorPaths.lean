import GraphQL.Proofs.Collection
import GraphQL.Proofs.Completion
import GraphQL.Proofs.Positions
import GraphQL.Proofs.Record
import GraphQL.Proofs.Service

/-!
# The paths of errors

Values and errors are put together side by side. `Faults` ties them: the errors in a value lead to
nulls in it, in depth-first order. Picking from a record keeps it, and so does every step of an
execution.

Main results:
* `Record.faults_pick`: what is picked from a record has its errors at nulls.
* `faultRules`: what is completed has its errors at nulls.
* `error_paths_of_response`: the errors of a response have paths that lead to nulls of its data,
  none of which lies in another, and come in depth-first order.
-/

namespace GraphQL

variable {ref : Type}

/-! ## Records -/

namespace Record

variable {scope : Collection.Scope}

/-- Picking one field: below it, `picker` has its errors at nulls. -/
theorem faults_pickField {entries : Entries (Value × Picker)} {runtime : Option String}
    {collected : CollectedField} {path : Path}
    (hpickers : ∀ name value picker, Entries.find? entries name = some (value, picker) →
      ∀ selections path,
        Faults path (picker selections path).value (picker selections path).errors) :
    Faults path (pickField entries runtime collected path).value
      (pickField entries runtime collected path).errors := by
  rw [pickField]
  split
  · exact .none path _
  · cases hf : Entries.find? entries collected.field.name with
    | none => exact .failure _ _ path
    | some entry =>
      obtain ⟨value, picker⟩ := entry
      dsimp only
      split
      · exact hpickers _ _ _ hf _ _
      · exact .none path value

/-- What is picked from a value has its errors at nulls. -/
theorem faults_pick (value : Value) (declared : Option String) (selections : List Selection)
    (path : Path) :
    Faults path (pick scope value declared selections path).value
      (pick scope value declared selections path).errors := by
  induction value using Value.induction generalizing declared selections path with
  | scalar value hitems hfields =>
    rw [pick_scalar hitems hfields]
    exact .none path value
  | list items ih =>
    rw [pick, pickItems_eq_map]
    refine Faults.list Picked.value Picked.errors fun i picked hget => ?_
    rw [List.getElem?_map, Option.map_eq_some_iff] at hget
    obtain ⟨⟨item, j⟩, hget, rfl⟩ := hget
    rw [List.getElem?_zipIdx, Option.map_eq_some_iff] at hget
    obtain ⟨item', hget, he⟩ := hget
    cases he
    rw [Nat.zero_add]
    exact ih item (List.mem_of_getElem? hget) _ _ _
  | object fields ih =>
    rw [pick, pickFields]
    refine Faults.object Picked.value Picked.errors ?_ fun entry hm => ?_
    · simp only [Entries.keys, List.map_map]
      exact nodup_keys_collect _ selections
    · obtain ⟨⟨key, collected⟩, -, rfl⟩ := List.mem_map.mp hm
      refine faults_pickField fun name value picker hfind => ?_
      rw [pickers_eq_mapValues, Entries.find?_mapValues, Option.map_eq_some_iff] at hfind
      obtain ⟨found, hfound, he⟩ := hfind
      cases he
      exact ih (name, value) (Entries.mem_of_find? hfound) none

/-- Picking one field of a record. -/
theorem faults_pickField_pickers (fields : Fields) (runtime : Option String)
    (collected : CollectedField) (path : Path) :
    Faults path (pickField (pickers scope fields) runtime collected path).value
      (pickField (pickers scope fields) runtime collected path).errors := by
  refine faults_pickField fun name value picker hfind => ?_
  rw [pickers_eq_mapValues, Entries.find?_mapValues, Option.map_eq_some_iff] at hfind
  obtain ⟨found, -, he⟩ := hfind
  cases he
  exact faults_pick value none

end Record

/-! ## Executions -/

/-- Errors at nulls, for every kind of work. The outcomes of the fields of an object are those of
    the collected keys. -/
def faulty (context : Context ref) : Property ref where
  value _ _ _ path _ timed := Faults path timed.value.value timed.value.errors
  node _ _ _ path _ timed := Faults path timed.value.value timed.value.errors
  field _ _ path _ timed := Faults path timed.value.value timed.value.errors
  fields _ object path selections _ timed :=
    Entries.keys timed.value =
        Entries.keys (collect (context.scope (some object.name)) selections) ∧
      ∀ entry ∈ timed.value, Faults (path.join (.key entry.1)) entry.2.value entry.2.errors

theorem Outcomes.faults {outcomes : Outcomes} {path : Path}
    (hnodup : (Entries.keys outcomes).Nodup)
    (h : ∀ entry ∈ outcomes, Faults (path.join (.key entry.1)) entry.2.value entry.2.errors) :
    Faults path (.object outcomes.fields) outcomes.errors :=
  Faults.object Outcome.value Outcome.errors hnodup h

/-- Every step of an execution has its errors at nulls. -/
theorem faultRules (context : Context ref) : context.Rules (faulty context) where
  picked _ := Record.faults_pick _ _ _ _
  leaf _ := .none _ _
  object _ h := Outcomes.faults (h.1 ▸ nodup_keys_collect _ _) h.2
  unselected _ := .failure _ _ _
  list h := by
    refine Faults.list Outcome.value Outcome.errors fun i outcome hget => ?_
    obtain ⟨⟨node, j⟩, _, run, hitem, hrun, rfl⟩ := h.value_getElem? hget
    rw [List.getElem?_zipIdx, Option.map_eq_some_iff] at hitem
    obtain ⟨_, _, he⟩ := hitem
    cases he
    rw [Nat.zero_add] at hrun
    exact hrun
  ready h := h
  effect h := h
  failed := .failure _ _ _
  stream := .failure _ _ _
  typename _ := .none _ _
  unresolved _ _ := .failure _ _ _
  resolved _ _ h := h
  fields {width object path selections start timed} h := by
    refine ⟨h.value_map Prod.fst Prod.fst ?_, fun entry hm => ?_⟩
    · rintro entry - _ _ ⟨outcome, -, rfl⟩
      rfl
    · obtain ⟨i, hget⟩ := List.mem_iff_getElem?.mp hm
      obtain ⟨item, _, _, -, ⟨outcome, houtcome, rfl⟩, rfl⟩ := h.value_getElem? hget
      exact houtcome

/-- Every error of the response to a query or mutation has a path. The paths lead to nulls of the
    root object, and hence of the data or the data is null as a whole; none of them is the beginning
    of another, and they come in depth-first order of the root object. -/
theorem error_paths_of_response {service : Service ref} {objects : ref → ObjectType ref}
    {bound start finish : Nat} {document : ExecutableDocument} {name : Option String}
    {bindings : Variables} {response : Response Error} {record : List Occurrence}
    (h : service.executeDocument objects bound document name bindings start =
      some ⟨.ok (.response response), finish, record⟩) :
    ∃ operation root outcomes,
      service.Selects document name operation root ∧
      service.executeRoot objects bound document operation root bindings start =
        some ⟨outcomes, finish, record⟩ ∧
      response.data = some (if outcomes.allFailed then .null else .object outcomes.fields) ∧
      ∃ paths : List Path,
        response.errors.map Error.path = paths.map some ∧
        (∀ path ∈ paths, (Value.object outcomes.fields).at? path.segments = some .null) ∧
        (∀ path ∈ paths, ∃ data, response.data = some data ∧
          (data = .null ∨ data.at? path.segments = some .null)) ∧
        (paths.Pairwise fun p q => ¬ p.segments <+: q.segments ∧ ¬ q.segments <+: p.segments) ∧
        paths.Pairwise fun p q =>
          (Value.object outcomes.fields).Precedes p.segments q.segments := by
  obtain ⟨operation, root, outcomes, hselects, hrun, rfl⟩ :=
    Service.executeDocument_eq_response_iff.mp h
  obtain ⟨hkeys, hfields⟩ := ((faultRules _).holds bound).fields hrun
  obtain ⟨places, hpaths, hnull, hordered⟩ :=
    Outcomes.faults (hkeys ▸ nodup_keys_collect _ _) hfields
  refine ⟨operation, root, outcomes, hselects, hrun, rfl, places.map Path.mk, ?_, ?_, ?_, ?_, ?_⟩
  · rw [List.map_map]
    exact hpaths
  · intro path hm
    obtain ⟨place, hplace, rfl⟩ := List.mem_map.mp hm
    exact hnull place hplace
  · intro path hm
    obtain ⟨place, hplace, rfl⟩ := List.mem_map.mp hm
    refine ⟨_, rfl, ?_⟩
    split
    · exact .inl rfl
    · exact .inr (hnull place hplace)
  · rw [List.pairwise_map]
    exact hordered.imp Value.Precedes.not_prefix
  · rw [List.pairwise_map]
    exact hordered

/-- The errors at `ship/fuel`, `fleet/0/fuel` and `fleet/1`. -/
theorem error_paths_of_response_sample :
    ∃ (response : Response Error) (paths : List Path), response.errors.length = 3 ∧
      response.errors.map Error.path = paths.map some ∧
      paths.Pairwise fun p q => ¬ p.segments <+: q.segments ∧ ¬ q.segments <+: p.segments := by
  have hrun : ((Sample.service 3 2).executeRoot (fun _ => Sample.ship 3) 20
      (Sample.document .query) (Sample.operation .query) (Sample.root 3) [] 0).map
        (fun timed => timed.value.errors.length) = some 3 := by decide +kernel
  obtain ⟨⟨outcomes, finish, record⟩, hroot, hlength⟩ := Option.map_eq_some_iff.mp hrun
  have h := Service.executeDocument_eq_response_iff.mpr
    ⟨_, _, outcomes, Sample.selects_query 3 2, hroot, rfl⟩
  obtain ⟨_, _, _, _, _, _, paths, hpaths, _, _, hprefix, _⟩ := error_paths_of_response h
  exact ⟨outcomes.response, paths, hlength, hpaths, hprefix⟩

end GraphQL

import GraphQL.Proofs.Descent
import GraphQL.Proofs.Reading

/-!
# Requests that finish

An execution goes from the fields of an object to the values of these fields, and from there to the
fields of further objects. A value is finite, so one level finishes if the next one does; and where
no fragment leads back to itself from below a field, what is selected gets less from level to level,
whatever objects the resolvers answer with.

Without that condition an execution need not end: the fragments that a collection has entered are
forgotten on the next level. The other condition, that the variables of a request refer to nothing,
holds for all requests that are read (`Request.closed_of_read`).

Results:
* `InOrder.evaluateFields_finishes`: evaluating the fields of an object finishes.
* `requests_finish`: so does every request for a query or mutation, with a response.
* `cyclic_request_never_finishes`: a request that never ends.
-/

namespace GraphQL

variable {ref : Type}

/-! ## One level -/

namespace InOrder

variable {reference : InOrder ref}

/-- Whatever the object is, evaluating the selections on it finishes. -/
def Evaluable (reference : InOrder ref) (selections : List Selection) : Prop :=
  ∀ object path, Finishes fun bound => reference.evaluateFields bound object path selections

theorem resolve_finishes (hclosed : reference.bindings.Closed) (object : TimelessObject ref)
    (field : Field) : Finishes fun bound => reference.resolve bound object field := by
  unfold resolve
  cases Entries.find? object.fields field.name with
  | none => exact .const _
  | some definition =>
    have hfinishes : Finishes fun bound =>
        (coerceArguments reference.types reference.bindings bound definition.arguments field).run :=
      coerceArguments_finishes hclosed definition.arguments field
    obtain ⟨bound, ⟨argument, reason⟩ | arguments, houtcome⟩ := hfinishes
    · exact ⟨bound, .error (.invalidArgument argument reason), fun more hle => by
        simp only [houtcome more hle]⟩
    · exact ⟨bound, .ok (definition.type, definition.resolve arguments), fun more hle => by
        simp only [houtcome more hle]⟩

variable {collected : CollectedField}

mutual

/-- Completing a value finishes if evaluating what is selected below does. -/
theorem completeSettled_finishes (hbelow : reference.Evaluable collected.selections) :
    ∀ (value : Settled ref) (type : TypeRef) (path : Path),
      Finishes fun bound => reference.completeSettled bound type value collected path
  | .leaf value, type, path => by
    refine .succ ?_
    simp only [completeSettled]
    split <;> exact .const _
  | .object type, _, path => by
    refine .succ ?_
    simp only [completeSettled]
    split
    · exact (hbelow _ path).map _
    · exact .const _
  | .list items, type, path => by
    refine .succ ?_
    simp only [completeSettled, foldlM_items_eq]
    refine ((Finishes.mapM fun entry hm => ?_).map _).map _
    exact completeItems_finishes hbelow items entry.1 (List.fst_mem_of_mem_zipIdx hm) _ _

/-- The same of an answer. -/
theorem completeAnswer_finishes (hbelow : reference.Evaluable collected.selections) :
    ∀ (answer : Answer ref) (type : TypeRef) (path : Path),
      Finishes fun bound => reference.completeAnswer bound type answer collected path
  | .value value, type, path => .succ (completeSettled_finishes hbelow value type path)
  | .failed _, _, _ => .succ (.const _)
  | .stream, _, _ => .succ (.const _)

/-- The same of the items of a list. -/
theorem completeItems_finishes (hbelow : reference.Evaluable collected.selections) :
    ∀ (items : List (Answer ref)), ∀ item ∈ items, ∀ (type : TypeRef) (path : Path),
      Finishes fun bound => reference.completeAnswer bound type item collected path
  | first :: rest, item, hm, type, path =>
    match List.mem_cons.mp hm with
    | .inl he => he ▸ completeAnswer_finishes hbelow first type path
    | .inr hm => completeItems_finishes hbelow rest item hm type path

end

theorem evaluateField_finishes (hclosed : reference.bindings.Closed)
    (hbelow : reference.Evaluable collected.selections) (object : TimelessObject ref)
    (path : Path) : Finishes fun bound => reference.evaluateField bound object collected path := by
  refine .succ ?_
  simp only [evaluateField]
  split
  · exact .const _
  · obtain ⟨first, error | ⟨type, answer⟩, hresolve⟩ :=
      resolve_finishes hclosed object collected.field
    · exact ⟨first, .failure error collected.field path, fun more hle => by
        simp only [hresolve more hle]⟩
    · obtain ⟨second, outcome, hcomplete⟩ := completeAnswer_finishes hbelow answer type path
      refine ⟨max first second, outcome, fun more hle => ?_⟩
      simp only [hresolve more (by omega)]
      exact hcomplete more (by omega)

/-- Evaluating selections finishes if evaluating all that they lead to on the next level does. -/
theorem evaluable_of_below (hclosed : reference.bindings.Closed) {selections : List Selection}
    (h : ∀ runtime, ∀ entry ∈ collect (reference.scope runtime) selections,
      reference.Evaluable entry.2.selections) : reference.Evaluable selections := by
  intro object path
  refine .succ ?_
  simp only [evaluateFields, foldlM_add_eq (nodup_keys_collect _ _)]
  refine (Finishes.mapM fun entry hm => ?_).map _
  exact (evaluateField_finishes hclosed (h _ entry hm) object _).map _

/-! ## All levels -/

theorem exists_lt_of_mem {α : Type} (f : α → Nat) (items : List α) :
    ∃ bound, ∀ item ∈ items, f item < bound := by
  induction items with
  | nil => exact ⟨0, by simp⟩
  | cons item rest ih =>
    obtain ⟨bound, h⟩ := ih
    refine ⟨max bound (f item + 1), fun other hm => ?_⟩
    rcases List.mem_cons.mp hm with rfl | hm
    · omega
    · have := h other hm
      omega

/-- For one rank, selections get smaller from level to level. -/
theorem evaluable_of_size (hclosed : reference.bindings.Closed) {rank : String → Nat}
    (hranks : reference.fragments.Ranks rank) {limit : Nat}
    (hlower : ∀ selections : List Selection,
      (∀ selection ∈ selections, selection.Within rank limit 0) → reference.Evaluable selections)
    (size : Nat) {selections : List Selection}
    (h : ∀ selection ∈ selections, selection.Within rank limit size) :
    reference.Evaluable selections := by
  induction size generalizing selections with
  | zero => exact hlower selections h
  | succ size ih =>
    refine evaluable_of_below hclosed fun runtime entry hentry => ih fun selection hm => ?_
    obtain ⟨field, hreaches, hbelow⟩ := Collection.exists_reaches_of_mem_collect hentry hm
    exact hreaches.within hranks h selection hbelow

/-- Selections within a bound finish. Where their size does not matter any more, the ranks are
    lower. -/
theorem evaluable_of_within (hclosed : reference.bindings.Closed) {rank : String → Nat}
    (hranks : reference.fragments.Ranks rank) (limit size : Nat) {selections : List Selection}
    (h : ∀ selection ∈ selections, selection.Within rank limit size) :
    reference.Evaluable selections := by
  induction limit generalizing size selections with
  | zero =>
    refine evaluable_of_size hclosed hranks (fun selections h => ?_) size h
    have hnone : selections = [] := by
      refine List.eq_nil_iff_forall_not_mem.mpr fun selection hm => ?_
      rcases h selection hm with ⟨less, hless, -⟩ | ⟨-, hsize⟩
      · exact Nat.not_lt_zero less hless
      · exact Nat.not_lt_zero _ hsize
    rw [hnone]
    refine evaluable_of_below hclosed fun runtime entry hentry => ?_
    have hempty : collect (reference.scope runtime) [] = [] := by
      rw [collect]
      cases (reference.scope runtime).fragments.length <;> rfl
    rw [hempty] at hentry
    cases hentry
  | succ limit ihLimit =>
    refine evaluable_of_size hclosed hranks (fun selections h => ?_) size h
    obtain ⟨bound, hbound⟩ := exists_lt_of_mem sizeOf selections
    refine ihLimit bound fun selection hm => .inr ⟨fun name hname => ?_, hbound selection hm⟩
    rcases h selection hm with ⟨less, hless, hrank⟩ | ⟨-, hsize⟩
    · exact (hrank name hname).trans_le (Nat.le_of_lt_succ hless)
    · exact absurd hsize (Nat.not_lt_zero _)

/-- Evaluating the fields of an object finishes, however the objects lead back to themselves. -/
theorem evaluateFields_finishes (hclosed : reference.bindings.Closed)
    (hgrounded : reference.fragments.Grounded) (selections : List Selection)
    (object : TimelessObject ref) (path : Path) :
    Finishes fun bound => reference.evaluateFields bound object path selections := by
  obtain ⟨rank, hranks⟩ := hgrounded.exists_ranks
  obtain ⟨limit, hlimit⟩ := exists_lt_of_mem rank (Selection.allSpreads selections)
  obtain ⟨size, hsize⟩ := exists_lt_of_mem sizeOf selections
  refine evaluable_of_within hclosed hranks limit size (fun selection hm => ?_) object path
  exact .inr ⟨fun name hname => hlimit name (Selection.mem_allSpreads.mpr ⟨selection, hm, hname⟩),
    hsize selection hm⟩

end InOrder

/-! ## Requests -/

section

variable {service : Service ref} {objects : ref → ObjectType ref} {document : ExecutableDocument}
  {operation : Operation} {root : ObjectType ref}

/-- A selected query or mutation gives a response. More levels than it takes change nothing, and
    neither does the time at which it starts. -/
theorem Service.Selects.exists_response {name : Option String} {bindings : Variables}
    (hselects : service.Selects document name operation root)
    (hgrounded : document.fragments.Grounded) (hclosed : (operation.complete bindings).Closed) :
    ∃ bound response, ∀ more ≥ bound,
      (service.executeDocument objects more document name bindings).Gives
        (some (.ok (.response response))) := by
  have hfinishes : Finishes fun bound =>
      (service.context objects document (operation.complete bindings)).inOrder.evaluateFields bound
        root.timeless .root operation.selections :=
    InOrder.evaluateFields_finishes hclosed hgrounded operation.selections root.timeless .root
  obtain ⟨bound, assembly, hassembly⟩ := hfinishes
  exact ⟨bound, assembly.response, fun more hle start =>
    (hselects.gives start).trans (congrArg (Option.map _) (hassembly more hle))⟩

/-- A request for a query or mutation finishes with a response if no fragment of its document leads
    back to itself from below a field and the values of its variables refer to no variables. -/
theorem requests_finish {request : Request}
    (hread : service.readDocument request.query = .ok document)
    (hselects : service.Selects document request.operationName operation root)
    (hgrounded : document.fragments.Grounded) (hclosed : request.bindings.Closed) :
    ∃ bound response, ∀ more ≥ bound, ∀ start, ∃ finish record,
      service.execute objects more request start =
        some ⟨.ok (.response response), finish, record⟩ := by
  have hcomplete : (operation.complete request.bindings).Closed :=
    ExecutableDocument.closed_complete hread hselects.picked hclosed
  have hresponse : ∃ bound response, ∀ more ≥ bound,
      (service.executeDocument objects more document request.operationName request.bindings).Gives
        (some (.ok (.response response))) :=
    hselects.exists_response hgrounded hcomplete
  obtain ⟨bound, response, hgives⟩ := hresponse
  refine ⟨bound, response, fun more hle start => ?_⟩
  obtain ⟨⟨reply, finish, record⟩, hrun, hreply⟩ :=
    Option.map_eq_some_iff.mp (hgives more hle start)
  obtain rfl : reply = .ok (.response response) := hreply
  refine ⟨finish, record, ?_⟩
  rw [Service.execute, hread]
  exact hrun

end

/-! ## A mirror -/

namespace Sample

/-- An object that shows itself. -/
def mirror : ObjectType Unit where
  name := "Mirror"
  fields := [("self", field (.named "Mirror") (.ready none (.object ())))]

/-- The service with this root object. -/
def mirrors : Service Unit where
  schema := { query := mirror }

/-- Looks into the mirror once. The fragments spread each other, but not below a field. -/
def glance : Request where
  query := "{ self { ...A } } fragment A on Mirror { __typename ...B } fragment B on Mirror {...A}"

/-- Looks into the mirror through a fragment that spreads itself below a field. -/
def stare : Request where
  query := "{ ...A } fragment A on Mirror { self { ...A } }"

/-- A field in the first line. -/
def selectAt (column : UInt32) (name : String) (below : List Selection) : Selection :=
  .field ⟨none, name, [], below, !below.isEmpty, {}, ⟨1, column⟩⟩

/-- What is read of a glance. -/
def glanceDocument : ExecutableDocument where
  fragments := [
    ("A", ⟨"Mirror", [selectAt 42 typenameField [], .spread "B" {}]⟩),
    ("B", ⟨"Mirror", [.spread "A" {}]⟩)]
  operations := [⟨none, .query, [], [selectAt 3 "self" [.spread "A" {}]]⟩]

/-- What is read of a stare. -/
def stareDocument : ExecutableDocument where
  fragments := [("A", ⟨"Mirror", [selectAt 33 "self" [.spread "A" {}]]⟩)]
  operations := [⟨none, .query, [], [.spread "A" {}]⟩]

/-- What a stare is evaluated with. -/
def staring : InOrder Unit := (mirrors.context (fun _ => mirror) stareDocument []).inOrder

theorem scan_glance : Token.scan mirrors.configuration.parser.pieces glance.query =
    some (line [(.braceL, 1), (.name "self", 3), (.braceL, 8), (.spread, 10), (.name "A", 13),
      (.braceR, 15), (.braceR, 17), (.name "fragment", 19), (.name "A", 28), (.name "on", 30),
      (.name "Mirror", 33), (.braceL, 40), (.name "__typename", 42), (.spread, 53), (.name "B", 56),
      (.braceR, 58), (.name "fragment", 60), (.name "B", 69), (.name "on", 71), (.name "Mirror", 74),
      (.braceL, 81), (.spread, 82), (.name "A", 85), (.braceR, 86)]) := by
  decide +kernel

theorem readDocument_glance : mirrors.readDocument glance.query = .ok glanceDocument :=
  (ExecutableDocument.read_of_scan scan_glance rfl).trans rfl

theorem scan_stare : Token.scan mirrors.configuration.parser.pieces stare.query =
    some (line [(.braceL, 1), (.spread, 3), (.name "A", 6), (.braceR, 8), (.name "fragment", 10),
      (.name "A", 19), (.name "on", 21), (.name "Mirror", 24), (.braceL, 31), (.name "self", 33),
      (.braceL, 38), (.spread, 40), (.name "A", 43), (.braceR, 45), (.braceR, 47)]) := by
  decide +kernel

theorem readDocument_stare : mirrors.readDocument stare.query = .ok stareDocument :=
  (ExecutableDocument.read_of_scan scan_stare rfl).trans rfl

theorem grounded_glance : glanceDocument.fragments.Grounded := by
  have hflat : ∀ entry ∈ glanceDocument.fragments,
      Selection.allNestedSpreads entry.2.selections = [] := by decide
  intro name fragment hfind other hm
  rw [hflat _ (Entries.mem_of_find? hfind)] at hm
  cases hm

end Sample

/-- A glance is over. It shows what the mirror is in the mirror. -/
theorem requests_finish_glance :
    ∃ bound, ∀ more ≥ bound, ∀ start, ∃ finish record,
      Sample.mirrors.execute (fun _ => Sample.mirror) more Sample.glance start =
        some ⟨.ok (.response ⟨some (.object [("self",
          .object [(typenameField, .string "Mirror")])]), [], []⟩), finish, record⟩ := by
  have hselects : Sample.mirrors.Selects Sample.glanceDocument Sample.glance.operationName _
      Sample.mirror := ⟨rfl, rfl, by decide⟩
  have hfinishes : ∃ bound response, ∀ more ≥ bound, ∀ start, ∃ finish record,
      Sample.mirrors.execute (fun _ => Sample.mirror) more Sample.glance start =
        some ⟨.ok (.response response), finish, record⟩ :=
    requests_finish Sample.readDocument_glance hselects Sample.grounded_glance nofun
  obtain ⟨bound, response, h⟩ := hfinishes
  -- The response is the one that twenty levels give.
  obtain ⟨finish, record, hlate⟩ := h (bound + 20) (Nat.le_add_right _ _) 0
  have hshown : Sample.mirrors.executeDocument (fun _ => Sample.mirror) (bound + 20)
      Sample.glanceDocument none [] 0 = some ⟨.ok (.response ⟨some (.object [("self",
        .object [(typenameField, .string "Mirror")])]), [], []⟩), 0, _⟩ := rfl
  rw [Service.execute, Sample.readDocument_glance] at hlate
  cases hshown.symm.trans hlate
  exact ⟨bound, h⟩

/-- However many levels are looked at, a stare leads to one more. -/
theorem staring_unfinished (bound : Nat) (path : Path) :
    Sample.staring.evaluateFields bound Sample.mirror.timeless path [.spread "A" {}] = none := by
  induction bound using Nat.strongRecOn generalizing path with
  | ind bound ih =>
    match bound with
    | 0 | 1 | 2 | 3 => rfl
    | bound + 4 =>
      -- The field, its answer and its object take a level each.
      have hbelow := ih bound (by omega) (path.join (.key "self"))
      have hlevel : Sample.staring.evaluateFields (bound + 4) Sample.mirror.timeless path
          [.spread "A" {}] =
        Option.bind (Option.map (Assembly.add {} "self")
          (Option.map (fun assembly => ⟨.object assembly.object, assembly.errors, false⟩)
            (Sample.staring.evaluateFields bound Sample.mirror.timeless (path.join (.key "self"))
              [.spread "A" {}]))) some := rfl
      rw [hlevel, hbelow]
      rfl

/-- A stare never ends, although its variables are closed and each resolver answers at once: the
    fragment is entered anew in each mirror. -/
theorem cyclic_request_never_finishes :
    (∃ document operation, Sample.mirrors.readDocument Sample.stare.query = .ok document ∧
      Sample.mirrors.Selects document Sample.stare.operationName operation Sample.mirror ∧
      Sample.stare.bindings.Closed) ∧
    ∀ bound start,
      Sample.mirrors.execute (fun _ => Sample.mirror) bound Sample.stare start = none := by
  have hselects : Sample.mirrors.Selects Sample.stareDocument Sample.stare.operationName _
      Sample.mirror := ⟨rfl, rfl, by decide⟩
  refine ⟨⟨_, _, Sample.readDocument_stare, hselects, nofun⟩, fun bound start => ?_⟩
  have hunfinished := staring_unfinished bound .root
  rw [Service.execute, Sample.readDocument_stare]
  exact Option.map_eq_none_iff.mp
    ((hselects.gives start).trans (congrArg (Option.map _) hunfinished))

end GraphQL

import GraphQL.Proofs.Isolation

/-!
# Records as objects

A resolver may answer with a record, a value whose entries are all there, or with an object, whose
fields have resolvers. Selecting from a record (`Record.pick`) and executing the fields of an object
(`Context.executeFields`) are written apart from each other. `ObjectType.ofRecord` is the object type
that declares the entries of a record as fields: completing the one comes to what completing the
other comes to.

Results:
* `Context.gives_executeField_ofRecord`: the two agree on each field, be it known, unknown or the
  name of the type.
* `Context.gives_executeFields_ofRecord`: so they do on all fields that are selected.
* `records_as_objects`: a record and its object type complete to the same, whatever is selected.
-/

namespace GraphQL

variable {ref : Type}

/-! ## The object type of a record -/

/-- A field that takes no arguments and answers with an entry of a record. -/
def FieldDefinition.ofEntry (value : Value) : FieldDefinition ref :=
  ⟨.string, .named [] fun _ => .ready none (.leaf value)⟩

/-- The object type that declares a field for every entry of a record but its type. -/
def ObjectType.ofRecord (name : String) (fields : Fields) : ObjectType ref where
  name
  fields := Entries.ofListFirst (Entries.mapValues FieldDefinition.ofEntry
    (List.filter (fun entry => entry.1 ≠ typenameField) fields))

theorem ObjectType.field?_ofRecord {name key : String} {fields : Fields} (h : key ≠ typenameField) :
    (ofRecord name fields : ObjectType ref).field? key =
      (Entries.find? fields key).map FieldDefinition.ofEntry := by
  rw [field?, ofRecord, Entries.find?_ofListFirst, Entries.find?_mapValues,
    Entries.find?_filter fun _ _ => decide_eq_true h]

namespace Context

variable {context : Context ref} {name : String} {fields : Fields}

/-! ## Fields -/

/-- A field of the object type of a record resolves to the entry of its name. -/
theorem resolve_ofRecord (bound : Nat) {field : Field} (h : field.name ≠ typenameField) :
    (context.resolve bound (.ofRecord name fields) field).run =
      some (match Entries.find? fields field.name with
        | none => .error (.unknownField field.name name)
        | some value => .ok ⟨.string, [], .ready none (.leaf value)⟩) := by
  rw [resolve, ObjectType.field?_ofRecord h]
  cases Entries.find? fields field.name <;> rfl

/-- A leaf at the type of a field of a record comes to the entry, or to what is picked from it. -/
theorem completeValue_entry (bound : Nat) (value : Value) (collected : CollectedField)
    (path : Path) :
    context.completeValue (bound + 1) .string (.leaf value) collected path =
      .done (if collected.isComposite then
        (Record.pick (context.scope none) value none collected.selections path).toOutcome
      else ⟨value, [], false⟩) := by
  rw [completeValue]
  split
  · rfl
  · cases value <;> rfl

/-- Whether a record has no entry for a field. Selecting the field is an error then, but only an
    object counts it as a failed field. -/
def lacks (fields : Fields) (field : Field) : Bool :=
  field.name ≠ typenameField && !Entries.has fields field.name

/-- What the selected fields of the object type of a record come to. -/
def entryOutcomes (context : Context ref) (name : String) (fields : Fields)
    (selections : List Selection) (path : Path) : Outcomes :=
  (collect (context.scope (some name)) selections).map fun entry =>
    (entry.1, { (Record.pickField (Record.pickers (context.scope none) fields) (some name) entry.2
      (path.join (.key entry.1))).toOutcome with failed := lacks fields entry.2.field })

/-- Put together, nothing is left of the difference in what counts as failed. -/
theorem toOutcome_entryOutcomes (selections : List Selection) (path : Path) :
    (context.entryOutcomes name fields selections path).toOutcome =
      (context.pickedOutcomes fields (some name) selections path).toOutcome := by
  simp only [Outcomes.toOutcome, Outcomes.fields, Outcomes.errors, Entries.mapValues,
    entryOutcomes, pickedOutcomes, List.map_map, List.flatMap_map]
  rfl

/-- A field of the object type comes to what is picked for it from the record. -/
theorem gives_executeField_ofRecord (context : Context ref) (bound : Nat) (name : String)
    (fields : Fields) (collected : CollectedField) (path : Path) :
    (context.executeField (bound + 3) (.ofRecord name fields) collected path).Gives
      (some { (Record.pickField (Record.pickers (context.scope none) fields) (some name) collected
        path).toOutcome with failed := lacks fields collected.field }) := by
  rw [executeField, Record.pickField, lacks, Entries.has]
  by_cases ht : collected.field.name = typenameField
  · simp only [ht, ite_true, ne_eq, not_true_eq_false, decide_false, Bool.false_and]
    exact .done _
  · simp only [ht, ite_false, ne_eq, not_false_eq_true, decide_true, Bool.true_and,
      resolve_ofRecord _ ht, Record.pickers_eq_mapValues, Entries.find?_mapValues]
    cases Entries.find? fields collected.field.name with
    | none => exact .done _
    | some value =>
      refine Job.Gives.noting _ ?_
      rw [completeNode, completeValue_entry]
      simp only [Option.map_some]
      split <;> exact .done _

/-- The selected fields of the object type come to what is picked from the record. -/
theorem gives_executeFields_ofRecord (context : Context ref) (bound width : Nat) (name : String)
    (fields : Fields) (selections : List Selection) (path : Path) :
    (context.executeFields (bound + 4) width (.ofRecord name fields) path selections).Gives
      (some (context.entryOutcomes name fields selections path)) := by
  have hall : (collect (context.scope (some name)) selections).mapM (fun entry =>
      some (entry.1, { (Record.pickField (Record.pickers (context.scope none) fields) (some name)
        entry.2 (path.join (.key entry.1))).toOutcome with
          failed := lacks fields entry.2.field })) =
      some (context.entryOutcomes name fields selections path) := List.mapM_pure
  rw [executeFields, ← hall]
  exact Window.gives_run width _ fun entry _ =>
    (gives_executeField_ofRecord context bound name fields entry.2 (path.join (.key entry.1))).map
      fun outcome => (entry.1, outcome)

end Context

/-! ## Completion -/

/-- A record that carries its type comes to what the object comes to that declares its entries as
    fields. Whatever is selected, wherever it stands and whenever it is completed, the values have
    the same keys in the same order and the errors are the same. -/
theorem records_as_objects {context : Context ref} {reference : ref} {name : String}
    {fields : Fields} {collected : CollectedField}
    (hname : (Entries.find? fields typenameField).bind Value.word? = some name)
    (hobject : context.objects reference = .ofRecord name fields)
    (hcomposite : collected.isComposite = true) (type other : TypeRef) (path : Path) :
    ∃ outcome, ∀ bound, 5 ≤ bound →
      (context.completeValue bound type (.leaf (.object fields)) collected path).Gives
        (some outcome) ∧
      (context.completeValue bound other (.object reference) collected path).Gives
        (some outcome) := by
  refine ⟨(context.pickedOutcomes fields (some name) collected.selections path).toOutcome,
    fun bound hbound => ?_⟩
  obtain ⟨bound, rfl⟩ := Nat.exists_eq_add_of_le' hbound
  -- The type that a record carries stands before the one that is declared.
  have hruntime : Record.runtime? fields type.innerName? = some name := by
    rw [Record.runtime?, hname, Option.some_or]
  constructor
  · rw [Context.completeValue, if_pos hcomposite, ← hruntime, ← Context.toOutcome_pick_object]
    exact .done _
  · simp only [Context.completeValue, hcomposite, ite_true, hobject]
    rw [← Context.toOutcome_entryOutcomes]
    exact (Context.gives_executeFields_ofRecord context bound context.window name fields
      collected.selections path).map _

namespace Sample

/-- A ship with its captain and its crew. -/
def shipRecord : Fields := [
  ("__typename", .enum "Ship"),
  ("name", .string "Rocinante"),
  ("captain", .object [("__typename", .string "Officer"), ("name", .string "Holden")]),
  ("crew", .list [.object [("name", .string "Naomi")], .object []])]

/-- The type of that ship, which is a vessel, and a fragment for vessels. -/
def shipContext : Context Unit where
  objects _ := .ofRecord "Ship" shipRecord
  types := Types.addImplementers {} "Vessel" ["Ship"]
  fragments := [("Called", ⟨"Vessel", [select "captain" [.inlineFragment (some "Officer") {}
    [select "rank" [], select "name" []]]]⟩)]
  bindings := []
  width := 2

/-- Asks for what there is and what there is not, under another name and through fragments. -/
def shipCollected : CollectedField where
  field := ⟨none, "ship", [], [], true, {}, ⟨1, 1⟩⟩
  selections := [
    .field ⟨some "callsign", "name", [], [], false, {}, ⟨2, 3⟩⟩,
    .spread "Called" {},
    select "crew" [select "name" []],
    .inlineFragment (some "Station") {} [select "docks" []],
    select "fuel" [],
    select "__typename" []]

end Sample

/-- A ship with a captain that has no rank, a member of the crew without a name, and no fuel. -/
theorem records_as_objects_ship :
    ∃ outcome : Outcome,
      (Sample.shipContext.completeValue 5 (.named "Vessel") (.leaf (.object Sample.shipRecord))
        Sample.shipCollected .root).Gives (some outcome) ∧
      (Sample.shipContext.completeValue 5 (.named "Ship") (.object ()) Sample.shipCollected
        .root).Gives (some outcome) ∧
      outcome.value = .object [
        ("callsign", .string "Rocinante"),
        ("captain", .object [("rank", .null), ("name", .string "Holden")]),
        ("crew", .list [.object [("name", .string "Naomi")], .object [("name", .null)]]),
        ("fuel", .null), ("__typename", .string "Ship")] ∧
      outcome.errors.map (fun error => (error.message, error.path)) = [
        ("cannot query field 'rank' on type 'Officer'", some ⟨[.key "captain", .key "rank"]⟩),
        ("cannot query field 'name' on type 'Object'",
          some ⟨[.key "crew", .index 1, .key "name"]⟩),
        ("cannot query field 'fuel' on type 'Ship'", some ⟨[.key "fuel"]⟩)] := by
  obtain ⟨outcome, h⟩ := @records_as_objects Unit Sample.shipContext () "Ship" Sample.shipRecord
    Sample.shipCollected rfl rfl rfl (.named "Vessel") (.named "Ship") .root
  obtain ⟨hrecord, hobject⟩ := h 5 (Nat.le_refl 5)
  obtain rfl := Option.some.inj (hrecord 0)
  exact ⟨_, hrecord, hobject, rfl, by decide +kernel⟩

end GraphQL

import GraphQL.Proofs.Collection
import GraphQL.Proofs.Positions
import GraphQL.Proofs.Service
import GraphQL.Proofs.Whereabouts

/-!
# Mutations one after the other

The root fields of a mutation run in a window of one slot, unless the configuration says otherwise.
So a root field is started when the one before it is done with all that lies below it, and since
whatever a field does is confined, this orders all that two root fields do.

Results:
* `Window.InTurn.lt_and_finish_le`: in the record of work done in turn, what belongs to a field
  stands before anything of a later field and is over before that begins.
* `mutation_fields_in_turn`: so it is with the root fields of a mutation.
-/

namespace GraphQL

variable {ref : Type}

namespace Window.InTurn

variable {work : String × CollectedField → Nat → Timed Outcome → Prop} {start : Nat}
  {fields : CollectedFields} {runs : List (Timed Outcome)} {path : Path}

theorem length_eq (h : InTurn work start fields runs) : fields.length = runs.length := by
  induction h with
  | nil => rfl
  | cons _ _ ih => rw [List.length_cons, List.length_cons, ih]

theorem mem_zip (h : InTurn work start fields runs)
    {pair : (String × CollectedField) × Timed Outcome}
    (hm : pair ∈ fields.zip runs) : pair.1 ∈ fields ∧ ∃ start, work pair.1 start pair.2 := by
  induction h with
  | nil => cases hm
  | cons hfirst _ ih =>
    rcases List.mem_cons.mp hm with rfl | hm
    · exact ⟨by simp, _, hfirst⟩
    · obtain ⟨hmem, hwork⟩ := ih hm
      exact ⟨by simp [hmem], hwork⟩

/-- Each field with its run: what belongs to a field is over before anything of a later one
    begins. -/
theorem pairwise_zip (h : InTurn work start fields runs) (hnodup : (Entries.keys fields).Nodup)
    (hw : ∀ entry ∈ fields, ∀ start run, work entry start run → Timed.Within start run) :
    (fields.zip runs).Pairwise fun earlier later =>
      (Entries.keys fields).idxOf earlier.1.1 < (Entries.keys fields).idxOf later.1.1 ∧
        ∀ o ∈ earlier.2.record, ∀ o' ∈ later.2.record, o.finish ≤ o'.start := by
  refine List.Pairwise.and ?_ ?_
  · have hkeys := pairwise_idxOf hnodup
    rw [Entries.keys, List.pairwise_map,
      ← List.map_fst_zip (Nat.le_of_eq h.length_eq), List.pairwise_map] at hkeys
    rw [List.map_fst_zip (Nat.le_of_eq h.length_eq)] at hkeys
    exact hkeys
  · have hruns := h.pairwise hw
    rw [← List.map_snd_zip (Nat.le_of_eq h.length_eq.symm), List.pairwise_map] at hruns
    exact hruns

/-- Of two things in the record, the earlier one belongs to the same field or to an earlier one, and
    then it is over before the later one begins. -/
theorem pairwise_record (h : InTurn work start fields runs) (hnodup : (Entries.keys fields).Nodup)
    (hw : ∀ entry ∈ fields, ∀ start run, work entry start run →
      run.Confined (path.join (.key entry.1)) start) :
    (runs.flatMap Timed.record).Pairwise fun o o' => ∀ a b,
      o.Under (path.join (.key a)) → o'.Under (path.join (.key b)) →
        a = b ∨ (Entries.keys fields).idxOf a < (Entries.keys fields).idxOf b ∧
          o.finish ≤ o'.start := by
  -- What a field leaves in the record lies under its own key and under no other one.
  have hown : ∀ pair ∈ fields.zip runs, ∀ o ∈ pair.2.record, ∀ key,
      o.Under (path.join (.key key)) → key = pair.1.1 := by
    intro pair hpair o ho key hunder
    obtain ⟨hmem, start, hwork⟩ := h.mem_zip hpair
    have ⟨below, hbelow, _⟩ := hunder
    have hpath := (hw _ hmem _ _ hwork).under o ho below hbelow
    exact hunder.key_eq ⟨below, hbelow, hpath⟩
  have hzip : runs.flatMap Timed.record = (fields.zip runs).flatMap fun pair => pair.2.record := by
    conv_lhs => rw [← List.map_snd_zip (Nat.le_of_eq h.length_eq.symm), List.flatMap_map]
  rw [hzip, List.pairwise_flatMap]
  constructor
  · intro pair hpair
    refine List.pairwise_of_forall_mem_list fun o ho o' ho' a b ha hb => .inl ?_
    rw [hown pair hpair o ho a ha, hown pair hpair o' ho' b hb]
  · have hpairs := h.pairwise_zip hnodup fun entry hm start run hrun =>
      (hw entry hm start run hrun).toWithin
    refine hpairs.imp_of_mem ?_
    rintro earlier later hearlier hlater ⟨hidx, hover⟩ o ho o' ho' a b ha hb
    rw [hown earlier hearlier o ho a ha, hown later hlater o' ho' b hb]
    exact .inr ⟨hidx, hover o ho o' ho'⟩

/-- What belongs to a field stands in the record before anything of a later field, and is over
    before that begins. -/
theorem lt_and_finish_le (h : InTurn work start fields runs)
    (hnodup : (Entries.keys fields).Nodup)
    (hw : ∀ entry ∈ fields, ∀ start run, work entry start run →
      run.Confined (path.join (.key entry.1)) start)
    {a b : String} (hab : (Entries.keys fields).idxOf a < (Entries.keys fields).idxOf b)
    {i j : Nat} {o o' : Occurrence} (hi : (runs.flatMap Timed.record)[i]? = some o)
    (hj : (runs.flatMap Timed.record)[j]? = some o') (ha : o.Under (path.join (.key a)))
    (hb : o'.Under (path.join (.key b))) : i < j ∧ o.finish ≤ o'.start := by
  obtain ⟨hilt, hi⟩ := List.getElem?_eq_some_iff.mp hi
  obtain ⟨hjlt, hj⟩ := List.getElem?_eq_some_iff.mp hj
  have hpairs := List.pairwise_iff_getElem.mp (h.pairwise_record hnodup hw)
  rcases Nat.lt_trichotomy i j with hij | rfl | hji
  · have hpair := hpairs i j hilt hjlt hij a b
    rw [hi, hj] at hpair
    rcases hpair ha hb with rfl | ⟨-, hover⟩
    · omega
    · exact ⟨hij, hover⟩
  · obtain rfl : o = o' := hi.symm.trans hj
    have heq : a = b := ha.key_eq hb
    subst heq
    omega
  · have hpair := hpairs j i hjlt hilt hji b a
    rw [hi, hj] at hpair
    rcases hpair hb ha with rfl | ⟨hba, -⟩ <;> omega

end Window.InTurn

/-! ## Mutations -/

namespace Service

variable {service : Service ref} {objects : ref → ObjectType ref} {bound start finish : Nat}
  {document : ExecutableDocument} {name : Option String} {bindings : Variables}
  {operation : Operation} {root : ObjectType ref}

theorem rootWidth_of_not_serial (context : Context ref) (kind : OperationKind)
    (h : service.configuration.execution.serialMutations = false) :
    service.rootWidth context kind = context.window := by
  unfold rootWidth
  rw [if_neg]
  rintro ⟨-, hserial⟩
  rw [h] at hserial
  cases hserial

/-- With the same schema and the same width the root fields are the same, and so is what they do. -/
theorem executeRoot_of_not_serial {relaxed : Service ref}
    (hschema : relaxed.schema = service.schema)
    (hwidth : relaxed.configuration.execution.maxConcurrency =
      service.configuration.execution.maxConcurrency)
    (hserial : relaxed.configuration.execution.serialMutations = false) :
    relaxed.executeRoot objects (bound + 1) document operation root bindings =
      Window.run (max 1 service.configuration.execution.maxConcurrency)
        ((service.rootFields objects document operation root bindings).map fun entry =>
          (service.executeRootField objects bound document operation root bindings entry).map
            fun outcome => (entry.1, outcome)) := by
  have hcontext : relaxed.context objects document (operation.complete bindings) =
      service.context objects document (operation.complete bindings) := by
    unfold context
    rw [hschema, hwidth]
  rw [executeRoot_succ, rootWidth_of_not_serial _ _ hserial]
  unfold rootFields executeRootField
  rw [hcontext]
  rfl

theorem executeRootField_confined {entry : String × CollectedField} {run : Timed Outcome}
    (h : service.executeRootField objects bound document operation root bindings entry start =
      some run) :
    run.Confined (Path.root.join (.key entry.1)) start :=
  ((confinedRules _).holds bound).field h

/-- The root fields of a mutation are executed in turn. -/
theorem executeRoot_inTurn {outcomes : Outcomes} {record : List Occurrence}
    (hmutation : operation.kind = .mutation)
    (hserial : service.configuration.execution.serialMutations = true)
    (h : service.executeRoot objects (bound + 1) document operation root bindings start =
      some ⟨outcomes, finish, record⟩) :
    ∃ runs, Window.InTurn
        (fun entry start run =>
          service.executeRootField objects bound document operation root bindings entry start =
            some run)
        start (service.rootFields objects document operation root bindings) runs ∧
      record = runs.flatMap Timed.record := by
  have hwidth : service.rootWidth
      (service.context objects document (operation.complete bindings)) operation.kind = 1 :=
    if_pos ⟨hmutation, hserial⟩
  rw [executeRoot_succ, hwidth, Window.run_eq_some_iff] at h
  have hruns := h.imp fun entry _ start run hrun => Job.map_eq_some_iff.mp hrun
  obtain ⟨mapped, hmapped, -, hrecord⟩ := hruns.inTurn (Window.slots_one _ start) (by
    rintro entry - start _ ⟨first, hfirst, rfl⟩
    exact (executeRootField_confined hfirst).start_le)
  obtain ⟨runs, hturn, heq⟩ := hmapped.of_map
  exact ⟨runs, hturn, hrecord.trans heq⟩

end Service

/-- The root fields of a mutation are executed one after the other when the configuration says so:
    each is started when the one before it has ended, and the record is theirs in order. Whatever
    happens at or under the key of a root field is over before anything happens at or under the key
    of a later one, and stands before it in the record. What a root field does once it is started is
    the same as in a service that runs root fields at the same time. -/
theorem mutation_fields_in_turn {service : Service ref} {objects : ref → ObjectType ref}
    {bound start finish : Nat} {document : ExecutableDocument} {name : Option String}
    {bindings : Variables} {operation : Operation} {response : Response Error}
    {record : List Occurrence}
    (h : service.executeDocument objects bound document name bindings start =
      some ⟨.ok (.response response), finish, record⟩)
    (hpicked : document.operation name = .ok operation) (hmutation : operation.kind = .mutation)
    (hserial : service.configuration.execution.serialMutations = true) :
    ∃ root below, service.schema.mutation = some root ∧ bound = below + 1 ∧
      let fields := service.rootFields objects document operation root bindings
      let job := service.executeRootField objects below document operation root bindings
      (∃ runs, Window.InTurn (fun entry start run => job entry start = some run) start fields runs ∧
        record = runs.flatMap Timed.record ∧
        runs.Pairwise fun earlier later =>
          ∀ o ∈ earlier.record, ∀ o' ∈ later.record, o.finish ≤ o'.start) ∧
      (∀ o ∈ record, ∀ path, o.path? = some path →
        ∃ key ∈ Entries.keys fields, o.Under (Path.root.join (.key key))) ∧
      (∀ a b, (Entries.keys fields).idxOf a < (Entries.keys fields).idxOf b →
        ∀ (i j : Nat) (o o' : Occurrence), record[i]? = some o → record[j]? = some o' →
          o.Under (Path.root.join (.key a)) → o'.Under (Path.root.join (.key b)) →
            i < j ∧ o.finish ≤ o'.start) ∧
      ∀ relaxed : Service ref, relaxed.schema = service.schema →
        relaxed.configuration.execution.maxConcurrency =
          service.configuration.execution.maxConcurrency →
        relaxed.configuration.execution.serialMutations = false →
        relaxed.executeRoot objects bound document operation root bindings =
          Window.run (max 1 service.configuration.execution.maxConcurrency)
            (fields.map fun entry => (job entry).map fun outcome => (entry.1, outcome)) := by
  obtain ⟨picked, root, outcomes, hselects, hrun, rfl⟩ :=
    Service.executeDocument_eq_response_iff.mp h
  obtain rfl : picked = operation := Except.ok.inj (hselects.picked.symm.trans hpicked)
  have hroot : service.schema.mutation = some root := by
    rw [← hselects.served, hmutation]
    rfl
  cases bound with
  | zero => cases hrun
  | succ below =>
    obtain ⟨runs, hturn, rfl⟩ := Service.executeRoot_inTurn hmutation hserial hrun
    have hnodup : (Entries.keys
        (service.rootFields objects document picked root bindings)).Nodup :=
      nodup_keys_collect _ _
    have hconfined : ∀ entry ∈ service.rootFields objects document picked root bindings,
        ∀ start run, service.executeRootField objects below document picked root bindings entry
          start = some run → run.Confined (Path.root.join (.key entry.1)) start :=
      fun entry _ start run hrun => Service.executeRootField_confined hrun
    refine ⟨root, below, hroot, rfl, ⟨runs, hturn, rfl, ?_⟩, ?_, ?_, ?_⟩
    · exact hturn.pairwise fun entry hm start run hrun =>
        (hconfined entry hm start run hrun).toWithin
    · intro o ho path hpath
      obtain ⟨run, hm, ho⟩ := List.mem_flatMap.mp ho
      obtain ⟨entry, hentry, start, hwork⟩ := hturn.exists_of_mem hm
      exact ⟨entry.1, List.mem_map_of_mem hentry, path, hpath,
        (hconfined entry hentry start run hwork).under o ho path hpath⟩
    · intro a b hab i j o o' hi hj ha hb
      exact hturn.lt_and_finish_le hnodup hconfined hab hi hj ha hb
    · intro relaxed hschema hwidth hrelaxed
      exact Service.executeRoot_of_not_serial hschema hwidth hrelaxed

/-- The fleet is asked for when the ship is there and has told all it has to tell, which it does at
    once for its name and its fuel. -/
theorem mutation_fields_in_turn_sample :
    ∃ record : List Occurrence,
      Sample.spans record =
        [(⟨[.key "ship"]⟩, 0, 3), (⟨[.key "ship", .key "name"]⟩, 3, 6),
          (⟨[.key "ship", .key "fuel"]⟩, 3, 6), (⟨[.key "fleet", .index 0]⟩, 6, 9),
          (⟨[.key "fleet", .index 0, .key "fuel"]⟩, 9, 12)] ∧
      ∃ runs : List (Timed Outcome), record = runs.flatMap Timed.record ∧
        runs.Pairwise fun earlier later =>
          ∀ o ∈ earlier.record, ∀ o' ∈ later.record, o.finish ≤ o'.start := by
  have hrun : ((Sample.service 3 2).executeRoot (fun _ => Sample.ship 3) 20
      (Sample.document .mutation) (Sample.operation .mutation) (Sample.root 3) [] 0).map
        (fun timed => Sample.spans timed.record) =
      some [(⟨[.key "ship"]⟩, 0, 3), (⟨[.key "ship", .key "name"]⟩, 3, 6),
        (⟨[.key "ship", .key "fuel"]⟩, 3, 6), (⟨[.key "fleet", .index 0]⟩, 6, 9),
        (⟨[.key "fleet", .index 0, .key "fuel"]⟩, 9, 12)] := by decide +kernel
  obtain ⟨⟨outcomes, finish, record⟩, hroot, hspans⟩ := Option.map_eq_some_iff.mp hrun
  have h := Service.executeDocument_eq_response_iff.mpr
    ⟨_, _, outcomes, Sample.selects_mutation 3 2, hroot, rfl⟩
  obtain ⟨_, _, _, _, ⟨runs, -, hrecord, hpairwise⟩, -⟩ := mutation_fields_in_turn h rfl rfl rfl
  exact ⟨record, hspans, runs, hrecord, hpairwise⟩

end GraphQL

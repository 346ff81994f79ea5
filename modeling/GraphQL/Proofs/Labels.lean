import GraphQL.Proofs.Correspondence
import GraphQL.Proofs.Relabelling
import GraphQL.Proofs.Window

/-!
# What is shown under labels

`Shown` is a value of a response that remembers which of its keys are response keys, and
`Shown.Selected` says that they are the keys that have been selected, wherever fields are selected
and nowhere else. Given labels for the response keys, `Shown.view` is the value under these labels.
Paths of errors and of a record consist of response keys and indices, so they change as well.

Executions of one document with different labels differ in nothing else (`Job.Shows`): there is one
job that does not know the labels, and it shows what each of them does.

Results:
* `Record.shows_pick`: what is picked from a record.
* `Job.Shows.run`: siblings in a window.
* `Context.shows`: values, nodes, fields and objects are completed alike under all labels.
-/

namespace GraphQL

/-! ## Values under labels -/

/-- A value of a response in which selected fields can be told from the entries of leaves. -/
inductive Shown where
  | leaf (value : Value)
  | list (items : List Shown)
  | object (fields : List (String × Shown))

namespace Shown

mutual

/-- The value in which selected fields stand under the labels of their keys. -/
def view (label : String → String) : Shown → Value
  | .leaf value => value
  | .list items => .list (viewItems label items)
  | .object fields => .object (viewFields label fields)

/-- The items of a list. -/
def viewItems (label : String → String) : List Shown → List Value
  | [] => []
  | item :: rest => item.view label :: viewItems label rest

/-- The fields of an object, under the labels of their keys. -/
def viewFields (label : String → String) : List (String × Shown) → Fields
  | [] => []
  | (key, field) :: rest => (label key, field.view label) :: viewFields label rest

end

theorem view_list (label : String → String) (items : List Shown) :
    (list items).view label = .list (items.map (view label)) := by
  have hitems : viewItems label items = items.map (view label) := by
    induction items with
    | nil => rfl
    | cons item rest ih => rw [viewItems, ih, List.map_cons]
  rw [view, hitems]

theorem view_object (label : String → String) (fields : List (String × Shown)) :
    (object fields).view label = .object (Entries.relabel label (view label) fields) := by
  have hfields : viewFields label fields = Entries.relabel label (view label) fields := by
    induction fields with
    | nil => rfl
    | cons field rest ih =>
      rw [viewFields, ih]
      rfl
  rw [view, hfields]

/-- The value has the keys that have been selected and no others: on an object of some type where
    there are selections, and never within leaves. -/
inductive Selected (scope : Collection.Scope) : Bool → List Selection → Shown → Prop
  | leaf {composite : Bool} {selections : List Selection} (value : Value) :
    (composite = true → value.items? = none ∧ value.fields? = none) →
    Selected scope composite selections (.leaf value)
  | list {composite : Bool} {selections : List Selection} {items : List Shown} :
    (∀ item ∈ items, Selected scope composite selections item) →
    Selected scope composite selections (.list items)
  | object (runtime : Option String) {selections : List Selection}
      {fields : List (String × Shown)} :
    Entries.keys fields = Entries.keys (collect { scope with runtime } selections) →
    List.Forall₂ (fun collected field =>
        Selected scope collected.2.isComposite collected.2.selections field.2)
      (collect { scope with runtime } selections) fields →
    Selected scope true selections (.object fields)

end Shown

/-- The path with the labels of its keys. -/
def Path.relabel (label : String → String) (path : Path) : Path :=
  ⟨path.segments.map fun
    | .index i => .index i
    | .key key => .key (label key)⟩

/-- The error with the labels of the keys in its path. -/
def Error.relabel (label : String → String) (error : Error) : Error :=
  { error with path := error.path.map (Path.relabel label) }

/-- The occurrence with the labels of the keys in its path. -/
def Occurrence.relabel (label : String → String) : Occurrence → Occurrence
  | .called path field arguments time => .called (path.relabel label) field arguments time
  | .made name time => .made name time
  | .ran path name start finish => .ran (path.relabel label) name start finish
  | .pulled path time => .pulled (path.relabel label) time
  | .released path sources time => .released (path.relabel label) sources time

theorem Path.relabel_index (label : String → String) (path : Path) (i : Nat) :
    (path.relabel label).join (.index i) = (path.join (.index i)).relabel label := by
  simp [relabel, join]

theorem Path.relabel_key (label : String → String) (path : Path) (key : String) :
    (path.relabel label).join (.key (label key)) = (path.join (.key key)).relabel label := by
  simp [relabel, join]

/-! ## Jobs under labels -/

section Jobs

variable {σ τ α β ι : Type}

/-- The value and the record under labels. -/
def Timed.under (view : (String → String) → σ → α) (label : String → String) (timed : Timed σ) :
    Timed α :=
  ⟨view label timed.value, timed.finish, timed.record.map (Occurrence.relabel label)⟩

namespace Job

/-- The job under labels. -/
def under (view : (String → String) → σ → α) (label : String → String) (job : Job σ) : Job α :=
  fun start => (job start).map (Timed.under view label)

/-- A job for each choice of labels, all of which show one job. What that job gives is right. -/
def Shows (right : σ → Prop) (view : (String → String) → σ → α)
    (jobs : (String → String) → Job α) : Prop :=
  ∃ seen : Job σ, (∀ start timed, seen start = some timed → right timed.value) ∧
    ∀ label, label.Injective → jobs label = seen.under view label

namespace Shows

variable {right : σ → Prop} {also : τ → Prop} {view : (String → String) → σ → α}
  {view' : (String → String) → τ → β} {jobs : (String → String) → Job α}

/-- Only labels that keep keys apart matter. -/
theorem congr {others : (String → String) → Job α} (h : Shows right view jobs)
    (hsame : ∀ label, label.Injective → others label = jobs label) : Shows right view others := by
  obtain ⟨seen, hseen, hjobs⟩ := h
  exact ⟨seen, hseen, fun label hlabel => (hsame label hlabel).trans (hjobs label hlabel)⟩

theorem imp {right' : σ → Prop} (h : Shows right view jobs)
    (hright : ∀ value, right value → right' value) : Shows right' view jobs := by
  obtain ⟨seen, hseen, hjobs⟩ := h
  exact ⟨seen, fun start timed htimed => hright _ (hseen start timed htimed), hjobs⟩

theorem unfinished : Shows right view fun _ => unfinished :=
  ⟨Job.unfinished, nofun, fun _ _ => rfl⟩

theorem done (value : σ) (h : right value) :
    Shows right view fun label => Job.done (view label value) := by
  refine ⟨Job.done value, fun start timed htimed => ?_, fun _ _ => rfl⟩
  rw [done_eq_some_iff.mp htimed]
  exact h

theorem map (h : Shows right view jobs) (f : (String → String) → α → β) (g : σ → τ)
    (hview : ∀ label value, view' label (g value) = f label (view label value))
    (hright : ∀ value, right value → also (g value)) :
    Shows also view' fun label => (jobs label).map (f label) := by
  obtain ⟨seen, hseen, hjobs⟩ := h
  refine ⟨seen.map g, fun start timed htimed => ?_, fun label hlabel => ?_⟩
  · obtain ⟨first, hfirst, rfl⟩ := map_eq_some_iff.mp htimed
    exact hright _ (hseen start first hfirst)
  · funext start
    simp only [hjobs label hlabel, Job.map, Job.under, Option.map_map]
    refine congrArg (Option.map · (seen start)) (funext fun timed => ?_)
    simp only [Function.comp_apply, Timed.under, hview]

theorem noting (occurrences : Nat → List Occurrence) (h : Shows right view jobs) :
    Shows right view fun label => (jobs label).noting fun start =>
      (occurrences start).map (Occurrence.relabel label) := by
  obtain ⟨seen, hseen, hjobs⟩ := h
  refine ⟨seen.noting occurrences, fun start timed htimed => ?_, fun label hlabel => ?_⟩
  · obtain ⟨first, hfirst, rfl⟩ := noting_eq_some_iff.mp htimed
    exact hseen start first hfirst
  · funext start
    simp only [hjobs label hlabel, Job.noting, Job.under, Option.map_map]
    refine congrArg (Option.map · (seen start)) (funext fun timed => ?_)
    simp only [Function.comp_apply, Timed.under, List.map_append]

theorem after (delay : Nat) (h : Shows right view jobs) :
    Shows right view fun label => (jobs label).after delay := by
  obtain ⟨seen, hseen, hjobs⟩ := h
  exact ⟨seen.after delay, fun start => hseen (start + delay),
    fun label hlabel => congrArg (Job.after delay) (hjobs label hlabel)⟩

end Shows

end Job

/-- A window under labels is the window of the jobs under labels. -/
theorem Window.run_under (view : (String → String) → σ → α) (label : String → String) (width : Nat)
    (jobs : List (Job σ)) :
    run width (jobs.map (Job.under view label)) =
      (run width jobs).under (fun label => List.map (view label)) label := by
  have hfrom : ∀ handed slots,
      runFrom handed slots (jobs.map (Job.under view label)) =
        (runFrom handed slots jobs).map
          (Timed.under (fun label => List.map (view label)) label) := by
    induction jobs with
    | nil => exact fun _ _ => rfl
    | cons job rest ih =>
      intro handed slots
      rw [List.map_cons, runFrom, runFrom, Job.under]
      cases job (slots.head?.getD handed) with
      | none => rfl
      | some first =>
        simp only [Option.map_some, Timed.under, ih]
        generalize runFrom _ _ rest = others
        cases others with
        | none => rfl
        | some others => simp [Timed.under]
  funext start
  rw [run, hfrom, List.length_map]
  rfl

/-- Siblings of which each shows something show all of it, in order. -/
theorem Job.Shows.run {right : ι → σ → Prop} {view : (String → String) → σ → α}
    {jobs : ι → (String → String) → Job α} (h : ∀ item, Shows (right item) view (jobs item))
    (width : Nat) (items : List ι) :
    Shows (List.Forall₂ right items) (fun label => List.map (view label))
      fun label => Window.run width (items.map fun item => jobs item label) := by
  choose seen hseen hjobs using h
  refine ⟨Window.run width (items.map seen), fun start timed htimed => ?_, fun label hlabel => ?_⟩
  · obtain ⟨runs, hruns, hvalue, -⟩ := (Window.run_eq_some_iff.mp htimed).results
    rw [hvalue, List.forall₂_map_right_iff]
    exact hruns.imp fun item run ⟨start, hrun⟩ => hseen item start run hrun
  · simp only [hjobs _ label hlabel]
    rw [← Window.run_under, List.map_map]
    rfl

end Jobs

/-! ## Records -/

namespace Record

variable {scope : Collection.Scope}

/-- What is picked under all labels: a right value and errors that do not know the labels. -/
def Picked.Shows (right : Shown → Prop) (picked : (String → String) → Picked) : Prop :=
  ∃ (shown : Shown) (errors : List Error), right shown ∧ ∀ label, label.Injective →
    picked label = ⟨shown.view label, errors.map (Error.relabel label)⟩

/-- One field, if what lies below it is shown. -/
theorem shows_pickField {fields : Fields}
    (hbelow : ∀ field ∈ fields, ∀ selections path,
      Picked.Shows (·.Selected scope true selections) fun label =>
        pick (scope.relabel label) field.2 none (selections.map (Selection.relabel label))
          (Path.relabel label path))
    (runtime : Option String) (collected : CollectedField) (path : Path) :
    Picked.Shows (·.Selected scope collected.isComposite collected.selections) fun label =>
      pickField (pickers (scope.relabel label) fields) runtime (collected.relabel label)
        (path.relabel label) := by
  have hname : ∀ label, (collected.relabel label).field.name = collected.field.name := fun _ => rfl
  simp only [pickField, pickers_eq_mapValues, Entries.find?_mapValues, hname,
    CollectedField.isComposite_relabel]
  by_cases htype : collected.field.name = typenameField
  · simp only [htype, ite_true]
    refine ⟨.leaf _, [], .leaf _ fun _ => ?_, fun label _ => rfl⟩
    cases runtime <;> exact ⟨rfl, rfl⟩
  simp only [htype, ite_false]
  cases hfind : Entries.find? fields collected.field.name with
  | none =>
    let error := FieldError.unknownField collected.field.name (runtime.getD "Object")
    exact ⟨.leaf .null, [error.report path collected.field.location],
      .leaf .null fun _ => ⟨rfl, rfl⟩, fun label _ => rfl⟩
  | some value =>
    cases hcomposite : collected.isComposite with
    | true => exact hbelow _ (Entries.mem_of_find? hfind) collected.selections path
    | false => exact ⟨.leaf value, [], .leaf value (absurd · Bool.false_ne_true), fun label _ => rfl⟩

/-- What is picked from a value is shown alike under all labels. -/
theorem shows_pick (scope : Collection.Scope) (value : Value) (declared : Option String)
    (selections : List Selection) (path : Path) :
    Picked.Shows (·.Selected scope true selections) fun label =>
      pick (scope.relabel label) value declared (selections.map (Selection.relabel label))
        (path.relabel label) := by
  induction value using Value.induction generalizing declared selections path with
  | scalar value hitems hfields =>
    exact ⟨.leaf value, [], .leaf value fun _ => ⟨hitems, hfields⟩,
      fun label _ => pick_scalar hitems hfields _ _ _⟩
  | list items ih =>
    have hitems : ∀ entry : Value × Nat, ∃ (shown : Shown) (errors : List Error),
        entry.1 ∈ items → shown.Selected scope true selections ∧ ∀ label, label.Injective →
          pick (scope.relabel label) entry.1 declared (selections.map (Selection.relabel label))
            ((path.relabel label).join (.index entry.2)) =
              ⟨shown.view label, errors.map (Error.relabel label)⟩ := by
      intro entry
      by_cases hm : entry.1 ∈ items
      · obtain ⟨shown, errors, hshown⟩ := ih entry.1 hm declared selections
          (path.join (.index entry.2))
        simp only [← Path.relabel_index] at hshown
        exact ⟨shown, errors, fun _ => hshown⟩
      · exact ⟨.leaf .null, [], fun h => absurd h hm⟩
    choose shown errors hshown using hitems
    refine ⟨.list (items.zipIdx.map shown), items.zipIdx.flatMap errors, .list ?_,
      fun label hlabel => ?_⟩
    · intro item hitem
      obtain ⟨entry, hentry, rfl⟩ := List.mem_map.mp hitem
      exact (hshown entry (List.fst_mem_of_mem_zipIdx hentry)).1
    · have hpicked := List.map_congr_left (l := items.zipIdx) fun entry hentry =>
        (hshown entry (List.fst_mem_of_mem_zipIdx hentry)).2 label hlabel
      simp only [pick, pickItems_eq_map, hpicked, Shown.view_list, List.map_map, List.flatMap_map,
        List.map_flatMap]
      rfl
  | object fields ih =>
    have htype : ∀ label, typeOf? (pickers (scope.relabel label) fields) =
        typeOf? (pickers scope fields) := by
      intro label
      rw [typeOf?_pickers, typeOf?_pickers]
    generalize hruntime : (typeOf? (pickers scope fields)).or declared = runtime
    have hcollect : ∀ label, label.Injective →
        collect { scope.relabel label with runtime } (selections.map (Selection.relabel label)) =
          Entries.relabel label (CollectedField.relabel label)
            (collect { scope with runtime } selections) := fun label hlabel =>
      collect_relabel hlabel { scope with runtime } selections
    choose shown errors hshown hpicked using fun entry : String × CollectedField =>
      shows_pickField (fun field hm below path => ih field hm none below path) runtime entry.2
        (path.join (.key entry.1))
    refine ⟨.object ((collect { scope with runtime } selections).map fun entry =>
      (entry.1, shown entry)), (collect { scope with runtime } selections).flatMap errors,
      .object runtime ?_ ?_, fun label hlabel => ?_⟩
    · simp only [Entries.keys, List.map_map, Function.comp_def]
    · rw [List.forall₂_map_right_iff]
      exact List.forall₂_same.mpr fun entry _ => hshown entry
    · simp only [pick, pickFields, htype, hruntime, hcollect label hlabel, Entries.relabel,
        List.map_map, Function.comp_def, Path.relabel_key, hpicked _ label hlabel,
        Shown.view_object, Entries.mapValues, List.flatMap_map, List.map_flatMap]

end Record

/-! ## Executions -/

/-- The outcome of a field, before its keys have labels. -/
structure ShownOutcome where
  shown : Shown
  errors : List Error
  failed : Bool

namespace ShownOutcome

/-- The outcome under labels. -/
def view (label : String → String) (outcome : ShownOutcome) : Outcome :=
  ⟨outcome.shown.view label, outcome.errors.map (Error.relabel label), outcome.failed⟩

/-- The failure of a field. -/
def failure (error : FieldError) (field : Field) (path : Path) : ShownOutcome :=
  ⟨.leaf .null, [error.report path field.location], true⟩

/-- The outcome of a list of items. -/
def ofItems (items : List ShownOutcome) : ShownOutcome :=
  ⟨.list (items.map shown), items.flatMap errors, false⟩

/-- The outcome of the field that holds an object. -/
def ofFields (outcomes : Entries ShownOutcome) : ShownOutcome :=
  ⟨.object (Entries.mapValues shown outcomes), outcomes.flatMap fun entry => entry.2.errors, false⟩

theorem view_ofItems (label : String → String) (items : List ShownOutcome) :
    (ofItems items).view label = Outcome.ofItems (items.map (view label)) := by
  simp only [view, ofItems, Outcome.ofItems, Shown.view_list, List.map_map, List.flatMap_map,
    List.map_flatMap]
  rfl

theorem view_ofFields (label : String → String) (outcomes : Entries ShownOutcome) :
    (ofFields outcomes).view label =
      Outcomes.toOutcome (Entries.relabel label (view label) outcomes) := by
  simp only [view, ofFields, Outcomes.toOutcome, Outcomes.fields, Outcomes.errors,
    Shown.view_object, Entries.relabel, Entries.mapValues, List.map_map, List.flatMap_map,
    List.map_flatMap]
  rfl

end ShownOutcome

namespace Context

variable {ref : Type} {context : Context ref} {bound : Nat}

/-- Gives new labels to the fragments of a context. -/
def relabel (label : String → String) (context : Context ref) : Context ref :=
  { context with fragments := Entries.mapValues (Fragment.relabel label) context.fragments }

/-- The fields have the keys that have been selected, in order, and right values. -/
def SelectedFields (context : Context ref) (runtime : Option String) (selections : List Selection)
    (outcomes : Entries ShownOutcome) : Prop :=
  List.Forall₂ (fun collected outcome => outcome.1 = collected.1 ∧
      outcome.2.shown.Selected (context.scope none) collected.2.isComposite collected.2.selections)
    (collect (context.scope runtime) selections) outcomes

theorem SelectedFields.selected {runtime : Option String} {selections : List Selection}
    {outcomes : Entries ShownOutcome} (h : context.SelectedFields runtime selections outcomes) :
    (Shown.object (Entries.mapValues ShownOutcome.shown outcomes)).Selected (context.scope none)
      true selections := by
  refine .object runtime ?_ ?_
  · have hkeys := List.forall₂_map_left_iff.mpr (List.forall₂_map_right_iff.mpr
      (h.imp fun _ _ hpair => hpair.1.symm))
    rw [List.forall₂_eq_eq_eq] at hkeys
    simp only [Entries.keys, Entries.mapValues, List.map_map]
    exact hkeys.symm
  · exact List.forall₂_map_right_iff.mpr (h.imp fun _ _ hpair => hpair.2)

/-- What is made has no place. -/
theorem map_relabel_makeRecord (label : String → String) (parts : List Node.Part) (time : Nat) :
    (makeRecord parts time).map (Occurrence.relabel label) = makeRecord parts time := by
  rw [makeRecord, List.map_map]
  rfl

/-- A call is noted with the labels of its path. -/
theorem callRecord_relabel (label : String → String) (path : Path) (field : Field)
    (resolved : ResolvedField ref) :
    callRecord (path.relabel label) (field.relabel label) resolved = fun start =>
      (callRecord path field resolved start).map (Occurrence.relabel label) := by
  funext start
  rw [callRecord, callRecord, List.map_cons, map_relabel_makeRecord]
  rfl

/-- The work on a field at a path shows the same under all labels, with the selected keys. -/
def ShowsField (context : Context ref) (collected : CollectedField) (path : Path)
    (work : Context ref → CollectedField → Path → Job Outcome) : Prop :=
  Job.Shows (·.shown.Selected (context.scope none) collected.isComposite collected.selections)
    ShownOutcome.view fun label =>
      work (context.relabel label) (collected.relabel label) (path.relabel label)

/-- Within the bound, what is done under different labels shows the same. -/
structure Shows (context : Context ref) (bound : Nat) : Prop where
  value (type : TypeRef) (value : Resolved ref) (collected : CollectedField) (path : Path) :
    context.ShowsField collected path (·.completeValue bound type value)
  node (type : TypeRef) (node : Node ref) (collected : CollectedField) (path : Path) :
    context.ShowsField collected path (·.completeNode bound type node)
  field (object : ObjectType ref) (collected : CollectedField) (path : Path) :
    context.ShowsField collected path (·.executeField bound object)
  fields (width : Nat) (object : ObjectType ref) (path : Path) (selections : List Selection) :
    Job.Shows (context.SelectedFields (some object.name) selections)
      (fun label => Entries.relabel label (ShownOutcome.view label)) fun label =>
        (context.relabel label).executeFields bound width object (path.relabel label)
          (selections.map (Selection.relabel label))

/-- Work that is done at once. -/
theorem showsField_of_done {collected : CollectedField} {path : Path}
    {work : Context ref → CollectedField → Path → Job Outcome} (outcome : ShownOutcome)
    (hselected : outcome.shown.Selected (context.scope none) collected.isComposite
      collected.selections)
    (h : ∀ label, label.Injective → work (context.relabel label) (collected.relabel label)
      (path.relabel label) = .done (outcome.view label)) : context.ShowsField collected path work :=
  have hdone : Job.Shows (·.shown.Selected (context.scope none) collected.isComposite
      collected.selections) ShownOutcome.view fun label => .done (outcome.view label) :=
    .done outcome hselected
  hdone.congr h

/-- A field that fails is null, whatever has been selected. -/
theorem showsField_failure (error : FieldError) (collected : CollectedField) (path : Path) :
    context.ShowsField collected path fun _ collected path =>
      .done (.failure error collected.field path) :=
  showsField_of_done (.failure error collected.field path) (.leaf .null fun _ => ⟨rfl, rfl⟩)
    fun _ _ => rfl

namespace Shows

theorem value_succ (below : context.Shows bound) (type : TypeRef) (value : Resolved ref)
    (collected : CollectedField) (path : Path) :
    context.ShowsField collected path (·.completeValue (bound + 1) type value) := by
  cases value with
  | leaf value =>
    cases hcomposite : collected.isComposite with
    | true =>
      obtain ⟨shown, errors, hshown, hpicked⟩ :=
        Record.shows_pick (context.scope none) value type.innerName? collected.selections path
      refine showsField_of_done ⟨shown, errors, false⟩ (hcomposite ▸ hshown) fun label hlabel => ?_
      have hpick : Record.pick ((context.relabel label).scope none) value type.innerName?
          (collected.relabel label).selections (path.relabel label) = _ := hpicked label hlabel
      simp only [completeValue, CollectedField.isComposite_relabel, hcomposite, ite_true, hpick]
      rfl
    | false =>
      refine showsField_of_done ⟨.leaf (completeLeaf context.types type value), [], false⟩
        (.leaf _ fun h => absurd h (by simp [hcomposite])) fun label _ => ?_
      simp only [completeValue, CollectedField.isComposite_relabel, hcomposite]
      rfl
  | object reference =>
    cases hcomposite : collected.isComposite with
    | true =>
      simp only [ShowsField, completeValue, CollectedField.isComposite_relabel, hcomposite,
        ite_true]
      exact (below.fields context.window (context.objects reference) path collected.selections).map
        (fun _ => Outcomes.toOutcome) _ ShownOutcome.view_ofFields fun _ hfields => hfields.selected
    | false =>
      refine showsField_of_done (.failure (.missingSelection collected.field.name
        (context.objects reference).name) collected.field path) (.leaf .null fun _ => ⟨rfl, rfl⟩)
        fun label _ => ?_
      simp only [completeValue, CollectedField.isComposite_relabel, hcomposite]
      rfl
  | list items =>
    have hitems := Job.Shows.run (fun entry : Node ref × Nat =>
      below.node (type.itemType?.getD type) entry.1 collected (path.join (.index entry.2)))
      context.window items.zipIdx
    simp only [ShowsField, completeValue, Path.relabel_index]
    refine hitems.map (fun _ => Outcome.ofItems) _ ShownOutcome.view_ofItems ?_
    refine fun outcomes houtcomes => .list fun item hitem => ?_
    obtain ⟨outcome, houtcome, rfl⟩ := List.mem_map.mp hitem
    have hboth := houtcomes.flip.imp fun _ _ hselected => And.intro hselected trivial
    exact ((List.forall₂_and_left _ _).mp hboth).1 outcome houtcome

theorem node_succ (below : context.Shows bound) (type : TypeRef) (node : Node ref)
    (collected : CollectedField) (path : Path) :
    context.ShowsField collected path (·.completeNode (bound + 1) type node) := by
  cases node with
  | ready name value => exact below.value type value collected path
  | effect name delay outcome =>
    refine Job.Shows.noting (fun start => [.ran path name start (start + delay)])
      (Job.Shows.after delay ?_)
    cases outcome with
    | ok value => exact below.value type value collected path
    | error cause => exact showsField_failure (.effectFailed cause) collected path
  | stream source =>
    exact Job.Shows.noting (releaseRecord path source.parts)
      (showsField_failure (.streamNotAllowed collected.field.name) collected path)

theorem field_succ (below : context.Shows bound) (object : ObjectType ref)
    (collected : CollectedField) (path : Path) :
    context.ShowsField collected path (·.executeField (bound + 1) object) := by
  have hname : ∀ label, (collected.relabel label).field.name = collected.field.name := fun _ => rfl
  have hresolve : ∀ label, (context.relabel label).resolve bound object
      (collected.relabel label).field = context.resolve bound object collected.field := fun _ => rfl
  by_cases htype : collected.field.name = typenameField
  · refine showsField_of_done ⟨.leaf (.string object.name), [], false⟩ (.leaf _ fun _ => ⟨rfl, rfl⟩)
      fun label _ => ?_
    simp only [executeField, hname, htype, ite_true]
    rfl
  simp only [ShowsField, executeField, hname, hresolve, htype, ite_false]
  rcases (context.resolve bound object collected.field).run with _ | error | resolved
  · exact .unfinished
  · exact showsField_failure error collected path
  · have hrecord : ∀ label, callRecord (path.relabel label) (collected.relabel label).field
        resolved = _ := fun label => callRecord_relabel label path collected.field resolved
    simp only [hrecord]
    exact (below.node resolved.type resolved.node collected path).noting _

theorem fields_succ (below : context.Shows bound) (width : Nat) (object : ObjectType ref)
    (path : Path) (selections : List Selection) :
    Job.Shows (context.SelectedFields (some object.name) selections)
      (fun label => Entries.relabel label (ShownOutcome.view label)) fun label =>
        (context.relabel label).executeFields (bound + 1) width object (path.relabel label)
          (selections.map (Selection.relabel label)) := by
  have hentry : ∀ entry : String × CollectedField,
      Job.Shows (fun outcome : String × ShownOutcome => outcome.1 = entry.1 ∧
          outcome.2.shown.Selected (context.scope none) entry.2.isComposite entry.2.selections)
        (fun label outcome => (label outcome.1, outcome.2.view label)) fun label =>
          ((context.relabel label).executeField bound object (entry.2.relabel label)
            ((path.join (.key entry.1)).relabel label)).map fun outcome =>
              (label entry.1, outcome) := by
    intro entry
    exact (below.field object entry.2 (path.join (.key entry.1))).map
      (fun label outcome => (label entry.1, outcome)) (fun outcome => (entry.1, outcome))
      (fun _ _ => rfl) fun _ hselected => ⟨rfl, hselected⟩
  refine (Job.Shows.run hentry width
    (collect (context.scope (some object.name)) selections)).congr fun label hlabel => ?_
  have hcollect : collect ((context.relabel label).scope (some object.name))
      (selections.map (Selection.relabel label)) =
      Entries.relabel label (CollectedField.relabel label)
        (collect (context.scope (some object.name)) selections) :=
    collect_relabel hlabel (context.scope (some object.name)) selections
  simp only [executeFields, hcollect, Entries.relabel, List.map_map, Function.comp_def,
    Path.relabel_key]

end Shows

/-- Under all labels the same is done. -/
theorem shows (context : Context ref) (bound : Nat) : context.Shows bound := by
  induction bound with
  | zero =>
    exact ⟨fun _ _ _ _ => .unfinished, fun _ _ _ _ => .unfinished, fun _ _ _ => .unfinished,
      fun _ _ _ _ => .unfinished⟩
  | succ bound below =>
    exact ⟨below.value_succ, below.node_succ, below.field_succ, below.fields_succ⟩

end Context

end GraphQL

import GraphQL.Proofs.Completion
import GraphQL.Proofs.Listing
import GraphQL.Proofs.Reading
import GraphQL.Proofs.Record
import GraphQL.Proofs.Service

/-!
# Response keys on error paths

The path of an error is put together on the way down: an object adds the key of a field, a list adds
an index. So the names on it are response keys of the document, whatever the resolvers answer.
`Selection.Keyed` says that all response keys in a selection are admitted; collecting fields keeps
this, and so does every step of an execution.

Results:
* `collect_keyed`: the keys of collected fields, and those below them.
* `Record.pick_keyed`, `keyedRules`: the errors of what is picked and of what is executed.
* `ResponseStream.Keyed.take`: the errors of the responses of a stream.
* `Service.answer_keyed`: the errors in whatever a service answers.
-/

namespace GraphQL

variable {ref : Type} {admitted : String → Prop}

/-! ## Keys -/

/-- Every field in the selection, at any depth, has a response key that is admitted. What is spread
    stands elsewhere. -/
inductive Selection.Keyed (admitted : String → Prop) : Selection → Prop
  | field {field : Field} : admitted field.responseKey →
    (∀ selection ∈ field.selections, selection.Keyed admitted) → Keyed admitted (.field field)
  | inlineFragment {condition : Option String} {guard : Guard} {below : List Selection} :
    (∀ selection ∈ below, selection.Keyed admitted) →
    Keyed admitted (.inlineFragment condition guard below)
  | spread (name : String) (guard : Guard) : Keyed admitted (.spread name guard)

/-- All selections of the fragments have admitted response keys. -/
def Fragments.Keyed (admitted : String → Prop) (fragments : Fragments) : Prop :=
  ∀ entry ∈ fragments, ∀ selection ∈ entry.2.selections, selection.Keyed admitted

/-- All response keys of the document are admitted. -/
structure ExecutableDocument.Keyed (admitted : String → Prop) (document : ExecutableDocument) :
    Prop where
  fragments : document.fragments.Keyed admitted
  operations : ∀ operation ∈ document.operations, ∀ selection ∈ operation.selections,
    selection.Keyed admitted

/-- All names on the path are admitted. -/
def Path.Keyed (admitted : String → Prop) (path : Path) : Prop :=
  ∀ name, .key name ∈ path.segments → admitted name

/-- All names on the path of the error, if it has one, are admitted. -/
def Error.Keyed (admitted : String → Prop) (error : Error) : Prop :=
  ∀ path, error.path = some path → path.Keyed admitted

namespace Path.Keyed

variable {path : Path}

theorem root : Keyed admitted .root := nofun

theorem index (h : path.Keyed admitted) (i : Nat) : (path.join (.index i)).Keyed admitted := by
  intro name hm
  rcases List.mem_append.mp hm with hm | hm
  · exact h name hm
  · cases List.mem_singleton.mp hm

theorem key (h : path.Keyed admitted) {key : String} (hkey : admitted key) :
    (path.join (.key key)).Keyed admitted := by
  intro name hm
  rcases List.mem_append.mp hm with hm | hm
  · exact h name hm
  · cases List.mem_singleton.mp hm
    exact hkey

/-- A failure at the path. -/
theorem failure (h : path.Keyed admitted) (reason : FieldError) (location : Location) :
    ∀ error ∈ [reason.report path location], error.Keyed admitted := by
  intro error hm
  rw [List.mem_singleton.mp hm]
  rintro _ ⟨⟩
  exact h

end Path.Keyed

/-! ## Collected fields -/

/-- The field has an admitted response key, and so have the fields below it. -/
def FieldSelection.Keyed (admitted : String → Prop) (field : Field) : Prop :=
  admitted field.responseKey ∧ ∀ selection ∈ field.selections, selection.Keyed admitted

theorem Collection.Lists.keyed {scope : Scope} {seen last : List String}
    {selections : List Selection} {fields : List Field}
    (hfragments : scope.fragments.Keyed admitted) (h : Lists scope seen selections fields last)
    (hselections : ∀ selection ∈ selections, selection.Keyed admitted) :
    ∀ field ∈ fields, field.Keyed admitted := by
  induction h with
  | nil => nofun
  | passed _ _ ih => exact ih (List.forall_mem_cons.mp hselections).2
  | field _ _ ih =>
    obtain ⟨hfirst, hrest⟩ := List.forall_mem_cons.mp hselections
    cases hfirst with
    | field hkey hbelow => exact List.forall_mem_cons.mpr ⟨⟨hkey, hbelow⟩, ih hrest⟩
  | inlineFragment _ _ _ _ ihinner ihrest =>
    obtain ⟨hfirst, hrest⟩ := List.forall_mem_cons.mp hselections
    cases hfirst with
    | inlineFragment hbelow =>
      exact List.forall_mem_append.mpr ⟨ihinner hbelow, ihrest hrest⟩
  | spread _ _ hfind _ _ _ ihinner ihrest =>
    have hbelow := hfragments _ (Entries.mem_of_find? hfind)
    exact List.forall_mem_append.mpr
      ⟨ihinner hbelow, ihrest (List.forall_mem_cons.mp hselections).2⟩

/-- Collected fields have admitted keys, and so have the fields below them. -/
theorem collect_keyed {scope : Collection.Scope} {selections : List Selection}
    (hfragments : scope.fragments.Keyed admitted)
    (hselections : ∀ selection ∈ selections, selection.Keyed admitted)
    {entry : String × CollectedField} (hm : entry ∈ collect scope selections) :
    admitted entry.1 ∧ ∀ selection ∈ entry.2.selections, selection.Keyed admitted := by
  have hfind := Entries.find?_of_mem (nodup_keys_collect scope selections) hm
  obtain ⟨fields, last, hlists, hcollect⟩ := Collection.exists_lists scope selections
  have hfields := hlists.keyed hfragments hselections
  rw [hcollect, Collection.find?_group, Option.map_eq_some_iff] at hfind
  obtain ⟨first, hfirst, he⟩ := hfind
  have hunder : ∀ field ∈ Collection.underKey entry.1 fields,
      field.Keyed admitted ∧ field.responseKey = entry.1 := by
    intro field hfield
    obtain ⟨hfield, hkey⟩ := List.mem_filter.mp hfield
    exact ⟨hfields field hfield, of_decide_eq_true hkey⟩
  constructor
  · obtain ⟨hkeyed, hkey⟩ := hunder first (List.mem_of_head? hfirst)
    exact hkey ▸ hkeyed.1
  · rw [← he]
    intro selection hselection
    obtain ⟨field, hfield, hselection⟩ := List.mem_flatMap.mp hselection
    exact (hunder field hfield).1.2 selection hselection

/-! ## Records -/

namespace Record

variable {scope : Collection.Scope}

/-- What is picked at a path has errors with admitted names. -/
def KeepsKeys (admitted : String → Prop) (picker : Picker) : Prop :=
  ∀ selections path, (∀ selection ∈ selections, selection.Keyed admitted) → path.Keyed admitted →
    ∀ error ∈ (picker selections path).errors, error.Keyed admitted

theorem pickField_keyed {entries : Entries (Value × Picker)}
    (hpickers : ∀ entry ∈ entries, KeepsKeys admitted entry.2.2) (runtime : Option String)
    {collected : CollectedField}
    (hbelow : ∀ selection ∈ collected.selections, selection.Keyed admitted) {path : Path}
    (hpath : path.Keyed admitted) :
    ∀ error ∈ (pickField entries runtime collected path).errors, error.Keyed admitted := by
  rw [pickField]
  split
  · exact List.forall_mem_nil _
  · split
    · exact hpath.failure _ _
    · next hfind =>
      split
      · exact hpickers _ (Entries.mem_of_find? hfind) _ _ hbelow hpath
      · exact List.forall_mem_nil _

/-- Picking keeps to the keys of the selections. -/
theorem pick_keyed (hfragments : scope.fragments.Keyed admitted) (value : Value)
    (declared : Option String) : KeepsKeys admitted (pick scope value declared) := by
  induction value using Value.induction generalizing declared with
  | scalar value hitems hfields =>
    intro selections path _ _
    rw [pick_scalar hitems hfields]
    nofun
  | list items ih =>
    intro selections path hselections hpath error hm
    obtain ⟨picked, hpicked, hm⟩ := List.mem_flatMap.mp hm
    rw [pickItems_eq_map] at hpicked
    obtain ⟨⟨item, i⟩, hitem, rfl⟩ := List.mem_map.mp hpicked
    exact ih item (List.fst_mem_of_mem_zipIdx hitem) declared selections _ hselections
      (hpath.index i) error hm
  | object fields ih =>
    intro selections path hselections hpath error hm
    obtain ⟨_, hentry, hm⟩ := List.mem_flatMap.mp hm
    obtain ⟨⟨key, collected⟩, hcollected, rfl⟩ := List.mem_map.mp hentry
    obtain ⟨hkey, hbelow⟩ := collect_keyed (by exact hfragments) hselections hcollected
    refine pickField_keyed (fun entry hentry => ?_) _ hbelow (hpath.key hkey) error hm
    rw [pickers_eq_mapValues] at hentry
    obtain ⟨field, hfield, rfl⟩ := List.mem_map.mp hentry
    exact ih field hfield none

end Record

/-! ## Executions -/

/-- From admitted keys, errors with admitted names: for every kind of work. -/
def keyed (ref : Type) (admitted : String → Prop) : Property ref where
  value _ _ collected path _ timed :=
    (∀ selection ∈ collected.selections, selection.Keyed admitted) → path.Keyed admitted →
      ∀ error ∈ timed.value.errors, error.Keyed admitted
  node _ _ collected path _ timed :=
    (∀ selection ∈ collected.selections, selection.Keyed admitted) → path.Keyed admitted →
      ∀ error ∈ timed.value.errors, error.Keyed admitted
  field _ collected path _ timed :=
    (∀ selection ∈ collected.selections, selection.Keyed admitted) → path.Keyed admitted →
      ∀ error ∈ timed.value.errors, error.Keyed admitted
  fields _ _ path selections _ timed :=
    (∀ selection ∈ selections, selection.Keyed admitted) → path.Keyed admitted →
      ∀ error ∈ timed.value.errors, error.Keyed admitted

/-- Every step of an execution keeps to the keys of the document. -/
theorem keyedRules {context : Context ref} (hfragments : context.fragments.Keyed admitted) :
    context.Rules (keyed ref admitted) where
  picked _ := Record.pick_keyed hfragments _ _ _ _
  leaf _ := nofun
  object _ h := h
  unselected _ _ hpath := hpath.failure _ _
  list h hbelow hpath error hm := by
    obtain ⟨outcome, houtcome, hm⟩ := List.mem_flatMap.mp hm
    obtain ⟨i, hi⟩ := List.mem_iff_getElem?.mp houtcome
    obtain ⟨item, _, run, -, hrun, rfl⟩ := h.value_getElem? hi
    exact hrun hbelow (hpath.index item.2) error hm
  ready h := h
  effect h := h
  failed _ hpath := hpath.failure _ _
  stream _ hpath := hpath.failure _ _
  typename _ := nofun
  unresolved _ _ _ hpath := hpath.failure _ _
  resolved _ _ h := h
  fields h hselections hpath error hm := by
    obtain ⟨entry, hentry, hm⟩ := List.mem_flatMap.mp hm
    obtain ⟨i, hi⟩ := List.mem_iff_getElem?.mp hentry
    obtain ⟨item, _, _, hitem, ⟨outcome, houtcome, rfl⟩, rfl⟩ := h.value_getElem? hi
    obtain ⟨hkey, hbelow⟩ :=
      collect_keyed hfragments hselections (List.mem_of_getElem? hitem)
    exact houtcome hbelow (hpath.key hkey) error hm

/-! ## Jobs -/

namespace Job

variable {α β : Type} {P : α → Prop} {Q : β → Prop} {job : Job α}

/-- Whatever the job ends with has the property. -/
def Ensures (P : α → Prop) (job : Job α) : Prop :=
  ∀ start timed, job start = some timed → P timed.value

namespace Ensures

theorem unfinished : Ensures P unfinished := nofun

theorem done {value : α} (h : P value) : Ensures P (done value) := by
  intro start timed hdone
  rw [done_eq_some_iff.mp hdone]
  exact h

theorem map (h : Ensures P job) {f : α → β} (hf : ∀ a, P a → Q (f a)) : Ensures Q (job.map f) := by
  intro start timed hmap
  obtain ⟨first, hfirst, rfl⟩ := map_eq_some_iff.mp hmap
  exact hf _ (h start first hfirst)

theorem noting (h : Ensures P job) (occurrences : Nat → List Occurrence) :
    Ensures P (job.noting occurrences) := by
  intro start timed hnoting
  obtain ⟨first, hfirst, rfl⟩ := noting_eq_some_iff.mp hnoting
  exact h start first hfirst

theorem after (h : Ensures P job) (delay : Nat) : Ensures P (job.after delay) :=
  fun start => h (start + delay)

section Results

variable {ε : Type}

theorem ok {value : α} (h : P value) :
    Ensures (fun result : Except ε α => ∀ a, result = .ok a → P a) (Job.done (.ok value)) := by
  refine done ?_
  rintro _ ⟨⟩
  exact h

theorem error (reason : ε) :
    Ensures (fun result : Except ε α => ∀ a, result = .ok a → P a) (Job.done (.error reason)) := by
  refine done ?_
  rintro _ ⟨⟩

end Results

end Ensures

end Job

/-! ## Streams -/

/-- The names on the paths of all errors of the response are admitted. -/
def Response.Keyed (admitted : String → Prop) (response : Response Error) : Prop :=
  ∀ error ∈ response.errors, error.Keyed admitted

/-- The key of the root field is admitted, and so are all that can be met below it. -/
structure Subscription.Keyed (admitted : String → Prop) (subscription : Subscription ref) :
    Prop where
  fragments : subscription.context.fragments.Keyed admitted
  key : admitted subscription.key
  selections : ∀ selection ∈ subscription.collected.selections, selection.Keyed admitted

/-- What there is to come keeps to admitted keys. -/
def ResponseStream.Keyed (admitted : String → Prop) : ResponseStream ref → Prop
  | .ended => True
  | .single response => response.Keyed admitted
  | .live subscription _ => subscription.Keyed admitted

theorem Subscription.Keyed.complete {subscription : Subscription ref}
    (h : subscription.Keyed admitted) (bound : Nat) (event : Except String (Resolved ref)) :
    (subscription.complete bound event).Ensures (Response.Keyed admitted) := by
  have hpath : subscription.path.Keyed admitted := Path.Keyed.root.key h.key
  intro start timed hcomplete
  unfold Subscription.complete at hcomplete
  obtain ⟨outcome, houtcome, rfl⟩ := Job.map_eq_some_iff.mp hcomplete
  cases event with
  | ok value => exact ((keyedRules h.fragments).holds bound).value houtcome h.selections hpath
  | error cause =>
    rw [Job.done_eq_some_iff.mp houtcome]
    exact hpath.failure _ _

namespace ResponseStream.Keyed

variable {stream : ResponseStream ref}

/-- A stream that keeps to admitted keys answers so, and still does behind the answer. -/
theorem next (h : stream.Keyed admitted) (bound : Nat) :
    (stream.next bound).Ensures fun answer =>
      (∀ response, answer.1 = some response → response.Keyed admitted) ∧
        answer.2.Keyed admitted := by
  have hended : ∀ response : Response Error, response.Keyed admitted →
      (∀ other, some response = some other → other.Keyed admitted) ∧
        (ended : ResponseStream ref).Keyed admitted := by
    rintro response hresponse
    exact ⟨fun _ he => Option.some.inj he ▸ hresponse, trivial⟩
  cases stream with
  | ended => exact .done ⟨nofun, trivial⟩
  | single response => exact .done (hended response h)
  | live subscription source =>
    rw [ResponseStream.next]
    split
    · exact .noting (.done ⟨nofun, trivial⟩) _
    · next event rest made _ =>
      have hcompleted := h.complete bound event.outcome
      refine .after (.noting ?_ _) _
      split
      · exact hcompleted.map fun response hresponse =>
          ⟨fun _ he => Option.some.inj he ▸ hresponse, h⟩
      · exact .noting (hcompleted.map hended) _

/-- All responses that are taken from a stream keep to the keys that the stream keeps to. -/
theorem take (h : stream.Keyed admitted) {bound count start : Nat} {taken : Taken ref}
    (htaken : stream.take bound count start = some taken) :
    ∀ response ∈ taken.responses, response.value.Keyed admitted := by
  induction count generalizing stream start taken with
  | zero =>
    cases htaken
    nofun
  | succ count ih =>
    rw [ResponseStream.take] at htaken
    split at htaken
    · cases htaken
    · cases htaken
      nofun
    · next response rest finish record hnext =>
      obtain ⟨hresponse, hrest⟩ := h.next bound start _ hnext
      obtain ⟨others, hothers, rfl⟩ := Option.map_eq_some_iff.mp htaken
      exact List.forall_mem_cons.mpr ⟨hresponse response rfl, ih hrest hothers⟩

end ResponseStream.Keyed

/-- A subscription that is started keeps to the keys of its selections. -/
theorem Context.subscribe_keyed {context : Context ref}
    (hfragments : context.fragments.Keyed admitted) (bound : Nat) (root : ObjectType ref)
    {selections : List Selection}
    (hselections : ∀ selection ∈ selections, selection.Keyed admitted) :
    (context.subscribe bound root selections).Ensures fun result =>
      ∀ stream, result = .ok stream → stream.Keyed admitted := by
  rw [Context.subscribe]
  split
  · next key collected hcollect =>
    have hm : (key, collected) ∈ collect (context.scope (some root.name)) selections :=
      hcollect ▸ List.mem_singleton_self _
    have hname : collected.field.responseKey = key :=
      responseKey_of_find?_collect (Entries.find?_of_mem (nodup_keys_collect _ _) hm)
    have hscope : (context.scope (some root.name)).fragments.Keyed admitted := hfragments
    obtain ⟨hkey, hbelow⟩ := collect_keyed hscope hselections hm
    have hfield : admitted collected.field.responseKey := by
      rw [hname]
      exact hkey
    dsimp only
    split
    · exact .error _
    · split
      · exact .unfinished
      · exact .ok ((Path.Keyed.root.key hkey).failure _ _)
      · refine .noting ?_ _
        split
        · exact .ok ⟨hfragments, hfield, hbelow⟩
        · exact .noting (.error _) _
        · exact .noting (.error _) _
  · exact .error _

/-! ## Services -/

namespace Service

/-- A reply to an operation of a document keeps to the keys of the document. -/
theorem executeDocument_keyed (service : Service ref) (objects : ref → ObjectType ref)
    (bound : Nat) {document : ExecutableDocument} (h : document.Keyed admitted)
    (name : Option String) (bindings : Variables) :
    (service.executeDocument objects bound document name bindings).Ensures fun result =>
      ∀ reply, result = .ok reply → reply.toStream.Keyed admitted := by
  rw [executeDocument]
  split
  · exact .error _
  · next operation hoperation =>
    have hselections := h.operations operation (ExecutableDocument.mem_of_operation hoperation)
    split
    · exact .error _
    · next root _ =>
      have hcontext : (service.context objects document
          (operation.complete bindings)).fragments.Keyed admitted := h.fragments
      rw [run]
      split
      · have hstream := Context.subscribe_keyed hcontext bound root hselections
        refine hstream.map ?_
        intro result hresult reply hreply
        cases result with
        | error error => cases hreply
        | ok stream =>
          cases hreply
          exact hresult stream rfl
      all_goals
        intro start timed hrun
        obtain ⟨first, hfirst, rfl⟩ := Job.map_eq_some_iff.mp hrun
        rintro _ ⟨⟩
        exact ((keyedRules hcontext).holds bound).fields hfirst hselections .root

/-- Whatever a service answers keeps to the keys of the document, if the request has one. -/
theorem answer_keyed (service : Service ref) (objects : ref → ObjectType ref) (bound : Nat)
    {request : Request} (h : ∀ document, service.readDocument request.query = .ok document →
      document.Keyed admitted) :
    (service.answer objects bound request).Ensures fun reply => reply.toStream.Keyed admitted := by
  have hexecute : (service.execute objects bound request).Ensures fun result =>
      ∀ reply, result = .ok reply → reply.toStream.Keyed admitted := by
    rw [execute]
    split
    · exact .error _
    · next document hdocument => exact service.executeDocument_keyed _ _ (h document hdocument) _ _
  refine hexecute.map ?_
  intro result hresult
  cases result with
  | ok reply => exact hresult reply rfl
  | error refusal =>
    -- The report of a refusal has no path.
    intro error hm
    rw [List.mem_singleton.mp hm]
    nofun

end Service

end GraphQL

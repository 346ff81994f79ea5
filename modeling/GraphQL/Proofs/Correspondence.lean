import GraphQL.Proofs.BareFields
import GraphQL.Proofs.LookUps
import Mathlib.Data.List.Forall2

/-!
# Selections that work alike

Two executions on schemas that answer alike are the same as soon as they collect the same fields:
`Collection.Corresponds` says that selections which are related collect related fields, key by key.
What is done with such fields is then the same at all times, and so is all that is noted on the way,
unless there is a bared field among them (`Context.Bares`). There is none if only no selections are
related to none. The selections may be read with different fragments, and one selection under
different types corresponds to itself (`Corresponds.of_types`).

Results:
* `Context.Alike.pick_eq`: the same is picked from a record.
* `Context.Alike.agrees`: values, nodes, fields and objects are completed in the same way.
* `Context.Alike.not_bares`: whether there are bared fields.
-/

namespace GraphQL

variable {ref : Type}

/-- The same field with the same arguments, at the same place in the document, and with related
    selections below it. -/
structure CollectedField.Alike (related : List Selection → List Selection → Prop)
    (left right : CollectedField) : Prop where
  name : right.field.name = left.field.name
  responseKey : right.field.responseKey = left.field.responseKey
  arguments : right.field.arguments = left.field.arguments
  location : right.field.location = left.field.location
  composite : right.field.composite = left.field.composite
  selections : related left.selections right.selections

/-- Related selections collect related fields under the same keys, on objects of any type. The ones
    on the right are read in a scope of their own, and there are none if there are none on the
    left. -/
structure Collection.Corresponds (scope other : Collection.Scope)
    (related : List Selection → List Selection → Prop) : Prop where
  collects (runtime : Option String) {left right : List Selection} : related left right →
    List.Forall₂ (fun one other => other.1 = one.1 ∧ one.2.Alike related other.2)
      (collect { scope with runtime } left) (collect { other with runtime } right)
  nil {right : List Selection} : related [] right → right = []

namespace Entries

variable {α β : Type} {R : α → β → Prop} {xs : Entries α} {ys : Entries β}

theorem keys_eq_of_forall₂ (h : List.Forall₂ (fun x y => y.1 = x.1 ∧ R x.2 y.2) xs ys) :
    keys ys = keys xs := by
  induction h with
  | nil => rfl
  | cons hhead _ ih => exact congrArg₂ List.cons hhead.1 ih

/-- Entries that are related one by one are related under each key. -/
theorem rel_of_mem (h : List.Forall₂ (fun x y => y.1 = x.1 ∧ R x.2 y.2) xs ys)
    (hnodup : (keys xs).Nodup) {key : String} {a : α} {b : β} (ha : (key, a) ∈ xs)
    (hb : (key, b) ∈ ys) : R a b := by
  induction h with
  | nil => cases ha
  | @cons x y xs ys hhead htail ih =>
    obtain ⟨hnew, hnodup⟩ := List.nodup_cons.mp hnodup
    rcases List.mem_cons.mp ha with rfl | ha
    · rcases List.mem_cons.mp hb with rfl | hb
      · exact hhead.2
      · have hkey : key ∈ keys ys := List.mem_map_of_mem hb
        rw [keys_eq_of_forall₂ htail] at hkey
        exact absurd hkey hnew
    · rcases List.mem_cons.mp hb with rfl | hb
      · exact absurd (hhead.1 ▸ List.mem_map_of_mem ha) hnew
      · exact ih hnodup ha hb

end Entries

namespace Collection.Corresponds

variable {scope other : Collection.Scope} {related : List Selection → List Selection → Prop}

/-- Only the types may differ, as long as they answer alike. -/
theorem of_types {types : Types} (h : scope.types.Alike types) :
    Corresponds scope { scope with types } Eq where
  collects := by
    rintro runtime selections _ rfl
    have halike : ({ scope with runtime } : Scope).types.Alike types := h
    have hcollect : collect { scope with types, runtime } selections =
        collect { scope with runtime } selections := halike.collect selections
    simp only [hcollect]
    exact List.forall₂_same.mpr fun _ _ => ⟨rfl, ⟨rfl, rfl, rfl, rfl, rfl, rfl⟩⟩
  nil := Eq.symm

variable (h : Corresponds scope other related)

include h

/-- What is done with related fields in the same way is the same for all that are collected. -/
theorem map_eq {α : Type} {left right : List Selection} (hrelated : related left right)
    (runtime : Option String) {f g : String × CollectedField → α}
    (hsame : ∀ key one two, (key, one) ∈ collect { scope with runtime } left →
      (key, two) ∈ collect { other with runtime } right → one.Alike related two →
      g (key, two) = f (key, one)) :
    (collect { other with runtime } right).map g = (collect { scope with runtime } left).map f := by
  have hcollect := h.collects runtime hrelated
  generalize collect { other with runtime } right = others at hcollect hsame
  generalize collect { scope with runtime } left = fields at hcollect hsame
  induction hcollect with
  | nil => rfl
  | @cons one two _ _ hhead _ ih =>
    obtain ⟨key, one⟩ := one
    obtain ⟨_, two⟩ := two
    obtain ⟨rfl, halike⟩ := hhead
    rw [List.map_cons, List.map_cons,
      hsame _ one two List.mem_cons_self List.mem_cons_self halike]
    exact congrArg _ (ih fun key one two hone htwo =>
      hsame key one two (List.mem_cons_of_mem _ hone) (List.mem_cons_of_mem _ htwo))

variable {one two : CollectedField}

/-- A field that selects something on the right does so on the left. -/
theorem composite_cases (halike : one.Alike related two) :
    (one.isComposite = true ∧ two.isComposite = true) ∨ one.Bared two ∨
      one.isComposite = false ∧ two.isComposite = false := by
  cases htwo : two.isComposite with
  | false =>
    cases hone : one.isComposite with
    | false => exact .inr (.inr ⟨rfl, rfl⟩)
    | true => exact .inr (.inl ⟨hone, htwo⟩)
  | true =>
    refine .inl ⟨?_, rfl⟩
    by_contra hone
    rw [CollectedField.isComposite, Bool.or_eq_true, not_or, Bool.not_eq_true, Bool.not_eq_true',
      Bool.not_eq_false, List.isEmpty_iff] at hone
    have hselections := halike.selections
    rw [hone.2] at hselections
    rw [CollectedField.isComposite, halike.composite, hone.1, h.nil hselections] at htwo
    cases htwo

/-- Below a field that selects nothing on the right, nothing is collected on the left. -/
theorem collect_eq_nil (halike : one.Alike related two) (htwo : two.isComposite = false)
    (runtime : Option String) : collect { scope with runtime } one.selections = [] := by
  rw [CollectedField.isComposite, Bool.or_eq_false_iff, Bool.not_eq_false', List.isEmpty_iff] at htwo
  have hcollect := h.collects runtime halike.selections
  have hnothing : collect { other with runtime } two.selections = [] := by
    rw [htwo.2, collect]
    cases other.fragments.length <;> rfl
  rw [hnothing] at hcollect
  exact List.forall₂_nil_right_iff.mp hcollect

end Collection.Corresponds

/-- A failure is that of a field at a place in the document. -/
theorem Outcome.failure_congr {one other : Field}
    (hlocation : other.location = one.location) (error : FieldError) (path : Path) :
    Outcome.failure error other path = Outcome.failure error one path := by
  simp only [Outcome.failure, hlocation]

namespace Context

/-- Two contexts in which related selections collect related fields, and which read the rest
    alike. -/
structure Alike (left right : Context ref) (related : List Selection → List Selection → Prop) :
    Prop where
  objects : right.objects = left.objects
  width : right.width = left.width
  bindings : right.bindings = left.bindings
  types : left.types.Alike right.types
  corresponds : Collection.Corresponds (left.scope none) (right.scope none) related

variable {context twin : Context ref} {related : List Selection → List Selection → Prop}
  {bound : Nat}

namespace Alike

variable (h : context.Alike twin related)

include h

theorem window : twin.window = context.window := by
  simp only [Context.window, h.width]

/-- A field is resolved by its name and its arguments. -/
theorem resolve {one other : Field} (hname : other.name = one.name)
    (harguments : other.arguments = one.arguments) {object double : ObjectType ref}
    (hobject : object.Alike double) :
    twin.resolve bound double other = context.resolve bound object one := by
  have hcoerced (arguments : List Argument) :
      coerceArguments twin.types context.bindings bound arguments other =
        coerceArguments context.types context.bindings bound arguments one := by
    rw [h.types.coerceArguments]
    simp only [coerceArguments, coerceArgument, FieldSelection.argument?, harguments]
  simp only [Context.resolve, h.bindings, hcoerced, hobject.field, hobject.name, hname]

theorem resolves_iff {one other : Field} (hname : other.name = one.name)
    (harguments : other.arguments = one.arguments) {object double : ObjectType ref}
    (hobject : object.Alike double) {called : ResolvedField ref} :
    twin.Resolves double other called ↔ context.Resolves object one called := by
  simp only [Context.resolves_iff, hname, h.resolve hname harguments hobject]

/-! ## Records -/

/-- The same is picked for related fields if the same is picked below them. -/
theorem pickField_eq {fields : Fields} {runtime : Option String} {path : Path}
    {one two : CollectedField} (halike : one.Alike related two)
    (hbares : ¬ context.Bares twin (path, .entry fields runtime one)
      (path, .entry fields runtime two))
    (hbelow : ∀ field ∈ fields, ¬ context.Bares twin (path, .record field.2 none one.selections)
        (path, .record field.2 none two.selections) →
      Record.pick (twin.scope none) field.2 none two.selections path =
        Record.pick (context.scope none) field.2 none one.selections path) :
    Record.pickField (Record.pickers (twin.scope none) fields) runtime two path =
      Record.pickField (Record.pickers (context.scope none) fields) runtime one path := by
  by_cases hname : one.field.name = typenameField
  · simp only [Record.pickField, halike.name, hname, ite_true]
  · have hname' : two.field.name ≠ typenameField := halike.name ▸ hname
    cases hfind : Entries.find? fields one.field.name with
    | none =>
      simp only [Record.pickField, Record.pickers_eq_mapValues, Entries.find?_mapValues,
        halike.name, halike.location, hname, hfind, ite_false, Option.map_none]
    | some value =>
      have hfind' : Entries.find? fields two.field.name = some value := halike.name ▸ hfind
      rw [Record.pickField_of_find? hname hfind, Record.pickField_of_find? hname' hfind']
      rcases h.corresponds.composite_cases halike with ⟨hone, htwo⟩ | hbared | ⟨hone, htwo⟩
      · rw [if_pos hone, if_pos htwo]
        exact hbelow _ (Entries.mem_of_find? hfind) fun hb =>
          hbares (.step (.entry hname hfind hone) (.entry hname' hfind' htwo) hb)
      · have hhollow : value.hollow = value := by
          by_contra hne
          exact hbares (.here (.entry hbared hname hfind hne))
        have hnothing := h.corresponds.collect_eq_nil halike hbared.2
        simp only [hbared.1, hbared.2, ite_true, Bool.false_eq_true, ite_false,
          Record.pick_hollow hnothing, hhollow]
      · simp only [hone, htwo, Bool.false_eq_true, ite_false]

/-- Related selections pick the same. -/
theorem pick_eq (value : Value) {left right : List Selection} (hrelated : related left right)
    (declared : Option String) (path : Path)
    (hbares : ¬ context.Bares twin (path, .record value declared left)
      (path, .record value declared right)) :
    Record.pick (twin.scope none) value declared right path =
      Record.pick (context.scope none) value declared left path := by
  induction value using Value.induction generalizing left right declared path with
  | scalar value hitems hfields =>
    rw [Record.pick_scalar hitems hfields, Record.pick_scalar hitems hfields]
  | list items ih =>
    have hsame : (items.zipIdx.map fun entry => Record.pick (twin.scope none) entry.1 declared right
          (path.join (.index entry.2))) =
        items.zipIdx.map fun entry => Record.pick (context.scope none) entry.1 declared left
          (path.join (.index entry.2)) := by
      refine List.map_congr_left fun entry hm => ?_
      have hitem : items[entry.2]? = some entry.1 := List.mem_zipIdx_iff_getElem?.mp hm
      exact ih entry.1 (List.fst_mem_of_mem_zipIdx hm) hrelated declared _ fun hb =>
        hbares (.step (.pickItem hitem) (.pickItem hitem) hb)
    simp only [Record.pick, Record.pickItems_eq_map, hsame]
  | object fields ih =>
    have hsame := h.corresponds.map_eq hrelated (Record.runtime? fields declared)
      (f := fun entry => (entry.1, Record.pickField (Record.pickers (context.scope none) fields)
        (Record.runtime? fields declared) entry.2 (path.join (.key entry.1))))
      (g := fun entry => (entry.1, Record.pickField (Record.pickers (twin.scope none) fields)
        (Record.runtime? fields declared) entry.2 (path.join (.key entry.1))))
      fun key one two hone htwo halike => congrArg (Prod.mk key) <|
        h.pickField_eq halike (fun hb => hbares (.step (.pick hone) (.pick htwo) hb))
          fun field hm => ih field hm halike.selections none _
    simp only [Record.pick, Record.pickFields, Record.typeOf?_pickers]
    exact congrArg (fun picked : Entries Record.Picked =>
      (⟨.object (Entries.mapValues Record.Picked.value picked),
        picked.flatMap fun entry => entry.2.errors⟩ : Record.Picked)) hsame

end Alike

/-! ## Executions -/

theorem callRecord_congr {one other : Field} (hname : other.name = one.name) (path : Path)
    (resolved : ResolvedField ref) :
    callRecord path other resolved = callRecord path one resolved := by
  funext time
  simp only [callRecord, hname]

/-- Within the bound, the work on related selections is the same if it comes to no bared field. -/
structure Agrees (left right : Context ref) (related : List Selection → List Selection → Prop)
    (bound : Nat) : Prop where
  value {one other : CollectedField} (h : one.Alike related other) {type : TypeRef}
      {value : Resolved ref} {path : Path} :
    ¬ left.Bares right (path, .value type value one) (path, .value type value other) →
    right.completeValue bound type value other path = left.completeValue bound type value one path
  node {one other : CollectedField} (h : one.Alike related other) {type : TypeRef}
      {node : Node ref} {path : Path} :
    ¬ left.Bares right (path, .node type node one) (path, .node type node other) →
    right.completeNode bound type node other path = left.completeNode bound type node one path
  field {one other : CollectedField} (h : one.Alike related other) {object double : ObjectType ref}
      (hobject : object.Alike double) (path : Path) :
    ¬ left.Bares right (path, .field object one) (path, .field double other) →
    right.executeField bound double other path = left.executeField bound object one path
  fields {selections others : List Selection} (h : related selections others) (width : Nat)
      {object double : ObjectType ref} (hobject : object.Alike double) (path : Path) :
    ¬ left.BaresFields right path object double selections others →
    right.executeFields bound width double path others =
      left.executeFields bound width object path selections

namespace Agrees

theorem value_succ (hcontext : context.Alike twin related)
    (below : context.Agrees twin related bound) {one other : CollectedField}
    (h : one.Alike related other) {type : TypeRef} {value : Resolved ref} {path : Path}
    (hbares : ¬ context.Bares twin (path, .value type value one) (path, .value type value other)) :
    twin.completeValue (bound + 1) type value other path =
      context.completeValue (bound + 1) type value one path := by
  have hcomposite := hcontext.corresponds.composite_cases h
  cases value with
  | leaf value =>
    rcases hcomposite with ⟨hone, hother⟩ | hbared | ⟨hone, hother⟩
    · have hpick := hcontext.pick_eq value h.selections type.innerName? path fun hb =>
        hbares (.step (.leaf hone) (.leaf hother) hb)
      simp only [completeValue, hone, hother, ite_true, hpick]
    · have hhollow : value.hollow = completeLeaf context.types type value := by
        by_contra hne
        exact hbares (.here (.leaf hbared hne))
      have hnothing := hcontext.corresponds.collect_eq_nil h hbared.2
      simp only [completeValue, hbared.1, hbared.2, ite_true, Bool.false_eq_true, ite_false,
        Record.pick_hollow hnothing, hhollow, hcontext.types.completeLeaf]
    · simp only [completeValue, hone, hother, Bool.false_eq_true, ite_false,
        hcontext.types.completeLeaf]
  | object reference =>
    rcases hcomposite with ⟨hone, hother⟩ | hbared | ⟨hone, hother⟩
    · have hobject : (context.objects reference).Alike (twin.objects reference) := by
        rw [hcontext.objects]
        exact .refl _
      have hbelow : ¬ context.BaresFields twin path (context.objects reference)
          (twin.objects reference) one.selections other.selections := by
        rintro ⟨_, _, _, hm, hm', hb⟩
        exact hbares (.step (.object hone hm) (.object hother hm') hb)
      have hfields := below.fields h.selections context.window hobject path hbelow
      simp only [completeValue, hone, hother, ite_true, hcontext.window, hfields]
    · exact absurd (.here (.object hbared)) hbares
    · simp only [completeValue, hone, hother, Bool.false_eq_true, ite_false, h.name,
        Outcome.failure_congr h.location, hcontext.objects]
  | list items =>
    have hnodes : (items.zipIdx.map fun entry => twin.completeNode bound
        (type.itemType?.getD type) entry.1 other (path.join (.index entry.2))) =
        items.zipIdx.map fun entry => context.completeNode bound (type.itemType?.getD type) entry.1
          one (path.join (.index entry.2)) := by
      refine List.map_congr_left fun entry hm => below.node h fun hb => ?_
      have hitem : items[entry.2]? = some entry.1 := List.mem_zipIdx_iff_getElem?.mp hm
      exact hbares (.step (.item hitem) (.item hitem) hb)
    simp only [completeValue, hnodes, hcontext.window]

theorem node_succ (below : context.Agrees twin related bound) {one other : CollectedField}
    (h : one.Alike related other) {type : TypeRef} {node : Node ref} {path : Path}
    (hbares : ¬ context.Bares twin (path, .node type node one) (path, .node type node other)) :
    twin.completeNode (bound + 1) type node other path =
      context.completeNode (bound + 1) type node one path := by
  cases node with
  | ready label value => exact below.value h fun hb => hbares (.step .ready .ready hb)
  | effect label delay outcome =>
    cases outcome with
    | ok value =>
      have hvalue := below.value h fun hb => hbares (.step .effect .effect hb)
      simp only [completeNode, hvalue]
    | error cause => simp only [completeNode, Outcome.failure_congr h.location]
  | stream source => simp only [completeNode, h.name, Outcome.failure_congr h.location]

theorem field_succ (hcontext : context.Alike twin related)
    (below : context.Agrees twin related bound) {one other : CollectedField}
    (h : one.Alike related other) {object double : ObjectType ref} (hobject : object.Alike double)
    (path : Path)
    (hbares : ¬ context.Bares twin (path, .field object one) (path, .field double other)) :
    twin.executeField (bound + 1) double other path =
      context.executeField (bound + 1) object one path := by
  simp only [executeField, callRecord_congr h.name, h.name, hobject.name,
    hcontext.resolve h.name h.arguments hobject, Outcome.failure_congr h.location]
  split
  · rfl
  · next hname =>
    cases hresolve : (context.resolve bound object one.field).run with
    | none => rfl
    | some result =>
      cases result with
      | error error => rfl
      | ok called =>
        have hcalled := Context.resolves_iff.mpr ⟨hname, bound, hresolve⟩
        have hnode := below.node h fun hb => hbares (.step (.resolve hcalled)
          (.resolve ((hcontext.resolves_iff h.name h.arguments hobject).mpr hcalled)) hb)
        simp only [hnode]

theorem fields_succ (hcontext : context.Alike twin related)
    (below : context.Agrees twin related bound) {selections others : List Selection}
    (h : related selections others) (width : Nat) {object double : ObjectType ref}
    (hobject : object.Alike double) (path : Path)
    (hbares : ¬ context.BaresFields twin path object double selections others) :
    twin.executeFields (bound + 1) width double path others =
      context.executeFields (bound + 1) width object path selections := by
  simp only [executeFields, hobject.name]
  refine congrArg (Window.run width)
    (hcontext.corresponds.map_eq h (some object.name) fun key one other hone hother halike => ?_)
  have hfield := below.field halike hobject (path.join (.key key)) fun hb =>
    hbares ⟨key, one, other, hone, hobject.name ▸ hother, hb⟩
  exact congrArg (Job.map (Prod.mk key)) hfield

end Agrees

/-- Related selections are executed in the same way. -/
theorem Alike.agrees (h : context.Alike twin related) (bound : Nat) :
    context.Agrees twin related bound := by
  induction bound with
  | zero =>
    exact ⟨@fun _ _ _ _ _ _ _ => rfl, @fun _ _ _ _ _ _ _ => rfl, @fun _ _ _ _ _ _ _ _ => rfl,
      @fun _ _ _ _ _ _ _ _ _ => rfl⟩
  | succ bound below =>
    exact ⟨below.value_succ h, below.node_succ, below.field_succ h, below.fields_succ h⟩

end Context

/-! ## Selections that leave no field bare -/

/-- The same task for related fields or related selections. -/
inductive Task.Alike (related : List Selection → List Selection → Prop) : Task ref → Task ref → Prop
  | field {object double : ObjectType ref} {one other : CollectedField} :
    object.Alike double → one.Alike related other →
    Alike related (.field object one) (.field double other)
  | node {type : TypeRef} {node : Node ref} {one other : CollectedField} :
    one.Alike related other → Alike related (.node type node one) (.node type node other)
  | value {type : TypeRef} {value : Resolved ref} {one other : CollectedField} :
    one.Alike related other → Alike related (.value type value one) (.value type value other)
  | record {value : Value} {declared : Option String} {selections others : List Selection} :
    related selections others →
    Alike related (.record value declared selections) (.record value declared others)
  | entry {fields : Fields} {runtime : Option String} {one other : CollectedField} :
    one.Alike related other → Alike related (.entry fields runtime one) (.entry fields runtime other)

/-- A field selects something on both sides if only no selections are related to none. -/
theorem CollectedField.Alike.not_bared {related : List Selection → List Selection → Prop}
    {one other : CollectedField} (h : one.Alike related other)
    (hcovers : ∀ left, related left [] → left = []) : ¬ one.Bared other := by
  rintro ⟨hone, hother⟩
  rw [CollectedField.isComposite, Bool.or_eq_false_iff, Bool.not_eq_false', List.isEmpty_iff,
    h.composite] at hother
  have hselections := h.selections
  rw [hother.2] at hselections
  rw [CollectedField.isComposite, hother.1, hcovers _ hselections] at hone
  cases hone

namespace Context.Alike

variable {context twin : Context ref} {related : List Selection → List Selection → Prop}
  (h : context.Alike twin related)

include h

/-- The fields that both collect under a key are related. -/
theorem alike_of_mem_collect {left right : List Selection} (hrelated : related left right)
    {runtime : Option String} {key : String} {one other : CollectedField}
    (hone : (key, one) ∈ collect (context.scope runtime) left)
    (hother : (key, other) ∈ collect (twin.scope runtime) right) : one.Alike related other :=
  Entries.rel_of_mem (h.corresponds.collects runtime hrelated) (nodup_keys_collect _ _) hone hother

/-- Tasks that are alike are made of tasks that are alike. -/
theorem comprises {path place place' : Path} {task task' inner inner' : Task ref}
    (halike : task.Alike related task') (hinner : context.Comprises (path, task) (place, inner))
    (hinner' : twin.Comprises (path, task') (place', inner')) (hplace : place' = place) :
    inner.Alike related inner' := by
  cases halike with
  | field hobject hfield =>
    cases hinner with
    | resolve hcalled =>
      cases hinner' with
      | resolve hcalled' =>
        obtain rfl := hcalled.unique
          ((h.resolves_iff hfield.name hfield.arguments hobject).mp hcalled')
        exact .node hfield
  | node hfield =>
    cases hinner with
    | ready => cases hinner'; exact .value hfield
    | effect => cases hinner'; exact .value hfield
  | value hfield =>
    cases hinner with
    | object _ hm =>
      cases hinner' with
      | object _ hm' =>
        obtain ⟨⟩ := Path.join_injective _ hplace
        rw [h.objects] at hm' ⊢
        exact .field (.refl _) (h.alike_of_mem_collect hfield.selections hm hm')
    | item hget =>
      cases hinner' with
      | item hget' =>
        obtain ⟨⟩ := Path.join_injective _ hplace
        obtain rfl := Option.some.inj (hget.symm.trans hget')
        exact .node hfield
    | leaf => cases hinner'; exact .record hfield.selections
  | record hselections =>
    cases hinner with
    | pick hm =>
      cases hinner' with
      | pick hm' =>
        obtain ⟨⟩ := Path.join_injective _ hplace
        exact .entry (h.alike_of_mem_collect hselections hm hm')
    | pickItem hget =>
      cases hinner' with
      | pickItem hget' =>
        obtain ⟨⟩ := Path.join_injective _ hplace
        obtain rfl := Option.some.inj (hget.symm.trans hget')
        exact .record hselections
  | entry hfield =>
    cases hinner with
    | entry _ hfind =>
      cases hinner' with
      | entry _ hfind' =>
        rw [hfield.name, hfind] at hfind'
        obtain rfl := Option.some.inj hfind'
        exact .record hfield.selections

/-- Tasks that are alike come to no bared field if only no selections are related to none. -/
theorem not_bares (hcovers : ∀ left, related left [] → left = []) {path : Path}
    {task task' : Task ref} (halike : task.Alike related task') :
    ¬ context.Bares twin (path, task) (path, task') := by
  intro hbares
  generalize hone : (path, task) = one at hbares
  generalize hother : (path, task') = other at hbares
  induction hbares generalizing path task task' with
  | here hbared =>
    cases hone
    cases hother
    cases halike with
    | field | node | record => cases hbared
    | value hfield =>
      cases hbared with
      | object hbared | leaf hbared => exact hfield.not_bared hcovers hbared
    | entry hfield =>
      cases hbared with
      | entry hbared => exact hfield.not_bared hcovers hbared
  | step hinner hinner' _ ih =>
    subst hone hother
    exact ih (h.comprises halike hinner hinner' rfl) rfl rfl

theorem not_baresFields (hcovers : ∀ left, related left [] → left = []) {path : Path}
    {object double : ObjectType ref} (hobject : object.Alike double)
    {selections others : List Selection} (hrelated : related selections others) :
    ¬ context.BaresFields twin path object double selections others := by
  rintro ⟨key, one, other, hone, hother, hbares⟩
  rw [hobject.name] at hother
  exact h.not_bares hcovers (.field hobject (h.alike_of_mem_collect hrelated hone hother)) hbares

end Context.Alike

end GraphQL

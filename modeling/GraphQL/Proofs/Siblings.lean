import GraphQL.Proofs.ResolverCalls
import GraphQL.Proofs.Spacing

/-!
# Siblings in an execution

An execution does the work for all that it leads to (`Context.Leads`), each thing in a time of its
own and with a record of its own: `Context.Takes` says from when to when the work for a thing takes
and what it notes. The fields of an object and the items of a list are siblings
(`Context.siblings`), which share a window.

What an execution leads to lies under the paths that it came by, and nothing lies under two
siblings. So whatever is noted under a path is noted in the work there, however deep that is.

Results:
* `Context.Takes.exists_spans`: siblings are spaced, and each has a part of the record to itself.
* `Context.Leads.encloses`: within the work for a thing lies the work for what it leads to.
* `Context.spans_of_reaches`: wherever an execution comes by, siblings are spaced.
-/

namespace GraphQL

open Relation

variable {ref : Type}

/-- What stands at the root is an object. -/
def Place.Rooted (place : Path × Place ref) : Prop :=
  place.1 = .root → ∃ object selections, place.2 = .object object selections

theorem Place.Rooted.ne_root {path : Path} {place : Place ref} (h : Rooted (path, place))
    (hne : ∀ object selections, place ≠ .object object selections) : path ≠ .root := by
  intro hroot
  obtain ⟨object, selections, hplace⟩ := h hroot
  exact hne object selections hplace

/-- What lies under a path is not among what is noted at the path itself. -/
theorem mem_of_under_join {path : Path} {noted inner : List Occurrence}
    (hnoted : ∀ o ∈ noted, ∀ below, o.path? = some below → below = path) {o : Occurrence}
    (ho : o ∈ noted ++ inner) {segment : Path.Segment} (h : o.Under (path.join segment)) :
    o ∈ inner := by
  rcases List.mem_append.mp ho with ho | ho
  · obtain ⟨below, hbelow, hunder⟩ := h
    exact absurd (hnoted o ho below hbelow) hunder.ne_of_join
  · exact ho

namespace Context

/-- What shares a window at a place: the fields of an object, or the items of a list. -/
def siblings (context : Context ref) : Path × Place ref → List (Path × Place ref)
  | (path, .object object selections) =>
    (collect (context.scope (some object.name)) selections).map fun entry =>
      (path.join (.key entry.1), .field object entry.2)
  | (path, .value (.list items) collected) =>
    items.zipIdx.map fun entry => (path.join (.index entry.2), .node entry.1 collected)
  | _ => []

/-- The work for what stands at a place, started at `start`, is done at `finish` and notes the
    record. The windows of objects are as wide as `width` says of their path. -/
def Takes (context : Context ref) (width : Path → Nat) :
    Path × Place ref → Nat → Nat → List Occurrence → Prop
  | (path, .object object selections), start, finish, record =>
    ∃ bound outcomes, context.executeFields bound (width path) object path selections start =
      some ⟨outcomes, finish, record⟩
  | (path, .field object collected), start, finish, record =>
    ∃ bound outcome, context.executeField bound object collected path start =
      some ⟨outcome, finish, record⟩
  | (path, .node node collected), start, finish, record =>
    ∃ bound type outcome, context.completeNode bound type node collected path start =
      some ⟨outcome, finish, record⟩
  | (path, .value value collected), start, finish, record =>
    ∃ bound type outcome, context.completeValue bound type value collected path start =
      some ⟨outcome, finish, record⟩

/-- Windows have a width everywhere. It is that of the context, but may be another at the root. -/
structure Windows (context : Context ref) (width : Path → Nat) : Prop where
  pos (path : Path) : 0 < width path
  below {path : Path} : path ≠ .root → width path = context.window

variable {context : Context ref} {width : Path → Nat} {place next : Path × Place ref}
  {start finish : Nat} {record : List Occurrence}

/-! ## Siblings -/

/-- Siblings stand at different steps from one path. -/
theorem exists_steps (context : Context ref) (place : Path × Place ref) :
    ∃ steps : List Path.Segment, steps.Nodup ∧
      (context.siblings place).map Prod.fst = steps.map place.1.join := by
  obtain ⟨path, place⟩ := place
  cases place with
  | object object selections =>
    have hnodup := Path.nodup_key_segments
      (nodup_keys_collect (context.scope (some object.name)) selections)
    exact ⟨_, hnodup, by simp [siblings]⟩
  | value value collected =>
    cases value with
    | list items => exact ⟨_, Path.nodup_index_segments items, by simp [siblings]⟩
    | leaf value => exact ⟨[], .nil, rfl⟩
    | object reference => exact ⟨[], .nil, rfl⟩
  | field object collected => exact ⟨[], .nil, rfl⟩
  | node node collected => exact ⟨[], .nil, rfl⟩

theorem exists_step_of_mem_siblings {sibling : Path × Place ref}
    (h : sibling ∈ context.siblings place) : ∃ step, sibling.1 = place.1.join step := by
  obtain ⟨steps, -, hsteps⟩ := context.exists_steps place
  have hm : sibling.1 ∈ steps.map place.1.join := hsteps ▸ List.mem_map_of_mem h
  obtain ⟨step, -, hstep⟩ := List.mem_map.mp hm
  exact ⟨step, hstep.symm⟩

/-- Nothing lies under two siblings. -/
theorem pairwise_siblings (context : Context ref) (place : Path × Place ref) :
    (context.siblings place).Pairwise fun one other =>
      ∀ below, one.1.Under below → ¬ other.1.Under below := by
  obtain ⟨steps, hnodup, hsteps⟩ := context.exists_steps place
  have hpaths : ((context.siblings place).map Prod.fst).Pairwise fun one other =>
      ∀ below, one.Under below → ¬ other.Under below := by
    rw [hsteps, List.pairwise_map]
    refine hnodup.imp fun hne below hone hother => ?_
    exact hne (hone.join_inj hother)
  exact List.pairwise_map.mp hpaths

/-- What is noted in the work at a place is noted at its path or under it. -/
theorem Takes.under (h : context.Takes width place start finish record) :
    ∀ o ∈ record, ∀ below, o.path? = some below → place.1.Under below := by
  obtain ⟨path, place⟩ := place
  cases place with
  | object object selections =>
    obtain ⟨bound, outcomes, hrun⟩ := h
    exact (((confinedRules context).holds bound).fields hrun).under
  | field object collected =>
    obtain ⟨bound, outcome, hrun⟩ := h
    exact (((confinedRules context).holds bound).field hrun).under
  | node node collected =>
    obtain ⟨bound, type, outcome, hrun⟩ := h
    exact (((confinedRules context).holds bound).node hrun).under
  | value value collected =>
    obtain ⟨bound, type, outcome, hrun⟩ := h
    exact (((confinedRules context).holds bound).value hrun).under

/-- The span of a sibling is its part in a record: it takes the time for its work and the whole of
    what is noted under its path. -/
structure Part (context : Context ref) (width : Path → Nat) (record : List Occurrence)
    (sibling : Path × Place ref) (span : Window.Span) : Prop where
  takes : context.Takes width sibling span.start span.finish span.record
  within : span.record <:+: record
  whole : ∀ o ∈ record, o.Under sibling.1 → o ∈ span.record

/-- If their records stand one behind the other, siblings have parts in all that is noted. -/
theorem parts_flatMap {spans : List Window.Span}
    (h : List.Forall₂ (fun sibling span =>
      context.Takes width sibling span.start span.finish span.record)
      (context.siblings place) spans) :
    List.Forall₂ (context.Part width (spans.flatMap Window.Span.record)) (context.siblings place)
      spans := by
  obtain ⟨hlength, htakes⟩ := List.forall₂_iff_get.mp h
  refine List.forall₂_iff_get.mpr ⟨hlength, fun i hi hi' => ⟨htakes i hi hi', ?_, ?_⟩⟩
  · exact List.infix_of_mem_flatten (List.mem_map_of_mem (List.get_mem spans ⟨i, hi'⟩))
  · rintro o ho ⟨below, hbelow, hunder⟩
    obtain ⟨other, hother, ho⟩ := List.mem_flatMap.mp ho
    obtain ⟨⟨j, hj'⟩, rfl⟩ := List.mem_iff_get.mp hother
    have hj : j < (context.siblings place).length := hlength ▸ hj'
    have hunder' := (htakes j hj hj').under o ho below hbelow
    -- It lies under both siblings, so they are the same.
    have hapart := List.pairwise_iff_getElem.mp (context.pairwise_siblings place)
    rcases Nat.lt_trichotomy i j with hlt | rfl | hlt
    · exact absurd hunder' (hapart i j hi hj hlt below hunder)
    · exact ho
    · exact absurd hunder (hapart j i hj hi hlt below hunder')

/-- Siblings are spaced, and each has a part of the record to itself. -/
theorem Takes.exists_spans (h : context.Takes width place start finish record)
    (hwindows : context.Windows width) (hrooted : Place.Rooted place) :
    ∃ spans, Window.Spaced (width place.1) start spans ∧
      List.Forall₂ (context.Part width record) (context.siblings place) spans := by
  obtain ⟨path, place⟩ := place
  cases place with
  | object object selections =>
    obtain ⟨bound, outcomes, hrun⟩ := h
    cases bound with
    | zero => cases hrun
    | succ bound =>
      have hruns := Window.run_eq_some_iff.mp hrun
      obtain ⟨spans, hspaced, hwork, rfl⟩ := hruns.exists_spaced (hwindows.pos path)
      refine ⟨spans, hspaced, parts_flatMap (List.forall₂_map_left_iff.mpr (hwork.imp ?_))⟩
      rintro entry span ⟨outcome, houtcome⟩
      obtain ⟨⟨value, finish, record⟩, hfield, heq⟩ := Job.map_eq_some_iff.mp houtcome
      cases heq
      exact ⟨bound, value, hfield⟩
  | value value collected =>
    cases value with
    | list items =>
      obtain ⟨bound, type, outcome, hrun⟩ := h
      cases bound with
      | zero => cases hrun
      | succ bound =>
        obtain ⟨⟨outcomes, finish, record⟩, hfirst, heq⟩ := Job.map_eq_some_iff.mp hrun
        cases heq
        have hruns := Window.run_eq_some_iff.mp hfirst
        have hwindow : width path = context.window := hwindows.below (hrooted.ne_root nofun)
        obtain ⟨spans, hspaced, hwork, hrecord⟩ :=
          hruns.exists_spaced (hwindow ▸ hwindows.pos path)
        obtain rfl : record = spans.flatMap Window.Span.record := hrecord
        refine ⟨spans, hwindow ▸ hspaced,
          parts_flatMap (List.forall₂_map_left_iff.mpr (hwork.imp ?_))⟩
        rintro entry span ⟨outcome, hnode⟩
        exact ⟨bound, _, outcome, hnode⟩
    | leaf value => exact ⟨[], .nil _ _, .nil⟩
    | object reference => exact ⟨[], .nil _ _, .nil⟩
  | field object collected => exact ⟨[], .nil _ _, .nil⟩
  | node node collected => exact ⟨[], .nil _ _, .nil⟩

/-! ## Within an execution -/

/-- The record encloses the work for what stands at a place, with all that is noted further down. -/
def Encloses (context : Context ref) (width : Path → Nat) (record : List Occurrence)
    (place : Path × Place ref) : Prop :=
  ∃ start finish inner, context.Takes width place start finish inner ∧ inner <:+: record ∧
    ∀ o ∈ record, ∀ segment, o.Under (place.1.join segment) → o ∈ inner

theorem Part.encloses {sibling : Path × Place ref} {span : Window.Span}
    (h : context.Part width record sibling span) : context.Encloses width record sibling :=
  ⟨span.start, span.finish, span.record, h.takes, h.within,
    fun o ho _ hunder => h.whole o ho hunder.of_join⟩

theorem Takes.encloses_sibling (h : context.Takes width place start finish record)
    (hwindows : context.Windows width) (hrooted : Place.Rooted place) {sibling : Path × Place ref}
    (hm : sibling ∈ context.siblings place) : context.Encloses width record sibling := by
  obtain ⟨spans, -, hparts⟩ := h.exists_spans hwindows hrooted
  obtain ⟨hlength, hpart⟩ := List.forall₂_iff_get.mp hparts
  obtain ⟨⟨i, hi⟩, rfl⟩ := List.mem_iff_get.mp hm
  exact (hpart i hi (hlength ▸ hi)).encloses

/-- What has the same record encloses the same. -/
theorem Takes.encloses (h : context.Takes width place start finish record) :
    context.Encloses width record place :=
  ⟨start, finish, record, h, List.infix_refl record, fun _ ho _ _ => ho⟩

/-- So does what has noted something at the path before. -/
theorem Takes.encloses_of_note (h : context.Takes width place start finish record)
    {noted : List Occurrence}
    (hnoted : ∀ o ∈ noted, ∀ below, o.path? = some below → below = place.1) :
    context.Encloses width (noted ++ record) place :=
  ⟨start, finish, record, h, (List.suffix_append noted record).isInfix,
    fun _ ho _ hunder => mem_of_under_join hnoted ho hunder⟩

/-- Nothing but an object at the root leads to anything at the root. -/
theorem Leads.ne_root (h : context.Leads place next) (hrooted : Place.Rooted place) :
    next.1 ≠ .root := by
  cases h with
  | select | item => exact Path.join_ne_root _ _
  | resolve | ready | effect | object => exact hrooted.ne_root nofun

/-- Within the work for a thing lies the work for what it leads to. -/
theorem Leads.encloses (hleads : context.Leads place next) (hwindows : context.Windows width)
    (hrooted : Place.Rooted place) (h : context.Takes width place start finish record) :
    context.Encloses width record next := by
  have hne : next.1 ≠ .root := hleads.ne_root hrooted
  cases hleads with
  | select hm => exact h.encloses_sibling hwindows hrooted (List.mem_map_of_mem hm)
  | @item path items node i collected hget =>
    have hentry : (node, i) ∈ items.zipIdx := List.mem_zipIdx_iff_getElem?.mpr hget
    exact h.encloses_sibling hwindows hrooted (List.mem_map_of_mem hentry)
  | resolve hcalled =>
    obtain ⟨bound, outcome, hrun⟩ := h
    obtain ⟨below, first, hnode, heq⟩ := executeField_of_resolves hcalled hrun
    cases heq
    have htakes : context.Takes width (_, .node _ _) start first.finish first.record :=
      ⟨below, _, first.value, hnode⟩
    exact htakes.encloses_of_note fun o ho => (callRecord_confined ho).2.2
  | ready =>
    obtain ⟨bound, type, outcome, hrun⟩ := h
    cases bound with
    | zero => cases hrun
    | succ bound =>
      have htakes : context.Takes width (_, .value _ _) start finish record :=
        ⟨bound, type, outcome, hrun⟩
      exact htakes.encloses
  | @effect path label delay value collected =>
    obtain ⟨bound, type, outcome, hrun⟩ := h
    cases bound with
    | zero => cases hrun
    | succ bound =>
      simp only [completeNode, Job.noting_eq_some_iff, Job.after] at hrun
      obtain ⟨first, hvalue, heq⟩ := hrun
      cases heq
      have htakes : context.Takes width (path, .value value collected) (start + delay) first.finish
          first.record := ⟨bound, type, first.value, hvalue⟩
      refine htakes.encloses_of_note fun o ho below hbelow => ?_
      rw [List.mem_singleton.mp ho] at hbelow
      exact (Option.some.inj hbelow).symm
  | @object path reference collected hcomposite =>
    obtain ⟨bound, type, outcome, hrun⟩ := h
    cases bound with
    | zero => cases hrun
    | succ bound =>
      simp only [completeValue, hcomposite, ite_true] at hrun
      obtain ⟨first, hfields, heq⟩ := Job.map_eq_some_iff.mp hrun
      cases heq
      have hwindow : width path = context.window := hwindows.below hne
      have htakes : context.Takes width (path, .object (context.objects reference)
          collected.selections) start first.finish first.record :=
        ⟨bound, first.value, hwindow ▸ hfields⟩
      exact htakes.encloses

/-- Wherever an execution comes by, its record encloses the work there. -/
theorem encloses_of_reaches (hwindows : context.Windows width) (hrooted : Place.Rooted place)
    (h : context.Takes width place start finish record)
    (hreach : ReflTransGen context.Leads place next) :
    context.Encloses width record next ∧ Place.Rooted next := by
  induction hreach with
  | refl => exact ⟨h.encloses, hrooted⟩
  | tail _ hleads ih =>
    obtain ⟨⟨start, finish, inner, htakes, hinner, hframe⟩, hrooted⟩ := ih
    obtain ⟨start', finish', innermost, htakes', hinnermost, hframe'⟩ :=
      hleads.encloses hwindows hrooted htakes
    refine ⟨⟨start', finish', innermost, htakes', hinnermost.trans hinner, ?_⟩,
      fun hroot => absurd hroot (hleads.ne_root hrooted)⟩
    intro o ho segment hunder
    -- What lies below what is reached next lies below what has been reached before.
    obtain ⟨below, hbelow, hpath⟩ := hunder
    obtain ⟨step, hstep⟩ := hleads.under.exists_join hpath
    exact hframe' o (hframe o ho step ⟨below, hbelow, hstep⟩) segment ⟨below, hbelow, hpath⟩

/-- Wherever an execution comes by, siblings are spaced, and each has a part of the record of the
    execution to itself. -/
theorem spans_of_reaches (hwindows : context.Windows width) (hrooted : Place.Rooted place)
    (h : context.Takes width place start finish record)
    (hreach : ReflTransGen context.Leads place next) :
    ∃ opened spans, Window.Spaced (width next.1) opened spans ∧
      List.Forall₂ (context.Part width record) (context.siblings next) spans := by
  obtain ⟨⟨start, finish, inner, htakes, hinner, hframe⟩, hrooted⟩ :=
    encloses_of_reaches hwindows hrooted h hreach
  obtain ⟨spans, hspaced, hparts⟩ := htakes.exists_spans hwindows hrooted
  refine ⟨start, spans, hspaced, ?_⟩
  obtain ⟨hlength, hpart⟩ := List.forall₂_iff_get.mp hparts
  refine List.forall₂_iff_get.mpr ⟨hlength, fun i hi hi' => ?_⟩
  have hinnerPart := hpart i hi hi'
  obtain ⟨step, hstep⟩ :=
    exists_step_of_mem_siblings (List.get_mem (context.siblings next) ⟨i, hi⟩)
  refine ⟨hinnerPart.takes, hinnerPart.within.trans hinner, fun o ho hunder => ?_⟩
  exact hinnerPart.whole o (hframe o ho step (hstep ▸ hunder)) hunder

end Context

end GraphQL

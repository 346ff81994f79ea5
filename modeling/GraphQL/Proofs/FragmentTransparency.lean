import GraphQL.Proofs.Inlining
import GraphQL.Proofs.Replies
import GraphQL.Proofs.Service

/-!
# Fragments are transparent

Executing a document is the same as executing it with all fragments written out. Where a fragment is
spread for a second time, a walk passes it over while the document that is written out repeats its
fields. The walk keeps an invariant (`Walked`): whatever it passes over has been added before, so
that the fields of the written out document are echoes of those that it adds. Groups do not see
echoes, except that the selections below a key are echoed in turn; so what is related are selections
and echoes of them written out, on every level of the response alike.

Results:
* `walks_walkTo`: the invariant holds of a walk that may go as deep as spreads nest.
* `corresponds_inlined`: selections and echoes of them written out collect the same.
* `fragments_transparent`: no request can tell them apart.
-/

namespace GraphQL

namespace Collection

variable {scope : Scope} {enter : List Selection → State → State} {opened : List String}
  {state : State} {fields seen : List Field}

/-- How far a walk has come that has added `fields`, where a walk through the written out selections
    has `seen` others. The fragments that are `opened` are being walked through. -/
structure Walked (scope : Scope) (opened : List String) (state : State)
    (fields seen : List Field) : Prop where
  grouped : state.fields = group fields
  echoes : Echoes (fields.map scope.fragments.inlinedField) seen
  /-- What a fragment reaches that has been walked through has been seen. -/
  covered : ∀ name ∈ state.spread, name ∉ opened → ∀ fragment,
    Entries.find? scope.fragments name = some fragment →
    applies scope.types scope.runtime fragment.condition = true →
    ∀ field ∈ reachedAll scope (fragment.selections.map scope.fragments.inlined), field ∈ seen

/-- Every opened fragment leads to these. -/
def Below (scope : Scope) (opened names : List String) : Prop :=
  ∀ above ∈ opened, ∀ name ∈ names, Relation.TransGen scope.fragments.Refers above name

/-- Walking through the selections with `enter` adds what they reach when they are written out. -/
def Walks (scope : Scope) (enter : List Selection → State → State)
    (selections : List Selection) : Prop :=
  ∀ opened state fields seen, Below scope opened (Selection.allSpreads selections) →
    Walked scope opened state fields seen → ∃ added, Walked scope opened (enter selections state)
      added (seen ++ reachedAll scope (selections.map scope.fragments.inlined))

namespace Walked

/-- A field is added. -/
theorem add (h : Walked scope opened state fields seen) (field : Field) :
    Walked scope opened { state with fields := addField state.fields field } (fields ++ [field])
      (seen ++ [scope.fragments.inlinedField field]) where
  grouped := by rw [group_concat, h.grouped]
  echoes := by
    rw [List.map_append, List.map_singleton]
    exact .next _ h.echoes
  covered name hm hclosed fragment hfind happlies field hf :=
    List.mem_append_left _ (h.covered name hm hclosed fragment hfind happlies field hf)

/-- A fragment is entered. -/
theorem into (h : Walked scope opened state fields seen) (name : String) :
    Walked scope (name :: opened) { state with spread := name :: state.spread } fields seen where
  grouped := h.grouped
  echoes := h.echoes
  covered other hm hclosed := by
    rw [List.mem_cons, not_or] at hclosed
    exact h.covered other ((List.mem_cons.mp hm).resolve_left hclosed.1) hclosed.2

/-- A fragment is left, after all that it reaches has been seen. -/
theorem leave {name : String} (h : Walked scope (name :: opened) state fields seen)
    (hcovered : ∀ fragment, Entries.find? scope.fragments name = some fragment →
      applies scope.types scope.runtime fragment.condition = true →
      ∀ field ∈ reachedAll scope (fragment.selections.map scope.fragments.inlined), field ∈ seen) :
    Walked scope opened state fields seen where
  grouped := h.grouped
  echoes := h.echoes
  covered other hm hclosed := by
    by_cases hne : other = name
    · rw [hne]
      exact hcovered
    · exact h.covered other hm (by rw [List.mem_cons, not_or]; exact ⟨hne, hclosed⟩)

/-- What has been seen is seen again. -/
theorem again (h : Walked scope opened state fields seen) {more : List Field}
    (hknown : ∀ field ∈ more, field ∈ seen) : Walked scope opened state fields (seen ++ more) where
  grouped := h.grouped
  echoes := h.echoes.append_known hknown
  covered name hm hclosed fragment hfind happlies field hf :=
    List.mem_append_left _ (h.covered name hm hclosed fragment hfind happlies field hf)

end Walked

/-- A visit to a spread. -/
theorem visit_spread_walked (hacyclic : scope.fragments.Acyclic) (name : String) (guard : Guard)
    (henter : ∀ fragment, Entries.find? scope.fragments name = some fragment →
      Walks scope enter fragment.selections)
    (hbelow : Below scope opened [name]) (h : Walked scope opened state fields seen) :
    ∃ added, Walked scope opened (visit scope enter (.spread name guard) state) added
      (seen ++ reached scope (scope.fragments.inlined (.spread name guard))) := by
  rw [visit, hacyclic.inlined_spread]
  have hclosed : name ∉ opened := fun hm =>
    hacyclic name (hbelow name hm name (List.mem_singleton_self name))
  cases hfind : Entries.find? scope.fragments name with
  | none =>
    rw [Fragments.expand_of_none hfind, reached, List.append_nil]
    split
    · exact ⟨fields, h⟩
    · exact ⟨fields, (h.into name).leave fun fragment hsome => by simp [hfind] at hsome⟩
  | some fragment =>
    have honly : ∀ other, some fragment = some other → other = fragment :=
      fun other he => (Option.some.inj he).symm
    rw [Fragments.expand_of_some hfind, reached, Option.all_some]
    by_cases hskips : guard.skipsWith scope.bindings = true
    · simp only [hskips, Bool.true_or, ite_true, List.append_nil]
      exact ⟨fields, h⟩
    · by_cases happlies : applies scope.types scope.runtime fragment.condition = true
      · simp only [hskips, happlies, Bool.false_or, Bool.not_true, Bool.false_eq_true, ite_false,
          ite_true]
        by_cases hknown : state.spread.contains name = true
        · simp only [hknown, ite_true]
          exact ⟨fields, h.again
            (h.covered name (List.contains_iff_mem.mp hknown) hclosed fragment hfind happlies)⟩
        · simp only [hknown, Bool.false_eq_true, ite_false]
          have hopened : Below scope (name :: opened) (Selection.allSpreads fragment.selections) := by
            intro above ha next hn
            have hstep : scope.fragments.Refers name next := ⟨fragment, hfind, hn⟩
            rcases List.mem_cons.mp ha with rfl | ha
            · exact .single hstep
            · exact (hbelow above ha name (List.mem_singleton_self name)).tail hstep
          obtain ⟨added, hwalked⟩ := henter fragment hfind _ _ fields seen hopened (h.into name)
          refine ⟨added, hwalked.leave fun other hother _ field hf => ?_⟩
          obtain rfl := honly other (hfind ▸ hother)
          exact List.mem_append_right _ hf
      · simp only [hskips, happlies, Bool.false_or, Bool.not_false, Bool.false_eq_true, ite_false,
          ite_true, List.append_nil]
        split
        · exact ⟨fields, h⟩
        · refine ⟨fields, (h.into name).leave fun other hother hother' => ?_⟩
          obtain rfl := honly other (hfind ▸ hother)
          exact absurd hother' happlies

mutual

/-- Visiting a selection adds what it reaches when it is written out. -/
theorem visit_walked (hacyclic : scope.fragments.Acyclic) :
    ∀ (selection : Selection) (state : State) (fields seen : List Field),
      (∀ name ∈ selection.spreads, ∀ fragment, Entries.find? scope.fragments name = some fragment →
        Walks scope enter fragment.selections) →
      Below scope opened selection.spreads → Walked scope opened state fields seen →
      ∃ added, Walked scope opened (visit scope enter selection state) added
        (seen ++ reached scope (scope.fragments.inlined selection))
  | .field field, state, fields, seen, _, _, h => by
    rw [visit, hacyclic.inlined_field, reached]
    show ∃ added, Walked scope opened _ added
      (seen ++ if field.guard.skipsWith scope.bindings then [] else _)
    split
    · rw [List.append_nil]
      exact ⟨fields, h⟩
    · exact ⟨_, h.add field⟩
  | .inlineFragment condition guard below, state, fields, seen, henter, hbelow, h => by
    rw [visit, hacyclic.inlined_inlineFragment, reached]
    split
    · rw [List.append_nil]
      exact ⟨fields, h⟩
    · exact walk_walked hacyclic below state fields seen henter hbelow h
  | .spread name guard, _, _, _, henter, hbelow, h =>
    visit_spread_walked hacyclic name guard (henter name (List.mem_singleton_self name)) hbelow h

/-- The same of a walk. -/
theorem walk_walked (hacyclic : scope.fragments.Acyclic) :
    ∀ (selections : List Selection) (state : State) (fields seen : List Field),
      (∀ name ∈ Selection.allSpreads selections, ∀ fragment,
        Entries.find? scope.fragments name = some fragment →
        Walks scope enter fragment.selections) →
      Below scope opened (Selection.allSpreads selections) →
      Walked scope opened state fields seen →
      ∃ added, Walked scope opened (walk scope enter selections state) added
        (seen ++ reachedAll scope (selections.map scope.fragments.inlined))
  | [], _, fields, _, _, _, h => ⟨fields, h.again (by simp [reachedAll])⟩
  | selection :: rest, state, fields, seen, henter, hbelow, h => by
    obtain ⟨added, hfirst⟩ := visit_walked hacyclic selection state fields seen
      (fun name hm => henter name (List.mem_append_left _ hm))
      (fun above ha name hm => hbelow above ha name (List.mem_append_left _ hm)) h
    obtain ⟨added, hrest⟩ := walk_walked hacyclic rest _ _ _
      (fun name hm => henter name (List.mem_append_right _ hm))
      (fun above ha name hm => hbelow above ha name (List.mem_append_right _ hm)) hfirst
    refine ⟨added, ?_⟩
    rw [List.map_cons, reachedAll, ← List.append_assoc]
    exact hrest

end

/-- A walk that may go as deep as spreads nest adds what the selections reach when they are written
    out. -/
theorem walks_walkTo (hacyclic : scope.fragments.Acyclic) {depth : Nat}
    {selections : List Selection}
    (hfits : scope.fragments.Fits depth (Selection.allSpreads selections)) :
    Walks scope (walkTo scope depth) selections := by
  intro opened state fields seen hbelow h
  induction depth generalizing selections opened state fields seen with
  | zero =>
    refine walk_walked hacyclic selections state fields seen ?_ hbelow h
    intro name hm fragment hfind
    simp [hfits name hm] at hfind
  | succ depth ih =>
    refine walk_walked hacyclic selections state fields seen ?_ hbelow h
    exact fun name hm fragment hfind opened state fields seen hbelow h =>
      ih (hfits name hm fragment hfind) opened state fields seen hbelow h

/-- What is collected are the groups of fields of which those that are reached in the written out
    selections are echoes. -/
theorem exists_collect_eq_group (hacyclic : scope.fragments.Acyclic)
    (selections : List Selection) :
    ∃ fields, collect scope selections = group fields ∧
      Echoes (fields.map scope.fragments.inlinedField)
        (reachedAll scope (selections.map scope.fragments.inlined)) := by
  have hstart : Walked scope [] {} [] [] := ⟨rfl, .nil, by simp⟩
  obtain ⟨fields, h⟩ := walks_walkTo hacyclic (hacyclic.fits (Selection.allSpreads selections))
    [] {} [] [] (by simp [Below]) hstart
  exact ⟨fields, h.grouped, h.echoes⟩

theorem underKey_map_inlinedField (fragments : Fragments) (key : String) (fields : List Field) :
    underKey key (fields.map fragments.inlinedField) =
      (underKey key fields).map fragments.inlinedField := by
  rw [underKey, List.filter_map]
  rfl

/-- Selections and echoes of them written out collect the same. -/
theorem corresponds_inlined (hacyclic : scope.fragments.Acyclic) {others : Fragments}
    (hothers : ∀ name, Entries.find? scope.fragments name = none →
      Entries.find? others name = none) :
    Corresponds scope { scope with fragments := others } fun left right =>
      Echoes (left.map scope.fragments.inlined) right := by
  refine ⟨fun runtime left right hrelated => ?_, fun h => h.eq_nil_iff.mpr rfl⟩
  obtain ⟨fields, hleft, hechoes⟩ :=
    @exists_collect_eq_group { scope with runtime } hacyclic left
  have hspreads : ∀ name ∈ Selection.allSpreads right, Entries.find? others name = none := by
    intro name hm
    obtain ⟨selection, hs, hm⟩ := Selection.mem_allSpreads.mp hm
    exact hothers name (hacyclic.spreads_inlined left name
      (Selection.mem_allSpreads.mpr ⟨selection, (hrelated.mem_iff selection).mp hs, hm⟩))
  have hright : collect { scope with fragments := others, runtime } right =
      group (reachedAll { scope with runtime } right) := by
    rw [collect_eq_group hspreads]
    exact congrArg group (@reachedAll_fragments { scope with runtime } others right)
  replace hechoes : Echoes (fields.map scope.fragments.inlinedField)
      (reachedAll { scope with runtime } right) := by
    refine hechoes.trans ?_
    rw [reachedAll_eq_flatMap, reachedAll_eq_flatMap]
    exact hrelated.flatMap _
  rw [hleft, hright]
  refine Entries.forall₂_of_find? (nodup_keys_group fields) ?_ fun key one other hone hother => ?_
  · have hkeys := (hechoes.map FieldSelection.responseKey).eraseDups_eq
    rw [List.map_map] at hkeys
    rw [keys_group, keys_group, hkeys]
    rfl
  · have hunder := hechoes.filter fun field => field.responseKey = key
    change Echoes (underKey key _) (underKey key _) at hunder
    rw [underKey_map_inlinedField] at hunder
    rw [find?_group, Option.map_eq_some_iff] at hone hother
    obtain ⟨first, hfirst, rfl⟩ := hone
    obtain ⟨first', hfirst', rfl⟩ := hother
    have hfield : first' = scope.fragments.inlinedField first := by
      have hhead := hunder.head?_eq
      rw [hfirst', List.head?_map, hfirst] at hhead
      exact Option.some.inj hhead
    have hbelow := hunder.flatMap FieldSelection.selections
    have hmap : ((underKey key fields).map scope.fragments.inlinedField).flatMap
          FieldSelection.selections =
        ((underKey key fields).flatMap FieldSelection.selections).map scope.fragments.inlined := by
      rw [List.flatMap_map, List.map_flatMap]
      rfl
    rw [hmap] at hbelow
    subst hfield
    exact ⟨rfl, rfl, rfl, rfl, rfl, hbelow⟩

/-! ## Repeated spreads -/

/-- The fragments that collecting the fields of selections visits. -/
def visited (scope : Scope) (selections : List Selection) : List String :=
  (walkTo scope scope.fragments.length selections {}).spread

/-- What a walk does with the selections of a fragment that it enters. -/
def entering (scope : Scope) : Nat → List Selection → State → State
  | 0 => fun _ state => state
  | depth + 1 => walkTo scope depth

theorem walkTo_eq_walk (depth : Nat) : walkTo scope depth = walk scope (entering scope depth) := by
  cases depth <;> rfl

theorem walk_append (before after : List Selection) (state : State) :
    walk scope enter (before ++ after) state =
      walk scope enter after (walk scope enter before state) := by
  induction before generalizing state with
  | nil => rfl
  | cons selection rest ih => exact ih _

/-- The spread of a fragment that has been visited is passed over. -/
theorem collect_spread_again {before : List Selection} {name : String}
    (hvisited : name ∈ visited scope before) (guard : Guard) (after : List Selection) :
    collect scope (before ++ .spread name guard :: after) = collect scope (before ++ after) := by
  have hpassed : ∀ (enter : List Selection → State → State) (state : State), name ∈ state.spread →
      visit scope enter (.spread name guard) state = state := by
    intro enter state hm
    have hcontains : state.spread.contains name = true := List.contains_iff_mem.mpr hm
    simp only [visit, hcontains, Bool.or_true, ite_true]
  rw [visited] at hvisited
  rw [collect, collect, walkTo_eq_walk] at *
  rw [walk_append, walk_append, walk, hpassed _ _ hvisited]

end Collection

/-! ## Documents -/

namespace ExecutableDocument

/-- Writes the fragments of a document out wherever they are spread. -/
def inlined (document : ExecutableDocument) : ExecutableDocument where
  fragments := Entries.mapValues (fun fragment =>
    { fragment with selections := fragment.selections.map document.fragments.inlined })
    document.fragments
  operations := document.operations.map fun operation =>
    { operation with selections := operation.selections.map document.fragments.inlined }

/-- The names of all fragments that a document spreads. -/
def spreads (document : ExecutableDocument) : List String :=
  document.fragments.flatMap (fun entry => Selection.allSpreads entry.2.selections) ++
    document.operations.flatMap fun operation => Selection.allSpreads operation.selections

theorem spreads_inlined {document : ExecutableDocument} (h : document.fragments.Acyclic) :
    ∀ name ∈ document.inlined.spreads, Entries.find? document.fragments name = none := by
  intro name hm
  rcases List.mem_append.mp hm with hm | hm
  · obtain ⟨_, hentry, hm⟩ := List.mem_flatMap.mp hm
    obtain ⟨entry, -, rfl⟩ := List.mem_map.mp hentry
    exact h.spreads_inlined entry.2.selections name hm
  · obtain ⟨_, hoperation, hm⟩ := List.mem_flatMap.mp hm
    obtain ⟨operation, -, rfl⟩ := List.mem_map.mp hoperation
    exact h.spreads_inlined operation.selections name hm

end ExecutableDocument

variable {ref : Type}

/-- A document without fragments that lead back to themselves, and the same document with all
    fragments written out: no request tells them apart, be it by its error, by its response or
    responses, or by the calls and effects on the way. What is written out spreads nothing that
    exists, and every spread has become what its fragment is, written out. In any document, the
    spread of a fragment that has been visited may be left out. -/
theorem fragments_transparent (service : Service ref) (objects : ref → ObjectType ref)
    {document : ExecutableDocument} (h : document.fragments.Acyclic) :
    (∀ name bindings bound count,
      (service.executeDocument objects bound document.inlined name bindings).watch bound count =
        (service.executeDocument objects bound document name bindings).watch bound count) ∧
    (∀ name ∈ document.inlined.spreads, Entries.find? document.fragments name = none) ∧
    (∀ name guard fragment, Entries.find? document.fragments name = some fragment →
      document.fragments.inlined (.spread name guard) =
        .inlineFragment (some fragment.condition) guard
          (fragment.selections.map document.fragments.inlined)) ∧
    ∀ (scope : Collection.Scope) before name guard after, name ∈ Collection.visited scope before →
      collect scope (before ++ .spread name guard :: after) = collect scope (before ++ after) := by
  refine ⟨?_, document.spreads_inlined h, ?_, ?_⟩
  · intro name bindings bound count
    have hnone : ∀ name, Entries.find? document.fragments name = none →
        Entries.find? document.inlined.fragments name = none := by
      intro name hnone
      rw [ExecutableDocument.inlined, Entries.find?_mapValues, hnone]
      rfl
    have hcovers : ∀ left, Echoes (left.map document.fragments.inlined) [] → left = [] :=
      fun left hechoes => List.map_eq_nil_iff.mp (hechoes.eq_nil_iff.mp rfl)
    refine (Service.Alike.refl service).watch_executeDocument_of_covers
      (fun operation _ => Collection.corresponds_inlined h hnone) hcovers ?_ name bound count
    rw [ExecutableDocument.inlined, List.forall₂_map_right_iff, List.forall₂_same]
    exact fun operation _ => ⟨rfl, rfl, rfl, .refl _⟩
  · intro name guard fragment hfind
    rw [h.inlined_spread, Fragments.expand_of_some hfind]
  · intro scope before name guard after hvisited
    exact Collection.collect_spread_again hvisited guard after

namespace Sample

/-- A fragment that spreads another one. -/
def fragments : Fragments :=
  [("names", ⟨"Ship", [select "name" []]⟩),
    ("all", ⟨"Ship", [.spread "names" {}, select "fuel" []]⟩)]

/-- Spreads the one and the other for the same ship. -/
def spreading : ExecutableDocument where
  fragments := fragments
  operations := [⟨none, .query, [],
    [select "ship" [.spread "all" {}], select "ship" [.spread "names" {}, .spread "all" {}]]⟩]

theorem acyclic_fragments : fragments.Acyclic := by
  refine Fragments.acyclic_of_rank (fun name => if name = "all" then 1 else 0) ?_
  rintro name other ⟨fragment, hfind, hm⟩
  simp only [fragments, Entries.find?_cons, Entries.find?_nil] at hfind
  split at hfind
  · obtain rfl := Option.some.inj hfind
    exact absurd hm (List.not_mem_nil)
  · split at hfind
    · next hname =>
      obtain rfl := Option.some.inj hfind
      obtain rfl : other = "names" := List.mem_singleton.mp hm
      rw [hname]
      decide
    · cases hfind

end Sample

/-- Two fragments, one within the other, are spread at two places for one ship. -/
theorem fragments_transparent_sample :
    Sample.fragments.Acyclic ∧
    ((Sample.service 3 2).executeDocument (fun _ => Sample.ship 3) 20 Sample.spreading.inlined none
        []).watch 20 0 =
      ((Sample.service 3 2).executeDocument (fun _ => Sample.ship 3) 20 Sample.spreading none
        []).watch 20 0 ∧
    (((Sample.service 3 2).executeDocument (fun _ => Sample.ship 3) 20 Sample.spreading none []
      0).map fun timed => Sample.spans timed.record) = some [
        (⟨[.key "ship"]⟩, 0, 3), (⟨[.key "ship", .key "name"]⟩, 3, 6),
        (⟨[.key "ship", .key "fuel"]⟩, 3, 6)] ∧
    collect ⟨{}, Sample.fragments, [], some "Ship"⟩ [.spread "all" {}, .spread "names" {}] =
      collect ⟨{}, Sample.fragments, [], some "Ship"⟩ [.spread "all" {}] := by
  have hacyclic : Sample.spreading.fragments.Acyclic := Sample.acyclic_fragments
  obtain ⟨hwatch, -, -, hagain⟩ :=
    fragments_transparent (Sample.service 3 2) (fun _ => Sample.ship 3) hacyclic
  refine ⟨hacyclic, hwatch none [] 20 0, by decide +kernel, ?_⟩
  exact hagain _ [.spread "all" {}] "names" {} [] (by decide +kernel)

end GraphQL

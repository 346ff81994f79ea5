import GraphQL.Proofs.Grouping
import Mathlib.Data.List.Perm.Subperm
import Mathlib.Logic.Relation

/-!
# Inlined fragments

A named fragment can be written out where it is spread: as an inline fragment for the same type and
under the conditions of the spread. `ExecutableDocument.inlined` does so everywhere, as deep as
spreads nest, which comes to an end if no fragment leads back to itself.

Results:
* `Acyclic.fits`: without circles, spreads nest at most as deep as there are fragments.
* `Acyclic.inlined_eq`: what is written out is the selection with every spread replaced by what its
  fragment is, written out.
* `Acyclic.spreads_inlined`: nothing that exists is spread any more.
-/

namespace GraphQL

/-! ## Writing fragments out -/

namespace Selection

mutual

/-- Replaces the spreads in a selection, at any depth. -/
def replaceSpreads (replace : String → Guard → Selection) : Selection → Selection
  | .field ⟨aliasName, name, arguments, below, composite, guard, location⟩ =>
    .field ⟨aliasName, name, arguments, replaceAllSpreads replace below, composite, guard,
      location⟩
  | .inlineFragment condition guard below =>
    .inlineFragment condition guard (replaceAllSpreads replace below)
  | .spread name guard => replace name guard

/-- Replaces the spreads in selections, at any depth. -/
def replaceAllSpreads (replace : String → Guard → Selection) : List Selection → List Selection
  | [] => []
  | selection :: rest => replaceSpreads replace selection :: replaceAllSpreads replace rest

end

variable {replace other : String → Guard → Selection}

theorem replaceAllSpreads_eq_map (selections : List Selection) :
    replaceAllSpreads replace selections = selections.map (replaceSpreads replace) := by
  induction selections with
  | nil => rfl
  | cons selection rest ih => rw [replaceAllSpreads, ih, List.map_cons]

theorem replaceSpreads_field (field : Field) :
    replaceSpreads replace (.field field) =
      .field { field with selections := field.selections.map (replaceSpreads replace) } := by
  rw [← replaceAllSpreads_eq_map]
  rfl

theorem replaceSpreads_inlineFragment (condition : Option String) (guard : Guard)
    (below : List Selection) :
    replaceSpreads replace (.inlineFragment condition guard below) =
      .inlineFragment condition guard (below.map (replaceSpreads replace)) := by
  rw [← replaceAllSpreads_eq_map]
  rfl

/-- Only the spreads that are there matter. -/
theorem replaceSpreads_congr (selection : Selection)
    (h : ∀ name ∈ selection.spreads, ∀ guard, replace name guard = other name guard) :
    replaceSpreads replace selection = replaceSpreads other selection := by
  induction selection using Selection.induction with
  | field field ih =>
    rw [replaceSpreads_field, replaceSpreads_field]
    have hbelow := List.map_congr_left fun selection hm =>
      ih selection hm fun name hn => h name (mem_allSpreads.mpr ⟨selection, hm, hn⟩)
    rw [hbelow]
  | inlineFragment condition guard below ih =>
    rw [replaceSpreads_inlineFragment, replaceSpreads_inlineFragment]
    have hbelow := List.map_congr_left fun selection hm =>
      ih selection hm fun name hn => h name (mem_allSpreads.mpr ⟨selection, hm, hn⟩)
    rw [hbelow]
  | spread name guard => exact h name (List.mem_singleton_self name) guard

theorem replaceSpreads_spread (selection : Selection) :
    replaceSpreads .spread selection = selection := by
  induction selection using Selection.induction with
  | field field ih =>
    have hbelow : field.selections.map (replaceSpreads .spread) = field.selections := by
      simpa using List.map_congr_left ih
    rw [replaceSpreads_field, hbelow]
  | inlineFragment condition guard below ih =>
    have hbelow : below.map (replaceSpreads .spread) = below := by
      simpa using List.map_congr_left ih
    rw [replaceSpreads_inlineFragment, hbelow]
  | spread name guard => rfl

/-- What is spread after the replacement comes from what replaces a spread. -/
theorem exists_of_mem_spreads_replaceSpreads {selection : Selection} {name : String}
    (h : name ∈ (replaceSpreads replace selection).spreads) :
    ∃ replaced ∈ selection.spreads, ∃ guard, name ∈ (replace replaced guard).spreads := by
  induction selection using Selection.induction with
  | field field ih =>
    rw [replaceSpreads_field] at h
    obtain ⟨_, hmap, hname⟩ := mem_allSpreads.mp h
    obtain ⟨selection, hm, rfl⟩ := List.mem_map.mp hmap
    obtain ⟨replaced, hreplaced, hguard⟩ := ih selection hm hname
    exact ⟨replaced, mem_allSpreads.mpr ⟨selection, hm, hreplaced⟩, hguard⟩
  | inlineFragment condition guard below ih =>
    rw [replaceSpreads_inlineFragment] at h
    obtain ⟨_, hmap, hname⟩ := mem_allSpreads.mp h
    obtain ⟨selection, hm, rfl⟩ := List.mem_map.mp hmap
    obtain ⟨replaced, hreplaced, hguard⟩ := ih selection hm hname
    exact ⟨replaced, mem_allSpreads.mpr ⟨selection, hm, hreplaced⟩, hguard⟩
  | spread replaced guard => exact ⟨replaced, List.mem_singleton_self replaced, guard, h⟩

end Selection

namespace Fragments

variable {fragments : Fragments}

/-- What stands for a spread: the selections of the fragment, each of them changed by `below`. The
    spread of a fragment that does not exist stays. -/
def expand (fragments : Fragments) (below : Selection → Selection) (name : String)
    (guard : Guard) : Selection :=
  match Entries.find? fragments name with
  | none => .spread name guard
  | some fragment =>
    .inlineFragment (some fragment.condition) guard (fragment.selections.map below)

/-- Writes fragments out where spreads nest at most `depth` deep. -/
def inlinedTo (fragments : Fragments) : Nat → Selection → Selection
  | 0, selection => selection
  | depth + 1, selection => selection.replaceSpreads (fragments.expand (fragments.inlinedTo depth))

/-- Writes fragments out. Without circles, spreads nest at most as deep as there are fragments. -/
def inlined (fragments : Fragments) : Selection → Selection :=
  fragments.inlinedTo fragments.length

/-- The fragment `name` spreads the fragment `other`, at any depth. -/
def Refers (fragments : Fragments) (name other : String) : Prop :=
  ∃ fragment, Entries.find? fragments name = some fragment ∧
    other ∈ Selection.allSpreads fragment.selections

/-- No fragment leads back to itself. -/
def Acyclic (fragments : Fragments) : Prop :=
  ∀ name, ¬ Relation.TransGen fragments.Refers name name

/-- There is no circle if whatever a fragment spreads has a lower rank than the fragment. -/
theorem acyclic_of_rank (rank : String → Nat)
    (h : ∀ name other, fragments.Refers name other → rank other < rank name) :
    fragments.Acyclic := by
  intro name hcircle
  have hlower : ∀ other, Relation.TransGen fragments.Refers name other → rank other < rank name := by
    intro other hreach
    induction hreach with
    | single hstep => exact h _ _ hstep
    | tail _ hstep ih => exact Nat.lt_trans (h _ _ hstep) ih
  exact Nat.lt_irrefl _ (hlower name hcircle)

/-! ## How deep spreads nest -/

/-- Spreads of these fragments nest at most `depth` deep. -/
def Fits (fragments : Fragments) : Nat → List String → Prop
  | 0, names => ∀ name ∈ names, Entries.find? fragments name = none
  | depth + 1, names => ∀ name ∈ names, ∀ fragment, Entries.find? fragments name = some fragment →
    Fits fragments depth (Selection.allSpreads fragment.selections)

theorem Fits.subset {depth : Nat} {names others : List String} (h : fragments.Fits depth names)
    (hsubset : others ⊆ names) : fragments.Fits depth others := by
  cases depth with
  | zero => exact fun name hm => h name (hsubset hm)
  | succ depth => exact fun name hm => h name (hsubset hm)

/-- Fragments that lead to one another are all different, so a trail of them that can go on is
    shorter than the list of all fragments. -/
theorem Acyclic.length_lt (h : fragments.Acyclic) {trail : List String} {name : String}
    {fragment : Fragment} (hnodup : trail.Nodup) (hdefined : trail ⊆ Entries.keys fragments)
    (hreach : ∀ above ∈ trail, Relation.TransGen fragments.Refers above name)
    (hfind : Entries.find? fragments name = some fragment) :
    (name :: trail).Nodup ∧ name :: trail ⊆ Entries.keys fragments ∧
      trail.length < fragments.length := by
  have hnew : (name :: trail).Nodup :=
    List.nodup_cons.mpr ⟨fun hm => h name (hreach name hm), hnodup⟩
  have hkeys : name :: trail ⊆ Entries.keys fragments :=
    List.cons_subset.mpr ⟨List.mem_map.mpr ⟨_, Entries.mem_of_find? hfind, rfl⟩, hdefined⟩
  refine ⟨hnew, hkeys, ?_⟩
  have hlength := (List.subperm_of_subset hnew hkeys).length_le
  rwa [Entries.keys, List.length_map] at hlength

/-- Whatever a trail of fragments leads to fits what the trail leaves over. -/
theorem Acyclic.fits_of_trail (h : fragments.Acyclic) {depth : Nat} {names trail : List String}
    (hnodup : trail.Nodup) (hdefined : trail ⊆ Entries.keys fragments)
    (hreach : ∀ above ∈ trail, ∀ name ∈ names, Relation.TransGen fragments.Refers above name)
    (hlength : fragments.length ≤ trail.length + depth) : fragments.Fits depth names := by
  induction depth generalizing names trail with
  | zero =>
    intro name hm
    cases hfind : Entries.find? fragments name with
    | none => rfl
    | some fragment =>
      have := (h.length_lt hnodup hdefined (fun above ha => hreach above ha name hm) hfind).2.2
      omega
  | succ depth ih =>
    intro name hm fragment hfind
    obtain ⟨hnodup', hdefined', -⟩ :=
      h.length_lt hnodup hdefined (fun above ha => hreach above ha name hm) hfind
    refine ih hnodup' hdefined' ?_ (by rw [List.length_cons]; omega)
    intro above ha next hn
    have hstep : fragments.Refers name next := ⟨fragment, hfind, hn⟩
    rcases List.mem_cons.mp ha with rfl | ha
    · exact .single hstep
    · exact (hreach above ha name hm).tail hstep

/-- Without circles, spreads nest at most as deep as there are fragments. -/
theorem Acyclic.fits (h : fragments.Acyclic) (names : List String) :
    fragments.Fits fragments.length names :=
  h.fits_of_trail List.nodup_nil (List.nil_subset _) (by simp) (by simp)

/-! ## Equations -/

theorem expand_of_none {name : String} (h : Entries.find? fragments name = none)
    (below : Selection → Selection) (guard : Guard) :
    fragments.expand below name guard = .spread name guard := by
  rw [expand, h]

theorem expand_of_some {name : String} {fragment : Fragment}
    (h : Entries.find? fragments name = some fragment) (below : Selection → Selection)
    (guard : Guard) :
    fragments.expand below name guard =
      .inlineFragment (some fragment.condition) guard (fragment.selections.map below) := by
  rw [expand, h]

/-- Where the depth suffices, more of it makes no difference. -/
theorem Fits.inlinedTo_succ {depth : Nat} {selection : Selection}
    (h : fragments.Fits depth selection.spreads) :
    fragments.inlinedTo (depth + 1) selection = fragments.inlinedTo depth selection := by
  induction depth generalizing selection with
  | zero =>
    rw [inlinedTo, inlinedTo]
    refine (Selection.replaceSpreads_congr selection fun name hm guard => ?_).trans
      (Selection.replaceSpreads_spread selection)
    exact expand_of_none (h name hm) _ guard
  | succ depth ih =>
    rw [inlinedTo, inlinedTo]
    refine Selection.replaceSpreads_congr selection fun name hm guard => ?_
    cases hfind : Entries.find? fragments name with
    | none => rw [expand_of_none hfind, expand_of_none hfind]
    | some fragment =>
      rw [expand_of_some hfind, expand_of_some hfind]
      refine congrArg _ (List.map_congr_left fun selection hs => ih ?_)
      exact (h name hm fragment hfind).subset fun other ho =>
        Selection.mem_allSpreads.mpr ⟨selection, hs, ho⟩

/-- What has been written out spreads nothing that exists. -/
theorem Fits.spreads_inlinedTo {depth : Nat} {selection : Selection}
    (h : fragments.Fits depth selection.spreads) :
    ∀ name ∈ (fragments.inlinedTo depth selection).spreads, Entries.find? fragments name = none := by
  induction depth generalizing selection with
  | zero => exact h
  | succ depth ih =>
    intro name hm
    obtain ⟨replaced, hreplaced, guard, hm⟩ := Selection.exists_of_mem_spreads_replaceSpreads hm
    cases hfind : Entries.find? fragments replaced with
    | none =>
      rw [expand_of_none hfind] at hm
      exact List.mem_singleton.mp hm ▸ hfind
    | some fragment =>
      rw [expand_of_some hfind] at hm
      obtain ⟨_, hmap, hm⟩ := Selection.mem_allSpreads.mp hm
      obtain ⟨selection, hs, rfl⟩ := List.mem_map.mp hmap
      refine ih ?_ name hm
      exact (h replaced hreplaced fragment hfind).subset fun other ho =>
        Selection.mem_allSpreads.mpr ⟨selection, hs, ho⟩

namespace Acyclic

/-- Writing fragments out replaces every spread by what the fragment is, written out. -/
theorem inlined_eq (h : fragments.Acyclic) (selection : Selection) :
    fragments.inlined selection =
      selection.replaceSpreads (fragments.expand fragments.inlined) :=
  (h.fits selection.spreads).inlinedTo_succ.symm

theorem spreads_inlined (h : fragments.Acyclic) (selections : List Selection) :
    ∀ name ∈ Selection.allSpreads (selections.map fragments.inlined),
      Entries.find? fragments name = none := by
  intro name hm
  obtain ⟨_, hs, hm⟩ := Selection.mem_allSpreads.mp hm
  obtain ⟨selection, -, rfl⟩ := List.mem_map.mp hs
  exact (h.fits selection.spreads).spreads_inlinedTo name hm

theorem inlined_inlineFragment (h : fragments.Acyclic) (condition : Option String) (guard : Guard)
    (below : List Selection) :
    fragments.inlined (.inlineFragment condition guard below) =
      .inlineFragment condition guard (below.map fragments.inlined) := by
  rw [h.inlined_eq, Selection.replaceSpreads_inlineFragment]
  exact congrArg _ (List.map_congr_left fun selection _ => (h.inlined_eq selection).symm)

theorem inlined_spread (h : fragments.Acyclic) (name : String) (guard : Guard) :
    fragments.inlined (.spread name guard) = fragments.expand fragments.inlined name guard :=
  h.inlined_eq _

end Acyclic

/-- Writes fragments out below a field. -/
def inlinedField (fragments : Fragments) (field : Field) : Field :=
  { field with selections := field.selections.map fragments.inlined }

theorem Acyclic.inlined_field (h : fragments.Acyclic) (field : Field) :
    fragments.inlined (.field field) = .field (fragments.inlinedField field) := by
  rw [h.inlined_eq, Selection.replaceSpreads_field]
  have hbelow : field.selections.map (Selection.replaceSpreads (fragments.expand fragments.inlined)) =
      field.selections.map fragments.inlined :=
    List.map_congr_left fun selection _ => (h.inlined_eq selection).symm
  rw [hbelow]
  rfl

end Fragments

end GraphQL

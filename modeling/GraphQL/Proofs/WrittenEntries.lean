import GraphQL.Proofs.Echoes
import GraphQL.Proofs.Merging

/-!
# Entries that are written one after the other

What is written entry by entry has the names in the order in which they first came, and under each
of them what was written last. `Value.variant` writes an object in this way, one entry for each case
of a sum. The first case of the active name takes the value with it; if the name comes again, what
is written then is null, and that stays.

Results:
* `Entries.keys_ofList`, `Entries.find?_ofList`: first places and last values.
* `Entries.ofList_eq_self`: entries with distinct names are written as they are.
* `Value.variant_eq_ofList`: a sum is written case by case.
* `variant_fields`: the fields of a sum, and when they are those that the active case should have.
* `repeated_case_loses_value`: a name that is listed twice.
-/

namespace GraphQL

/-! ## Entries in the order of writing -/

namespace Entries

variable {α : Type}

theorem ofList_concat (entries : List (String × α)) (entry : String × α) :
    ofList (entries ++ [entry]) = put (ofList entries) entry.1 entry.2 :=
  List.foldl_concat ..

/-- The names stand in the order in which they first came. -/
theorem keys_ofList (entries : List (String × α)) :
    keys (ofList entries) = (keys entries).eraseDups := by
  induction entries using List.reverseRecOn with
  | nil => rfl
  | append_singleton entries entry ih =>
    have hkeys : keys (entries ++ [entry]) = keys entries ++ [entry.1] := List.map_append
    rw [ofList_concat, keys_put, ih, hkeys, eraseDups_concat]
    simp only [List.mem_eraseDups]

/-- Under each name stands what came last. -/
theorem find?_ofList (entries : List (String × α)) (key : String) :
    find? (ofList entries) key = find? entries.reverse key := by
  induction entries using List.reverseRecOn with
  | nil => rfl
  | append_singleton entries entry ih =>
    rw [ofList_concat, find?_put, ih, List.reverse_append]
    exact (find?_cons entry.1 entry.2 entries.reverse key).symm

/-- Distinct names are all written at the end. -/
theorem ofList_eq_self {entries : List (String × α)} (h : (keys entries).Nodup) :
    ofList entries = entries := by
  induction entries using List.reverseRecOn with
  | nil => rfl
  | append_singleton entries entry ih =>
    have hkeys : keys (entries ++ [entry]) = keys entries ++ [entry.1] := List.map_append
    rw [hkeys, List.nodup_append] at h
    obtain ⟨hnodup, -, hnew⟩ := h
    have hentry : entry.1 ∉ keys entries := fun hm => hnew _ hm _ (List.mem_singleton_self _) rfl
    rw [ofList_concat, ih hnodup, put_of_not_mem hentry]

/-- What is looked up in entries that are read backwards is the last one. -/
theorem find?_reverse_cons (head : String × α) (rest : Entries α) (key : String) :
    find? (head :: rest).reverse key =
      (find? rest.reverse key).or (if key = head.1 then some head.2 else none) := by
  rw [List.reverse_cons, find?, List.lookup_append]
  exact congrArg _ (find?_cons head.1 head.2 [] key)

/-- Entries that are given for each name by a rule. -/
theorem find?_map_names (f : String → α) (names : List String) (key : String) :
    find? (names.map fun name => (name, f name)) key =
      if key ∈ names then some (f key) else none := by
  induction names with
  | nil => rfl
  | cons name rest ih =>
    rw [List.map_cons, find?_cons, ih]
    by_cases h : key = name <;> simp [h]

end Entries

/-! ## Sums -/

namespace Value

/-- The entries of the cases of a sum in the order of writing. The first case of the active name
    takes what is pending. -/
def caseEntries (active : String) : List String → Option Value → List (String × Value)
  | [], _ => []
  | case :: rest, pending =>
    if case = active then (case, pending.getD .null) :: caseEntries active rest none
    else (case, .null) :: caseEntries active rest pending

theorem writeCases_eq_foldl (active : String) (cases : List String) (pending : Option Value)
    (written : Fields) :
    writeCases active cases pending written =
      (caseEntries active cases pending).foldl
        (fun written entry => Entries.put written entry.1 entry.2) written := by
  induction cases generalizing pending written with
  | nil => rfl
  | cons case rest ih =>
    rw [writeCases, caseEntries]
    split
    · exact ih none _
    · exact ih pending _

/-- A sum is written case by case. -/
theorem variant_eq_ofList (cases : List String) (active : String) (value : Value) :
    variant cases active value =
      .object (Entries.ofList (caseEntries active cases (some value))) := by
  rw [variant, writeCases_eq_foldl, Entries.ofList]

theorem keys_caseEntries (active : String) (cases : List String) (pending : Option Value) :
    Entries.keys (caseEntries active cases pending) = cases := by
  induction cases generalizing pending with
  | nil => rfl
  | cons case rest ih =>
    rw [caseEntries]
    split <;> exact congrArg (case :: ·) (ih _)

/-- The last entry of the active name has what was pending only if it is the first one too. -/
theorem find?_reverse_caseEntries (active : String) (cases : List String) (pending : Option Value)
    (name : String) :
    Entries.find? (caseEntries active cases pending).reverse name =
      if name ∈ cases then
        some (if name = active ∧ cases.count active = 1 then pending.getD .null else .null)
      else none := by
  induction cases generalizing pending with
  | nil => rfl
  | cons case rest ih =>
    by_cases hcase : case = active
    · subst hcase
      rw [caseEntries, if_pos rfl, Entries.find?_reverse_cons, ih, List.count_cons_self]
      by_cases hname : name = case
      · subst hname
        by_cases hrest : name ∈ rest
        · have hcount : rest.count name ≠ 0 := fun h => List.count_eq_zero.mp h hrest
          simp [hrest, hcount]
        · simp [hrest, List.count_eq_zero.mpr hrest]
      · simp [hname]
    · rw [caseEntries, if_neg hcase, Entries.find?_reverse_cons, ih, List.count_cons_of_ne hcase]
      by_cases hname : name = case
      · subst hname
        by_cases hrest : name ∈ rest <;> simp [hrest, hcase]
      · simp [hname]

/-- The object that one active case is to give: a field for each case, the value under the active
    one and null under the others. -/
def oneOf (cases : List String) (active : String) (value : Value) : Value :=
  .object (cases.eraseDups.map fun name => (name, if name = active then value else .null))

/-- The fields of a sum: each case once, and the value under the active name if that is listed
    once. -/
theorem variant_eq (cases : List String) (active : String) (value : Value) :
    variant cases active value = .object (cases.eraseDups.map fun name =>
      (name, if name = active ∧ cases.count active = 1 then value else .null)) := by
  have hkeys : Entries.keys (Entries.ofList (caseEntries active cases (some value))) =
      cases.eraseDups := by
    rw [Entries.keys_ofList, keys_caseEntries]
  rw [variant_eq_ofList]
  refine congrArg object (Entries.ext_find? ?_ ?_ fun name => ?_)
  · simp only [Entries.keys, List.map_map, Function.comp_def, List.map_id']
    rw [← hkeys]
    exact Entries.nodup_keys_ofList _
  · rw [hkeys, Entries.keys, List.map_map]
    exact (List.map_id _).symm
  · rw [Entries.find?_ofList, find?_reverse_caseEntries, Entries.find?_map_names]
    simp only [List.mem_eraseDups, Option.getD_some]

/-- A name that is listed again costs the value, unless there was none. -/
theorem variant_eq_oneOf_iff (cases : List String) (active : String) (value : Value) :
    variant cases active value = oneOf cases active value ↔
      cases.count active ≤ 1 ∨ value = .null := by
  rw [variant_eq, oneOf, object.injEq, List.map_inj_left]
  constructor
  · intro h
    by_cases hcount : cases.count active ≤ 1
    · exact .inl hcount
    · have hactive : active ∈ cases.eraseDups :=
        List.mem_eraseDups.mpr (List.count_pos_iff.mp (by omega))
      have hvalue := congrArg Prod.snd (h active hactive)
      have hmany : ¬ cases.count active = 1 := by omega
      simp only [hmany, and_false, if_false, if_true] at hvalue
      exact .inr hvalue.symm
  · intro h name hname
    by_cases hactive : name = active
    · subst hactive
      have hlisted : 0 < cases.count name := List.count_pos_iff.mpr (List.mem_eraseDups.mp hname)
      rcases h with hcount | rfl
      · have hone : cases.count name = 1 := by omega
        simp only [hone, and_self, if_true]
      · simp only [ite_self]
    · simp only [hactive, false_and, if_false]

end Value

/-- A sum is an object with one field for each case, in the order in which the cases first come. The
    active case has the value if it is listed once, and all else is null. This is what the active
    case should have, unless its name is listed again: then the value is lost. -/
theorem variant_fields (cases : List String) (active : String) (value : Value) :
    Value.variant cases active value = .object (cases.eraseDups.map fun name =>
      (name, if name = active ∧ cases.count active = 1 then value else .null)) ∧
    (Value.variant cases active value = Value.oneOf cases active value ↔
      cases.count active ≤ 1 ∨ value = .null) :=
  ⟨Value.variant_eq cases active value, Value.variant_eq_oneOf_iff cases active value⟩

/-- A case that is listed twice is active, and has no value. -/
theorem repeated_case_loses_value :
    Value.variant ["A", "A"] "A" (.int 1) = .object [("A", .null)] ∧
    Value.variant ["A", "A"] "A" (.int 1) ≠ Value.oneOf ["A", "A"] "A" (.int 1) := by
  have hvariant : Value.variant ["A", "A"] "A" (.int 1) = .object [("A", .null)] := rfl
  refine ⟨hvariant, fun h => ?_⟩
  have hcount := (Value.variant_eq_oneOf_iff ["A", "A"] "A" (.int 1)).mp h
  rcases hcount with hcount | hvalue
  · exact absurd hcount (by decide)
  · cases hvalue

end GraphQL

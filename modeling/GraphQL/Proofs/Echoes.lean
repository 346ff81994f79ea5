import Mathlib.Data.List.Induction

/-!
# Lists with echoes

`Echoes xs ys` says that `ys` is `xs` with further copies of members, each of them somewhere after
the member itself. Whatever only looks at the first occurrences in a list does not see them.

Results:
* `Echoes.trans`, `Echoes.append`, `Echoes.append_known`: how lists with echoes are put together.
* `Echoes.flatMap`: replacing every member by a list keeps this.
* `Echoes.eraseDups_eq`, `Echoes.head?_eq`: first occurrences are the same.
-/

universe u v

namespace GraphQL

/-- A last member is erased if it stands in the list already. -/
theorem eraseDups_concat {α : Type u} [DecidableEq α] (xs : List α) (x : α) :
    (xs ++ [x]).eraseDups = if x ∈ xs then xs.eraseDups else xs.eraseDups ++ [x] := by
  rw [List.eraseDups_append]
  split <;> next h => simp [List.removeAll, h, List.eraseDups_cons]

/-- The second list is the first one with echoes. -/
inductive Echoes {α : Type u} : List α → List α → Prop where
  | nil : Echoes [] []
  /-- The next member. -/
  | next {xs ys : List α} (x : α) : Echoes xs ys → Echoes (xs ++ [x]) (ys ++ [x])
  /-- An earlier member once more. -/
  | again {xs ys : List α} {x : α} : Echoes xs ys → x ∈ xs → Echoes xs (ys ++ [x])

namespace Echoes

variable {α : Type u} {β : Type v} {xs ys zs : List α}

theorem mem_iff (h : Echoes xs ys) (x : α) : x ∈ ys ↔ x ∈ xs := by
  induction h with
  | nil => rfl
  | next y _ ih => simp only [List.mem_append, ih]
  | again _ hm ih =>
    rw [List.mem_append, ih, List.mem_singleton]
    exact ⟨fun h => h.elim id fun he => he ▸ hm, .inl⟩

theorem append (h : Echoes xs ys) (zs : List α) : Echoes (xs ++ zs) (ys ++ zs) := by
  induction zs using List.reverseRecOn with
  | nil => simpa using h
  | append_singleton zs z ih =>
    rw [← List.append_assoc, ← List.append_assoc]
    exact .next z ih

protected theorem refl (xs : List α) : Echoes xs xs := append .nil xs

/-- Known members may follow in any number. -/
theorem append_known (h : Echoes xs ys) (hknown : ∀ z ∈ zs, z ∈ ys) : Echoes xs (ys ++ zs) := by
  induction zs using List.reverseRecOn with
  | nil => simpa using h
  | append_singleton zs z ih =>
    rw [← List.append_assoc]
    have hz : z ∈ ys := hknown z (List.mem_append_right _ (List.mem_singleton_self z))
    exact .again (ih fun w hw => hknown w (List.mem_append_left _ hw)) ((h.mem_iff z).mp hz)

protected theorem trans (h : Echoes xs ys) (h' : Echoes ys zs) : Echoes xs zs := by
  induction h' generalizing xs with
  | nil => exact h
  | next x _ ih =>
    generalize he : _ ++ [x] = ws at h
    cases h with
    | nil => simp at he
    | next y h =>
      obtain ⟨rfl, hxy⟩ := List.append_inj' he rfl
      cases hxy
      exact .next x (ih h)
    | again h hm =>
      obtain ⟨rfl, hxy⟩ := List.append_inj' he rfl
      cases hxy
      exact .again (ih h) hm
  | again _ hm ih => exact .again (ih h) ((h.mem_iff _).mp hm)

/-- Replacing every member by a list keeps echoes. -/
theorem flatMap (h : Echoes xs ys) (f : α → List β) : Echoes (xs.flatMap f) (ys.flatMap f) := by
  induction h with
  | nil => exact .nil
  | next x _ ih =>
    simp only [List.flatMap_append, List.flatMap_singleton]
    exact ih.append (f x)
  | again h hm ih =>
    simp only [List.flatMap_append, List.flatMap_singleton]
    refine ih.append_known fun z hz => List.mem_flatMap.mpr ⟨_, (h.mem_iff _).mpr hm, hz⟩

theorem map (h : Echoes xs ys) (f : α → β) : Echoes (xs.map f) (ys.map f) := by
  simpa only [List.map_eq_flatMap] using h.flatMap fun x => [f x]

theorem filter (h : Echoes xs ys) (p : α → Bool) : Echoes (xs.filter p) (ys.filter p) := by
  induction h with
  | nil => exact .nil
  | next x _ ih =>
    rw [List.filter_append, List.filter_append]
    exact ih.append _
  | again h hm ih =>
    rw [List.filter_append]
    refine ih.append_known fun z hz => ?_
    obtain ⟨hz, hp⟩ := List.mem_filter.mp hz
    exact List.mem_filter.mpr ⟨(h.mem_iff z).mpr (List.mem_singleton.mp hz ▸ hm), hp⟩

/-- The members are the same, in the order of their first occurrences. -/
theorem eraseDups_eq [DecidableEq α] (h : Echoes xs ys) : ys.eraseDups = xs.eraseDups := by
  induction h with
  | nil => rfl
  | next x h ih => simp only [eraseDups_concat, h.mem_iff, ih]
  | again h hm ih =>
    rw [eraseDups_concat, ite_cond_eq_true _ _ (eq_true ((h.mem_iff _).mpr hm)), ih]

theorem head?_eq (h : Echoes xs ys) : ys.head? = xs.head? := by
  induction h with
  | nil => rfl
  | next x _ ih => rw [List.head?_append, List.head?_append, ih]
  | @again xs ys x _ hm ih =>
    obtain ⟨first, rest, rfl⟩ := List.exists_cons_of_ne_nil (List.ne_nil_of_mem hm)
    rw [List.head?_append, ih]
    rfl

theorem eq_nil_iff (h : Echoes xs ys) : ys = [] ↔ xs = [] := by
  rw [← List.head?_eq_none_iff, ← List.head?_eq_none_iff, h.head?_eq]

end Echoes

end GraphQL

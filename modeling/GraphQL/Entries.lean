/-!
# Ordered entries

Named entries in the order in which their names first came. Writing a name again replaces the value
and keeps the place, so the order of a map is the order of its first writes.

Main statements: `find?_put` says what a write does to a look-up, `keys_put` what it does to the
names, `find?_union` what is looked up in two maps that are put together, and `nodup_keys_ofList`
that names stay distinct.
-/

universe u v

namespace GraphQL

/-- Named entries, oldest name first. -/
abbrev Entries (α : Type u) := List (String × α)

namespace Entries

variable {α : Type u} {β : Type v}

/-- The names, in order. -/
def keys (entries : Entries α) : List String := List.map Prod.fst entries

/-- The entry under `key`. -/
def find? (entries : Entries α) (key : String) : Option α := List.lookup key entries

/-- Whether some entry is named `key`. -/
def has (entries : Entries α) (key : String) : Bool := (find? entries key).isSome

/-- Writes `a` under `key`: in place if the name is known, at the end if it is new. -/
def put : Entries α → String → α → Entries α
  | [], key, a => [(key, a)]
  | (k, b) :: rest, key, a => if k = key then (k, a) :: rest else (k, b) :: put rest key a

/-- Writes `a` under `key` unless the name is taken. -/
def add (entries : Entries α) (key : String) (a : α) : Entries α :=
  if has entries key then entries else entries ++ [(key, a)]

/-- Writes a list of entries one after the other: a repeated name keeps its first place and its last
    value. -/
def ofList (entries : List (String × α)) : Entries α :=
  entries.foldl (fun written entry => put written entry.1 entry.2) []

/-- Adds a list of entries one after the other: a repeated name keeps its first place and its first
    value. -/
def ofListFirst (entries : List (String × α)) : Entries α :=
  entries.foldl (fun written entry => add written entry.1 entry.2) []

/-- Adds to `left` the entries of `right` whose names it lacks. -/
def union (left right : Entries α) : Entries α :=
  right.foldl (fun merged entry => add merged entry.1 entry.2) left

/-- Applies `f` to every value and keeps names and order. -/
def mapValues (f : α → β) (entries : Entries α) : Entries β :=
  List.map (fun entry => (entry.1, f entry.2)) entries

/-! ## Laws -/

@[simp] theorem find?_nil (key : String) : find? ([] : Entries α) key = none := rfl

theorem find?_cons (k : String) (a : α) (rest : Entries α) (key : String) :
    find? ((k, a) :: rest) key = if key = k then some a else find? rest key := by
  by_cases h : key = k
  · subst h; simp [find?]
  · simp [find?, List.lookup_cons, beq_false_of_ne h, h]

theorem find?_put (entries : Entries α) (key : String) (a : α) (other : String) :
    find? (put entries key a) other = if other = key then some a else find? entries other := by
  induction entries with
  | nil => simp [put, find?_cons]
  | cons head rest ih =>
    obtain ⟨k, b⟩ := head
    by_cases hk : k = key
    · subst hk
      by_cases ho : other = k <;> simp [put, find?_cons, ho]
    · by_cases ho : other = k
      · subst ho; simp [put, hk, find?_cons]
      · simp [put, hk, find?_cons, ho, ih]

theorem find?_eq_none_iff (entries : Entries α) (key : String) :
    find? entries key = none ↔ key ∉ keys entries := by
  induction entries with
  | nil => simp [keys]
  | cons head rest ih =>
    obtain ⟨k, b⟩ := head
    by_cases h : key = k <;> simp_all [find?_cons, keys]

theorem has_iff_mem_keys (entries : Entries α) (key : String) :
    has entries key = true ↔ key ∈ keys entries := by
  have h := find?_eq_none_iff entries key
  cases hf : find? entries key with
  | none => simp [has, hf, h.mp hf]
  | some a =>
    have : ¬ key ∉ keys entries := fun hn => by simp [h.mpr hn] at hf
    simp only [has, hf, Option.isSome_some, true_iff]
    exact Decidable.not_not.mp this

/-- A write leaves the names as they were or appends the one that is new. -/
theorem keys_put (entries : Entries α) (key : String) (a : α) :
    keys (put entries key a) =
      if key ∈ keys entries then keys entries else keys entries ++ [key] := by
  induction entries with
  | nil => simp [put, keys]
  | cons head rest ih =>
    obtain ⟨k, b⟩ := head
    by_cases hk : k = key
    · simp [put, hk, keys]
    · have hk' : ¬ key = k := fun h => hk h.symm
      by_cases hm : key ∈ keys rest
      · simp_all [put, keys]
      · simp_all [put, keys]

/-- A new name is written at the end. -/
theorem put_of_not_mem {entries : Entries α} {key : String} (h : key ∉ keys entries) (a : α) :
    put entries key a = entries ++ [(key, a)] := by
  induction entries with
  | nil => rfl
  | cons head rest ih =>
    obtain ⟨k, b⟩ := head
    simp only [keys, List.map_cons, List.mem_cons, not_or] at h
    rw [put, ite_cond_eq_false _ _ (eq_false fun e => h.1 e.symm), ih h.2, List.cons_append]

theorem find?_mapValues (f : α → β) (entries : Entries α) (key : String) :
    find? (mapValues f entries) key = (find? entries key).map f := by
  induction entries with
  | nil => rfl
  | cons head rest ih =>
    have ih' : find? (List.map (fun entry => (entry.1, f entry.2)) rest) key = _ := ih
    rw [mapValues, List.map_cons, find?_cons, find?_cons, ih']
    split <;> rfl

/-- Values may change depending on their name. -/
theorem find?_map (f : String → α → β) (entries : Entries α) (key : String) :
    find? (List.map (fun entry => (entry.1, f entry.1 entry.2)) entries) key =
      (find? entries key).map (f key) := by
  induction entries with
  | nil => rfl
  | cons head rest ih =>
    rw [List.map_cons, find?_cons, find?_cons, ih]
    split
    · next h => rw [h, Option.map_some]
    · rfl

/-- Taking entries out does not matter to a name whose first entry stays. -/
theorem find?_filter {p : String × α → Bool} {entries : Entries α} {key : String}
    (h : ∀ a, find? entries key = some a → p (key, a) = true) :
    find? (List.filter p entries) key = find? entries key := by
  induction entries with
  | nil => rfl
  | cons head rest ih =>
    obtain ⟨k, b⟩ := head
    by_cases hk : key = k
    · subst hk
      have hb : p (key, b) = true := h b (by simp [find?_cons])
      simp [hb, find?_cons]
    · have hrest : ∀ a, find? rest key = some a → p (key, a) = true := fun a ha =>
        h a (by simpa [find?_cons, hk] using ha)
      cases hp : p (k, b) <;> simp [hp, find?_cons, hk, ih hrest]

/-- No entry is left of a name all of whose entries are taken out. -/
theorem find?_filter_eq_none {p : String × α → Bool} (entries : Entries α) {key : String}
    (h : ∀ a, p (key, a) = false) : find? (List.filter p entries) key = none := by
  rw [find?_eq_none_iff]
  intro hm
  obtain ⟨⟨k, a⟩, hentry, rfl⟩ := List.mem_map.mp hm
  rw [List.mem_filter, h a] at hentry
  exact Bool.false_ne_true hentry.2

/-- With distinct names, every entry is found under its name. -/
theorem find?_of_mem {entries : Entries α} (h : (keys entries).Nodup) {entry : String × α}
    (hm : entry ∈ entries) : find? entries entry.1 = some entry.2 := by
  induction entries with
  | nil => cases hm
  | cons head rest ih =>
    obtain ⟨k, b⟩ := head
    simp only [keys, List.map_cons, List.nodup_cons] at h
    rw [find?_cons]
    rcases List.mem_cons.mp hm with rfl | hm
    · simp
    · have hne : entry.1 ≠ k := fun e => h.1 (e ▸ List.mem_map_of_mem hm)
      rw [ite_cond_eq_false _ _ (eq_false hne)]
      exact ih h.2 hm

theorem mem_of_find? {entries : Entries α} {key : String} {a : α}
    (h : find? entries key = some a) : (key, a) ∈ entries := by
  induction entries with
  | nil => cases h
  | cons head rest ih =>
    obtain ⟨k, b⟩ := head
    rw [find?_cons] at h
    split at h
    · next he => cases h; subst he; simp
    · exact List.mem_cons_of_mem _ (ih h)

/-- What stands in the entries after a write was there before or has been written. -/
theorem mem_of_mem_put {entries : Entries α} {key : String} {a : α} {entry : String × α}
    (h : entry ∈ put entries key a) : entry = (key, a) ∨ entry ∈ entries := by
  induction entries with
  | nil => exact .inl (List.mem_singleton.mp h)
  | cons head rest ih =>
    obtain ⟨k, b⟩ := head
    rw [put] at h
    split at h
    · next hk =>
      rcases List.mem_cons.mp h with rfl | hm
      · exact .inl (by rw [hk])
      · exact .inr (List.mem_cons_of_mem _ hm)
    · rcases List.mem_cons.mp h with rfl | hm
      · exact .inr List.mem_cons_self
      · exact (ih hm).imp_right (List.mem_cons_of_mem _)

/-- The same of entries that are written one after the other. -/
theorem mem_of_mem_ofList {entries : List (String × α)} {entry : String × α}
    (h : entry ∈ ofList entries) : entry ∈ entries := by
  have general : ∀ written : Entries α,
      entry ∈ entries.foldl (fun w entry => put w entry.1 entry.2) written →
      entry ∈ written ∨ entry ∈ entries := by
    clear h
    induction entries with
    | nil => exact fun written hm => .inl hm
    | cons head rest ih =>
      intro written hm
      rcases ih _ hm with hm | hm
      · rcases mem_of_mem_put hm with rfl | hm
        · exact .inr List.mem_cons_self
        · exact .inl hm
      · exact .inr (List.mem_cons_of_mem _ hm)
  exact (general [] h).resolve_left List.not_mem_nil

/-- An addition does not change what was there before. -/
theorem find?_add (entries : Entries α) (key : String) (a : α) (other : String) :
    find? (add entries key a) other =
      (find? entries other).or (if other = key then some a else none) := by
  unfold add
  split
  · next h =>
    by_cases ho : other = key
    · subst ho
      obtain ⟨b, hb⟩ := Option.isSome_iff_exists.mp h
      rw [hb, Option.some_or]
    · rw [ite_cond_eq_false _ _ (eq_false ho), Option.or_none]
  · rw [find?, List.lookup_append]
    exact congrArg _ (find?_cons key a [] other)

/-- What is looked up after an addition was there before or has been added. -/
theorem find?_of_find?_add {entries : Entries α} {key other : String} {a b : α}
    (h : find? (add entries key a) other = some b) : find? entries other = some b ∨ b = a := by
  rw [find?_add, Option.or_eq_some_iff] at h
  refine h.imp_right fun ⟨_, hadded⟩ => ?_
  split at hadded
  · exact (Option.some.inj hadded).symm
  · cases hadded

/-- The left entries come first. -/
theorem find?_union (left right : Entries α) (key : String) :
    find? (union left right) key = (find? left key).or (find? right key) := by
  induction right generalizing left with
  | nil => exact Option.or_none.symm
  | cons head rest ih =>
    obtain ⟨k, a⟩ := head
    rw [union, List.foldl_cons]
    refine (ih (add left k a)).trans ?_
    rw [find?_add, Option.or_assoc, find?_cons]
    split <;> simp

/-- Of entries that are added one after the other, the first one of a name counts. -/
theorem find?_ofListFirst (entries : List (String × α)) (key : String) :
    find? (ofListFirst entries) key = find? entries key :=
  find?_union [] entries key

theorem nodup_keys_put {entries : Entries α} (h : (keys entries).Nodup) (key : String) (a : α) :
    (keys (put entries key a)).Nodup := by
  rw [keys_put]
  split
  · exact h
  · next hk =>
    rw [List.nodup_append]
    refine ⟨h, by simp, ?_⟩
    intro x hx y hy hxy
    simp only [List.mem_singleton] at hy
    exact hk (hy ▸ hxy ▸ hx)

theorem nodup_keys_add {entries : Entries α} (h : (keys entries).Nodup) (key : String) (a : α) :
    (keys (add entries key a)).Nodup := by
  unfold add
  split
  · exact h
  · next hk =>
    rw [has_iff_mem_keys] at hk
    rw [keys, List.map_append, List.nodup_append]
    refine ⟨h, by simp, ?_⟩
    rintro x hx y hy rfl
    rw [List.mem_singleton.mp hy] at hx
    exact hk hx

/-- Whatever names are written, each of them stands once. -/
theorem nodup_keys_ofList (entries : List (String × α)) : (keys (ofList entries)).Nodup := by
  have general : ∀ (written : Entries α), (keys written).Nodup →
      (keys (entries.foldl (fun w entry => put w entry.1 entry.2) written)).Nodup := by
    induction entries with
    | nil => intro written h; exact h
    | cons head rest ih => intro written h; exact ih _ (nodup_keys_put h _ _)
  exact general [] (by simp [keys])

/-- The same of names that are added. -/
theorem nodup_keys_ofListFirst (entries : List (String × α)) :
    (keys (ofListFirst entries)).Nodup := by
  have general : ∀ (written : Entries α), (keys written).Nodup →
      (keys (entries.foldl (fun w entry => add w entry.1 entry.2) written)).Nodup := by
    induction entries with
    | nil => intro written h; exact h
    | cons head rest ih => intro written h; exact ih _ (nodup_keys_add h _ _)
  exact general [] (by simp [keys])

end Entries

end GraphQL

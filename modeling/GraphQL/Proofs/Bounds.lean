import GraphQL.Coercion

/-!
# Larger bounds

A function with a bound on its recursion answers nothing when the bound does not suffice. A larger
bound only adds answers: what was answered before stays (`Approximates`). So two bounds that both
suffice give the same.

Results:
* `InputValue.toValue_succ`, `coerce_le`, `coerceArguments_le`: a larger bound keeps what a value
  or the arguments of a field are coerced to.
* `coerceArguments_unique`: two bounds that suffice coerce arguments alike.
-/

namespace GraphQL

/-! ## Answers that stay -/

/-- Whatever the first answers, the second answers too. -/
def Approximates {α : Type} (first second : Option α) : Prop :=
  ∀ a, first = some a → second = some a

namespace Approximates

variable {α β γ : Type} {first second : Option α}

theorem refl (answer : Option α) : Approximates answer answer := fun _ h => h

theorem none (answer : Option α) : Approximates none answer := by
  rintro a ⟨⟩

theorem trans {third : Option α} (h : Approximates first second)
    (h' : Approximates second third) : Approximates first third :=
  fun a ha => h' a (h a ha)

theorem map (f : α → β) (h : Approximates first second) :
    Approximates (first.map f) (second.map f) := by
  intro b hb
  obtain ⟨a, ha, rfl⟩ := Option.map_eq_some_iff.mp hb
  rw [h a ha, Option.map_some]

theorem bind {f g : α → Option β} (h : Approximates first second)
    (hf : ∀ a, Approximates (f a) (g a)) : Approximates (first.bind f) (second.bind g) := by
  intro b hb
  obtain ⟨a, ha, hb⟩ := Option.bind_eq_some_iff.mp hb
  rw [h a ha, Option.bind_some]
  exact hf a b hb

theorem foldlM {f g : γ → α → Option γ} (h : ∀ done a, Approximates (f done a) (g done a))
    (items : List α) (done : γ) : Approximates (items.foldlM f done) (items.foldlM g done) := by
  induction items generalizing done with
  | nil => exact .refl _
  | cons item rest ih =>
    rw [List.foldlM_cons, List.foldlM_cons]
    exact (h done item).bind ih

theorem mapM {f g : α → Option β} {items : List α}
    (h : ∀ a ∈ items, Approximates (f a) (g a)) : Approximates (items.mapM f) (items.mapM g) := by
  induction items with
  | nil => exact .refl _
  | cons item rest ih =>
    rw [List.mapM_cons, List.mapM_cons]
    refine (h item List.mem_cons_self).bind fun first => ?_
    exact (ih fun a hm => h a (List.mem_cons_of_mem _ hm)).bind fun _ => .refl _

/-- Steps that each keep an answer keep it together. -/
theorem of_succ {f : Nat → Option α} (h : ∀ bound, Approximates (f bound) (f (bound + 1)))
    {bound more : Nat} (hle : bound ≤ more) : Approximates (f bound) (f more) := by
  induction hle with
  | refl => exact .refl _
  | step _ ih => exact ih.trans (h _)

/-- Two bounds that suffice give the same answer. -/
theorem unique {f : Nat → Option α}
    (h : ∀ bound more, bound ≤ more → Approximates (f bound) (f more))
    {bound other : Nat} {a b : α} (ha : f bound = some a) (hb : f other = some b) : a = b := by
  rcases Nat.le_total bound other with hle | hle
  · have := h bound other hle a ha
    rw [hb] at this
    exact (Option.some.inj this).symm
  · have := h other bound hle b hb
    rw [ha] at this
    exact Option.some.inj this

end Approximates

/-! ## Values of variables -/

namespace InputValue

variable {read wider : String → Option Value}

mutual

theorem fill_approximates (h : ∀ name, Approximates (read name) (wider name)) :
    ∀ value : InputValue, Approximates (value.fill read) (value.fill wider)
  | .null | .boolean _ | .int _ | .float _ | .string _ | .enum _ => .refl _
  | .list items => (fillAll_approximates h items).map _
  | .object fields => (fillFields_approximates h fields).map _
  | .var name => h name

theorem fillAll_approximates (h : ∀ name, Approximates (read name) (wider name)) :
    ∀ items : List InputValue, Approximates (fillAll read items) (fillAll wider items)
  | [] => .refl _
  | item :: rest => by
    intro values hvalues
    rw [fillAll] at hvalues ⊢
    split at hvalues
    · next value others hvalue hothers =>
      rw [fill_approximates h item value hvalue, fillAll_approximates h rest others hothers]
      exact hvalues
    · cases hvalues

theorem fillFields_approximates (h : ∀ name, Approximates (read name) (wider name)) :
    ∀ fields : List (String × InputValue),
      Approximates (fillFields read fields) (fillFields wider fields)
  | [] => .refl _
  | (name, item) :: rest => by
    intro values hvalues
    rw [fillFields] at hvalues ⊢
    split at hvalues
    · next value others hvalue hothers =>
      rw [fill_approximates h item value hvalue, fillFields_approximates h rest others hothers]
      exact hvalues
    · cases hvalues

end

theorem toValue_succ (bindings : Variables) (bound : Nat) (value : InputValue) :
    Approximates (value.toValue bindings bound) (value.toValue bindings (bound + 1)) := by
  induction bound generalizing value with
  | zero => exact fill_approximates (fun _ => .none _) value
  | succ bound ih =>
    rw [toValue, toValue]
    refine fill_approximates (fun name => ?_) value
    split
    · exact .refl _
    · exact .refl _
    · exact ih _

end InputValue

/-! ## Coercions -/

namespace Coercion

variable {ε α β : Type}

theorem bind_approximates {first second : Result ε α} {f g : α → Result ε β}
    (h : Approximates first.run second.run) (hf : ∀ a, Approximates (f a).run (g a).run) :
    Approximates (first >>= f).run (second >>= g).run := by
  refine Approximates.bind h fun outcome => ?_
  cases outcome with
  | ok a => exact hf a
  | error error => exact .refl _

theorem mapM_approximates {f g : α → Result ε β} (items : List α)
    (h : ∀ a ∈ items, Approximates (f a).run (g a).run) :
    Approximates (items.mapM f).run (items.mapM g).run := by
  induction items with
  | nil => exact .refl _
  | cons item rest ih =>
    rw [List.mapM_cons, List.mapM_cons]
    refine bind_approximates (h item (by simp)) fun first => ?_
    exact bind_approximates (ih fun a hm => h a (by simp [hm])) fun _ => .refl _

variable {types : Types} {bindings : Variables} {bound : Nat}
  {coerceTo wider : TypeRef → InputValue → Result CoercionError Value}

theorem coerceScalar_succ (name : String) (codec : ScalarCodec) (value : InputValue) :
    Approximates (coerceScalar bindings bound name codec value).run
      (coerceScalar bindings (bound + 1) name codec value).run := by
  unfold coerceScalar
  cases hraw : value.toValue bindings bound with
  | none => exact .none _
  | some raw =>
    rw [InputValue.toValue_succ bindings bound value raw hraw]
    exact .refl _

theorem coerceField_approximates (h : ∀ type value,
      Approximates (coerceTo type value).run (wider type value).run)
    (inputType : String) (supplied : Entries InputValue) (name : String) (field : InputField) :
    Approximates (coerceField bindings coerceTo inputType supplied name field).run
      (coerceField bindings wider inputType supplied name field).run := by
  unfold coerceField
  split
  · exact h _ _
  · exact .refl _

theorem coerceObject_approximates (h : ∀ type value,
      Approximates (coerceTo type value).run (wider type value).run)
    (name : String) (fields : Entries InputField) (value : InputValue) :
    Approximates (coerceObject bindings coerceTo name fields value).run
      (coerceObject bindings wider name fields value).run := by
  unfold coerceObject
  split
  · split
    · exact .refl _
    · refine bind_approximates (mapM_approximates fields fun entry _ => ?_) fun _ => .refl _
      exact bind_approximates (coerceField_approximates h _ _ _ _) fun _ => .refl _
  · exact .refl _

theorem coerceNamed_succ (h : ∀ type value,
      Approximates (coerceTo type value).run (wider type value).run)
    (name : String) (value : InputValue) :
    Approximates (coerceNamed types bindings bound coerceTo name value).run
      (coerceNamed types bindings (bound + 1) wider name value).run := by
  unfold coerceNamed
  split
  · exact coerceScalar_succ _ _ _
  · split
    · exact .refl _
    · split
      · exact coerceObject_approximates h _ _ _
      · exact .refl _

end Coercion

open Coercion

variable {types : Types} {bindings : Variables} {bound more : Nat}

theorem coerce_succ (types : Types) (bindings : Variables) (bound : Nat) (type : TypeRef)
    (written : InputValue) :
    Approximates (coerce types bindings bound type written).run
      (coerce types bindings (bound + 1) type written).run := by
  induction bound generalizing type written with
  | zero => exact .none _
  | succ bound ih =>
    rw [coerce.eq_def _ _ (bound + 1), coerce.eq_def _ _ (bound + 1 + 1)]
    dsimp only
    split
    · exact .refl _
    · split
      · exact .refl _
      · exact ih _ _
      · exact .refl _
      · exact bind_approximates (mapM_approximates _ fun item _ => ih _ item) fun _ => .refl _
      · exact bind_approximates (ih _ _) fun _ => .refl _
      · exact coerceNamed_succ ih _ _
      · exact .refl _

/-- A larger bound keeps what a value is coerced to. -/
theorem coerce_le (type : TypeRef) (written : InputValue) (h : bound ≤ more) :
    Approximates (coerce types bindings bound type written).run
      (coerce types bindings more type written).run :=
  Approximates.of_succ (fun bound => coerce_succ types bindings bound type written) h

theorem coerceArgument_succ (field : Field) (argument : Argument) :
    Approximates (coerceArgument types bindings bound field argument).run
      (coerceArgument types bindings (bound + 1) field argument).run := by
  unfold coerceArgument
  split
  · exact coerce_succ _ _ _ _ _
  · split
    · exact .refl _
    · exact coerce_succ _ _ _ _ _

/-- A larger bound keeps what the arguments of a field are coerced to. -/
theorem coerceArguments_le (arguments : List Argument) (field : Field) (h : bound ≤ more) :
    Approximates (coerceArguments types bindings bound arguments field).run
      (coerceArguments types bindings more arguments field).run := by
  have hsucc : ∀ bound, Approximates
      (coerceArguments types bindings bound arguments field).run
      (coerceArguments types bindings (bound + 1) arguments field).run := by
    intro bound
    unfold coerceArguments
    refine bind_approximates (mapM_approximates arguments fun argument _ => ?_) fun _ => .refl _
    refine bind_approximates ?_ fun _ => .refl _
    exact (coerceArgument_succ field argument).map _
  exact Approximates.of_succ hsucc h

/-- Two bounds that suffice coerce arguments alike. -/
theorem coerceArguments_unique {arguments : List Argument} {field : Field}
    {first second : Except (String × CoercionError) Fields}
    (hfirst : (coerceArguments types bindings bound arguments field).run = some first)
    (hsecond : (coerceArguments types bindings more arguments field).run = some second) :
    first = second :=
  Approximates.unique (fun _ _ h => coerceArguments_le arguments field h) hfirst hsecond

end GraphQL

import GraphQL.Proofs.Elimination

/-!
# Coercion without variables

Coercing the arguments of a field comes to the same as coercing those of the field from which
variables have been eliminated, without any variables. The proof goes along with coercion. One step
resolves the value on the left; on the right it has been resolved already, and both have the same
form. Only the texts of offending values in messages can differ (`Coercion.Follows`). That both
coercions answer at all is `coerceArguments_finishes`.

Results:
* `coerce_follows`: whatever a value is coerced to, its rewriting is coerced to the same.
* `eliminated_variables`: coercing the arguments of a field and of the rewritten field gives the
  same.
* `repeated_argument_differs`: of repeated arguments all have to be left out together.
-/

namespace GraphQL

/-! ## Following a coercion -/

/-- The error without the text of the value at fault. -/
def CoercionError.unquoted : CoercionError → CoercionError
  | .invalidValue expected _ => .invalidValue expected ""
  | .invalidEnumValue enumType _ => .invalidEnumValue enumType ""
  | error => error

variable {types : Types} {bindings : Variables} {arguments : List Argument}

namespace Coercion

section Follows

variable {ε φ α β γ : Type} {f : ε → φ}

/-- Whenever the first coercion answers, the second one does, with the same value or with an error
    that `f` takes for the same. -/
def Follows (f : ε → φ) (first second : Result ε α) : Prop :=
  ∀ outcome, first.run = some outcome →
    ∃ other, second.run = some other ∧ other.mapError f = outcome.mapError f

theorem Follows.refl (x : Result ε α) : Follows f x x := fun outcome h => ⟨outcome, h, rfl⟩

theorem Follows.settled {first second : Except ε α}
    (h : second.mapError f = first.mapError f) :
    Follows f (settled first) (Coercion.settled second) := by
  rintro _ ⟨⟩
  exact ⟨second, rfl, h⟩

theorem Follows.bind {x y : Result ε α} {next following : α → Result ε β} (h : Follows f x y)
    (hnext : ∀ a, Follows f (next a) (following a)) : Follows f (x >>= next) (y >>= following) := by
  intro outcome houtcome
  obtain ⟨first, hfirst, houtcome⟩ := Option.bind_eq_some_iff.mp houtcome
  obtain ⟨other, hother, hsame⟩ := h first hfirst
  cases first with
  | error e =>
    cases other with
    | ok a => cases hsame
    | error e' =>
      cases houtcome
      refine ⟨.error e', Option.bind_eq_some_iff.mpr ⟨_, hother, rfl⟩, ?_⟩
      simpa [Except.mapError] using hsame
  | ok a =>
    cases other with
    | error e' => cases hsame
    | ok a' =>
      cases hsame
      obtain ⟨last, hlast, hsame⟩ := hnext a outcome houtcome
      exact ⟨last, Option.bind_eq_some_iff.mpr ⟨_, hother, hlast⟩, hsame⟩

theorem Follows.mapM {g h : α → Result ε β} {items : List α}
    (hitems : ∀ item ∈ items, Follows f (g item) (h item)) :
    Follows f (items.mapM g) (items.mapM h) := by
  induction items with
  | nil => exact .refl _
  | cons item rest ih =>
    rw [List.mapM_cons, List.mapM_cons]
    refine (hitems item List.mem_cons_self).bind fun first => ?_
    exact (ih fun item hm => hitems item (List.mem_cons_of_mem _ hm)).bind fun _ => .refl _

theorem Follows.named {f : CoercionError → φ} {x y : Result CoercionError α} (h : Follows f x y)
    (name : String) : Follows (Prod.map id f) (named name x) (Coercion.named name y) := by
  intro outcome houtcome
  obtain ⟨first, hfirst, rfl⟩ := Option.map_eq_some_iff.mp houtcome
  obtain ⟨other, hother, hsame⟩ := h first hfirst
  refine ⟨_, Option.map_eq_some_iff.mpr ⟨other, hother, rfl⟩, ?_⟩
  cases first <;> cases other <;> simp_all [Except.mapError]

end Follows

variable {bound : Nat}

theorem coerceBuiltin_eliminate {value : InputValue} (hvar : ∀ name, value ≠ .var name)
    (position : Option TypeRef) (type : TypeRef) :
    (coerceBuiltin type (value.eliminate types bindings position)).mapError
        CoercionError.unquoted =
      (coerceBuiltin type value).mapError CoercionError.unquoted := by
  cases value with
  | var name => exact absurd rfl (hvar name)
  | list items => cases type <;> rfl
  | object fields => cases type <;> rfl
  | _ => rfl

theorem coerceEnum_eliminate {value : InputValue} (hvar : ∀ name, value ≠ .var name)
    (position : Option TypeRef) (name : String) (values : List String) :
    (coerceEnum name values (value.eliminate types bindings position)).mapError
        CoercionError.unquoted =
      (coerceEnum name values value).mapError CoercionError.unquoted := by
  cases value with
  | var name => exact absurd rfl (hvar name)
  | _ => rfl

theorem coerceScalar_follows (hclosed : bindings.Closed) (name : String) (codec : ScalarCodec)
    (value : InputValue) :
    Follows CoercionError.unquoted (coerceScalar bindings bound name codec value)
      (coerceScalar [] bound name codec (value.eliminate types bindings none)) := by
  unfold coerceScalar
  cases hraw : value.toValue bindings bound with
  | none => rintro _ ⟨⟩
  | some raw =>
    rw [InputValue.toValue_eliminate hclosed bound bound value raw hraw]
    exact .refl _

/-! ## One step -/

/-- What the induction on the bound gives of everything that lies below. -/
def FollowsTo (types : Types) (bindings : Variables) (bound : Nat) : Prop :=
  ∀ type written, Follows CoercionError.unquoted (coerce types bindings bound type written)
    (coerce types [] bound type (written.eliminate types bindings (some type)))

theorem coerceField_follows (hclosed : bindings.Closed) (ih : FollowsTo types bindings bound)
    (inputType : String) (position : String → Option TypeRef) {declared : String → Bool}
    (supplied : Entries InputValue) {name : String} {field : InputField}
    (hdeclared : declared name = true) (hposition : position name = some field.type) :
    Follows CoercionError.unquoted
      (coerceField bindings (coerce types bindings bound) inputType supplied name field)
      (coerceField [] (coerce types [] bound) inputType
        (InputValue.eliminateEntries types bindings position
          (InputValue.leftOut bindings declared supplied) supplied) name field) := by
  unfold coerceField
  rw [InputValue.find?_eliminateEntries position supplied hdeclared, hposition]
  cases (Entries.find? supplied name).filter fun value => !isUnset bindings value with
  | none => exact .refl _
  | some value =>
    have hset : isUnset [] (value.eliminate types bindings (some field.type)) = false :=
      InputValue.isUnset_of_references (InputValue.references_eliminate hclosed value)
    simp only [Option.map_some, Option.filter, hset]
    exact ih field.type value

theorem coerceObject_follows (hclosed : bindings.Closed) (ih : FollowsTo types bindings bound)
    {name : String} {fields : Entries InputField}
    (htype : types.inputType? name = some (.object fields)) (hfields : (Entries.keys fields).Nodup)
    {value : InputValue} (hvar : ∀ name, value ≠ .var name) :
    Follows CoercionError.unquoted
      (coerceObject bindings (coerce types bindings bound) name fields value)
      (coerceObject [] (coerce types [] bound) name fields
        (value.eliminate types bindings (some (.named name)))) := by
  have hposition : types.inputFields (some (.named name)) = fields := by
    simp [Types.inputFields, TypeRef.innerName?, htype]
  cases value with
  | object supplied =>
    simp only [InputValue.eliminate, hposition, coerceObject]
    rw [InputValue.find?_keys_eliminateEntries]
    split
    · exact .refl _
    · refine Follows.bind (Follows.mapM fun entry hm => ?_) fun _ => .refl _
      have hfind := Entries.find?_of_mem hfields hm
      refine (coerceField_follows hclosed ih name _ supplied ?_ ?_).bind fun _ => .refl _
      · rw [Entries.has, hfind, Option.isSome_some]
      · rw [hfind, Option.map_some]
  | var name => exact absurd rfl (hvar name)
  | _ => exact .settled rfl

theorem coerceNamed_follows (hclosed : bindings.Closed) (htypes : types.DistinctFields)
    (ih : FollowsTo types bindings bound) (name : String) {value : InputValue}
    (hvar : ∀ name, value ≠ .var name) :
    Follows CoercionError.unquoted
      (coerceNamed types bindings bound (coerce types bindings bound) name value)
      (coerceNamed types [] bound (coerce types [] bound) name
        (value.eliminate types bindings (some (.named name)))) := by
  rw [coerceNamed_eq, coerceNamed_eq]
  cases htype : types.inputType? name with
  | none => exact .refl _
  | some inputType =>
    cases inputType with
    | scalar codec =>
      rw [InputValue.eliminate_scalar htype]
      exact coerceScalar_follows hclosed name codec value
    | enum values => exact .settled (coerceEnum_eliminate hvar _ name values)
    | object fields =>
      have hfields := htypes _ (Types.mem_inputs_of_inputType? htype)
      exact coerceObject_follows hclosed ih htype hfields hvar

/-- What has been resolved and is not null stays so. -/
theorem eliminate_ne_null {value : InputValue} (hvar : ∀ name, value ≠ .var name)
    (hnull : value ≠ .null) (position : Option TypeRef) :
    value.eliminate types bindings position ≠ .null := by
  cases value with
  | null => exact absurd rfl hnull
  | var name => exact absurd rfl (hvar name)
  | _ => exact fun he => by cases he

/-- What is no list stays so. -/
theorem eliminate_ne_list {value : InputValue} (hvar : ∀ name, value ≠ .var name)
    (hlist : ∀ items, value ≠ .list items) (position : Option TypeRef) (items : List InputValue) :
    value.eliminate types bindings position ≠ .list items := by
  cases value with
  | list items => exact absurd rfl (hlist items)
  | var name => exact absurd rfl (hvar name)
  | _ => exact fun he => by cases he

/-- One step, once the value has been resolved. -/
theorem coerce_follows_succ (hclosed : bindings.Closed) (htypes : types.DistinctFields)
    (ih : FollowsTo types bindings bound) (type : TypeRef) {value : InputValue}
    (hvar : ∀ name, value ≠ .var name) :
    Follows CoercionError.unquoted (coerce types bindings (bound + 1) type value)
      (coerce types [] (bound + 1) type (value.eliminate types bindings (some type))) := by
  have hwritten : ∀ (value : InputValue) position name,
      value.eliminate types bindings position ≠ .var name := fun value _ =>
    InputValue.ne_var_of_references (InputValue.references_eliminate hclosed value)
  refine step_induction ?null ?nonNull ?list ?single ?named ?builtin type value hvar
  case null =>
    intro type
    cases type <;> exact .refl _
  case nonNull =>
    intro inner value hvar hnull _
    rw [coerce_nonNull hvar hnull,
      coerce_nonNull (hwritten value _) (eliminate_ne_null hvar hnull _),
      InputValue.eliminate_nonNull]
    exact ih inner value
  case list =>
    intro item items
    rw [InputValue.eliminate, coerce_list, coerce_list, InputValue.eliminateItems_eq_map,
      List.mapM_map]
    exact (Follows.mapM fun value _ => ih item value).bind fun _ => .refl _
  case single =>
    intro item value hvar hnull hlist _
    rw [coerce_single hvar hnull hlist,
      coerce_single (hwritten value _) (eliminate_ne_null hvar hnull _)
        (eliminate_ne_list hvar hlist _),
      InputValue.eliminate_list hlist]
    exact (ih item value).bind fun _ => .refl _
  case named =>
    intro name value hvar hnull
    rw [coerce_named hvar hnull,
      coerce_named (hwritten value _) (eliminate_ne_null hvar hnull _)]
    exact coerceNamed_follows hclosed htypes ih name hvar
  case builtin =>
    intro type value hvar hnull hbuiltin
    rw [coerce_builtin hvar hnull hbuiltin,
      coerce_builtin (hwritten value _) (eliminate_ne_null hvar hnull _) hbuiltin]
    exact .settled (coerceBuiltin_eliminate hvar _ type)

end Coercion

open Coercion

/-- Whatever a value is coerced to, its rewriting is coerced to the same without variables. -/
theorem coerce_follows (hclosed : bindings.Closed) (htypes : types.DistinctFields) (bound : Nat) :
    FollowsTo types bindings bound := by
  induction bound with
  | zero => exact fun _ _ _ h => nomatch h
  | succ bound ih =>
    intro type written
    by_cases hvar : ∃ name, written = .var name
    · obtain ⟨name, rfl⟩ := hvar
      have hnone := hclosed.references_getD name
      have hsame : (InputValue.var name).eliminate types bindings (some type) =
          ((Entries.find? bindings name).getD .null).eliminate types bindings (some type) :=
        (InputValue.eliminate_of_references hnone).symm
      rw [coerce_of_resolve (resolve_var hclosed name), hsame]
      exact coerce_follows_succ hclosed htypes ih type (InputValue.ne_var_of_references hnone)
    · exact coerce_follows_succ hclosed htypes ih type fun name he => hvar ⟨name, he⟩

/-! ## Arguments -/

theorem coerceArgument_follows (hclosed : bindings.Closed) (htypes : types.DistinctFields)
    (harguments : ∀ one ∈ arguments, ∀ other ∈ arguments,
      one.name = other.name → one.type = other.type)
    {argument : Argument} (hm : argument ∈ arguments) (bound : Nat) (field : Field) :
    Follows CoercionError.unquoted (coerceArgument types bindings bound field argument)
      (coerceArgument types [] bound (field.eliminate types bindings arguments) argument) := by
  have hposition : (arguments.find? (·.name = argument.name)).map Argument.type =
      some argument.type := by
    cases hfind : arguments.find? (·.name = argument.name) with
    | none => simpa using List.find?_eq_none.mp hfind argument hm
    | some other =>
      have hname : other.name = argument.name := by simpa using List.find?_some hfind
      rw [Option.map_some, harguments other (List.mem_of_find?_eq_some hfind) argument hm hname]
  have hargument : (field.eliminate types bindings arguments).argument? argument.name =
      ((field.argument? argument.name).filter fun value => !isUnset bindings value).map
        (InputValue.eliminate types bindings (some argument.type)) := by
    rw [← hposition]
    exact InputValue.find?_eliminateEntries _ field.arguments rfl
  unfold coerceArgument
  rw [hargument]
  cases (field.argument? argument.name).filter fun value => !isUnset bindings value with
  | none =>
    simp only [Option.map_none, Option.filter_none]
    cases argument.defaultValue with
    | some value => exact .refl _
    | none => exact coerce_follows hclosed htypes bound argument.type .null
  | some value =>
    have hset : isUnset [] (value.eliminate types bindings (some argument.type)) = false :=
      InputValue.isUnset_of_references (InputValue.references_eliminate hclosed value)
    simp only [Option.map_some, Option.filter, hset]
    exact coerce_follows hclosed htypes bound argument.type value

theorem coerceArguments_follows (hclosed : bindings.Closed) (htypes : types.DistinctFields)
    (harguments : ∀ one ∈ arguments, ∀ other ∈ arguments,
      one.name = other.name → one.type = other.type) (bound : Nat) (field : Field) :
    Follows (Prod.map id CoercionError.unquoted)
      (coerceArguments types bindings bound arguments field)
      (coerceArguments types [] bound arguments (field.eliminate types bindings arguments)) := by
  unfold coerceArguments
  refine Follows.bind (Follows.mapM fun argument hm => ?_) fun _ => .refl _
  refine Follows.bind (Follows.named ?_ argument.name) fun _ => .refl _
  exact coerceArgument_follows hclosed htypes harguments hm bound field

/-! ## Elimination -/

/-- Variables can be eliminated from the arguments of a field beforehand. The rewritten field has no
    references left, and coercing its arguments without variables answers like coercing those of the
    field: both succeed with the same arguments, or both fail at the same argument with the same
    error, the text of the value at fault aside. -/
theorem eliminated_variables (hclosed : bindings.Closed) (htypes : types.DistinctFields)
    (harguments : ∀ one ∈ arguments, ∀ other ∈ arguments,
      one.name = other.name → one.type = other.type) (field : Field) :
    (∀ entry ∈ (field.eliminate types bindings arguments).arguments, entry.2.references = []) ∧
    ∃ bound outcome other, ∀ more ≥ bound,
      (coerceArguments types bindings more arguments field).run = some outcome ∧
      (coerceArguments types [] more arguments
        (field.eliminate types bindings arguments)).run = some other ∧
      other.mapError (Prod.map id CoercionError.unquoted) =
        outcome.mapError (Prod.map id CoercionError.unquoted) := by
  constructor
  · intro entry hm
    rw [FieldSelection.eliminate, InputValue.eliminateEntries_eq] at hm
    obtain ⟨_, -, rfl⟩ := List.mem_map.mp hm
    exact InputValue.references_eliminate hclosed _
  · have hfinishes : Finishes fun bound =>
        (coerceArguments types bindings bound arguments field).run :=
      coerceArguments_finishes hclosed arguments field
    obtain ⟨bound, outcome, hanswers⟩ := hfinishes
    obtain ⟨other, hother, hsame⟩ := coerceArguments_follows hclosed htypes harguments bound field
      outcome (hanswers bound (Nat.le_refl bound))
    exact ⟨bound, outcome, other, fun more hle =>
      ⟨hanswers more hle, coerceArguments_le _ _ hle other hother, hsame⟩⟩

/-- If an argument is repeated, the first one counts even when it is a variable that is not set.
    Leaving out that variable alone would let the next one count. -/
theorem repeated_argument_differs :
    let argument : Argument := ⟨"size", .int, none⟩
    let field : Field :=
      ⟨none, "ship", [("size", .var "unset"), ("size", .int 1)], [], false, {}, ⟨1, 1⟩⟩
    let rewritten : Field :=
      { field with arguments := field.arguments.filter fun entry => !isUnset [] entry.2 }
    ∀ bound, (coerceArguments {} [] (bound + 1) [argument] field).run =
        some (.ok [("size", .null)]) ∧
      (coerceArguments {} [] (bound + 1) [argument] rewritten).run =
        some (.ok [("size", .int 1)]) :=
  fun _ => ⟨rfl, rfl⟩

namespace Sample

/-- An input object with a default, and a scalar that reads anything. -/
def rangeTypes : Types where
  inputs := [("Range", [("low", { type := .int, defaultValue := some (.int 1) }),
    ("high", { type := .nonNull .int })])]
  scalars := [("JSON", .json)]

def rangeArguments : List Argument :=
  [⟨"range", .list (.named "Range"), none⟩, ⟨"raw", .named "JSON", none⟩,
    ⟨"sizes", .list .int, none⟩]

/-- Refers to a variable that is set and to one that is not, in every kind of place. -/
def rangeField : Field where
  aliasName := none
  name := "ships"
  arguments := [("range", .object [("low", .var "unset"), ("high", .var "top")]),
    ("raw", .object [("low", .var "unset"), ("high", .var "top")]),
    ("sizes", .list [.var "unset", .var "top"]), ("more", .var "unset")]
  selections := []
  composite := false
  guard := {}
  location := ⟨1, 1⟩

def rangeVariables : Variables := [("top", .int 9)]

end Sample

/-- The variable that is not set is left out of the range only. -/
theorem eliminated_variables_range :
    (Sample.rangeField.eliminate Sample.rangeTypes Sample.rangeVariables
        Sample.rangeArguments).arguments =
      [("range", .object [("high", .int 9)]), ("raw", .object [("low", .null), ("high", .int 9)]),
        ("sizes", .list [.null, .int 9])] ∧
    ∃ bound outcome, ∀ more ≥ bound,
      (coerceArguments Sample.rangeTypes Sample.rangeVariables more Sample.rangeArguments
        Sample.rangeField).run = some outcome ∧
      outcome.mapError (Prod.map id CoercionError.unquoted) = .ok
        [("range", .list [.object [("low", .int 1), ("high", .int 9)]]),
          ("raw", .object [("low", .null), ("high", .int 9)]),
          ("sizes", .list [.null, .int 9])] := by
  have hclosed : Sample.rangeVariables.Closed := by
    intro name value h
    simp only [Sample.rangeVariables, Entries.find?_cons, Entries.find?_nil] at h
    split at h <;> cases h
    rfl
  have htypes : Sample.rangeTypes.DistinctFields := by
    intro input hinput
    rw [List.mem_singleton.mp hinput]
    decide
  have harguments : ∀ one ∈ Sample.rangeArguments, ∀ other ∈ Sample.rangeArguments,
      one.name = other.name → one.type = other.type := type_eq_of_nodup (by decide)
  obtain ⟨-, bound, outcome, other, hanswers⟩ :=
    eliminated_variables hclosed htypes harguments Sample.rangeField
  refine ⟨rfl, bound, outcome, fun more hle => ⟨(hanswers more hle).1, ?_⟩⟩
  obtain ⟨-, hother, hsame⟩ := hanswers more hle
  have hother' : (coerceArguments Sample.rangeTypes [] 9 Sample.rangeArguments
      (Sample.rangeField.eliminate Sample.rangeTypes Sample.rangeVariables
        Sample.rangeArguments)).run = some (.ok _) := rfl
  rw [← hsame, coerceArguments_unique hother hother']
  rfl

end GraphQL

import GraphQL.Proofs.Correspondence
import GraphQL.Proofs.RootData

/-!
# What bared fields show

Where one of two executions bares a field and its value shows that, the two come to different values:
an object is empty in the one and fails in the other, a leaf has no fields in the one and all of them
in the other. What stands above holds these values, so the difference is seen in the data.

Results:
* `Context.Alike.value_ne_of_bared`: the values of a bared field.
* `Context.Alike.value_ne_of_bares`: the values of what it is a part of.
* `Context.Alike.data_ne_of_baresFields`: the data of two responses.
-/

namespace GraphQL

variable {ref : Type}

/-- If all fields of an object failed, its values are null. -/
theorem Context.eq_null_of_allFailed {context : Context ref} {bound width start : Nat}
    {object : ObjectType ref} {path : Path} {selections : List Selection} {timed : Timed Outcomes}
    (h : context.executeFields bound width object path selections start = some timed)
    (hfailed : timed.value.allFailed = true) {key : String} {value : Value}
    (hvalue : Entries.find? timed.value.fields key = some value) : value = .null := by
  obtain ⟨-, hfaults⟩ := ((faultRules context).holds bound).fields h
  have hmarked := ((markingRules context).holds bound).fields h
  rw [Outcomes.fields, Entries.find?_mapValues, Option.map_eq_some_iff] at hvalue
  obtain ⟨outcome, houtcome, rfl⟩ := hvalue
  have hm := Entries.mem_of_find? houtcome
  obtain ⟨-, hall⟩ := (Outcomes.allFailed_iff_forall _).mp hfailed
  obtain ⟨error, herror, hpath⟩ := (hmarked _ hm).of_failed (hall _ hm)
  exact ((hfaults _ hm).null_of_path_eq herror hpath).1

namespace Context.Alike

variable {context twin : Context ref}
  {related : List Selection → List Selection → Prop} (h : context.Alike twin related)
  {bound more start begun : Nat} {path : Path}

include h

/-- A bared field that shows has different values. -/
theorem value_ne_of_bared {task task' : Task ref} (halike : task.Alike related task')
    (hbared : task.Bared context.types task') {run run' : Timed Outcome}
    (hrun : context.perform bound path task start = some run)
    (hrun' : twin.perform more path task' begun = some run') :
    run.value.value ≠ run'.value.value := by
  cases hbared with
  | object hbared =>
    cases bound with
    | zero => cases hrun
    | succ bound =>
      cases more with
      | zero => cases hrun'
      | succ more =>
        simp only [perform, completeValue, hbared.1, ite_true, Job.map_eq_some_iff] at hrun
        simp only [perform, completeValue, hbared.2, Bool.false_eq_true, ite_false,
          Job.done_eq_some_iff] at hrun'
        obtain ⟨outcomes, -, rfl⟩ := hrun
        subst hrun'
        intro hvalue
        cases hvalue
  | leaf hbared hne =>
    cases halike with
    | value hfield =>
      have hnothing := h.corresponds.collect_eq_nil hfield hbared.2
      cases bound with
      | zero => cases hrun
      | succ bound =>
        cases more with
        | zero => cases hrun'
        | succ more =>
          simp only [perform, completeValue, hbared.1, ite_true, Record.pick_hollow hnothing,
            Job.done_eq_some_iff] at hrun
          simp only [perform, completeValue, hbared.2, Bool.false_eq_true, ite_false,
            h.types.completeLeaf, Job.done_eq_some_iff] at hrun'
          subst hrun hrun'
          exact hne
  | entry hbared hname hfind hne =>
    cases halike with
    | entry hfield =>
      have hnothing := h.corresponds.collect_eq_nil hfield hbared.2
      have hname' := hfield.name.trans_ne hname
      rw [perform, Record.pickField_of_find? hname hfind, if_pos hbared.1,
        Record.pick_hollow hnothing, Job.done_eq_some_iff] at hrun
      rw [perform, Record.pickField_of_find? hname' (hfield.name ▸ hfind), hbared.2,
        Job.done_eq_some_iff] at hrun'
      subst hrun hrun'
      exact hne

/-- Tasks that come to a bared field have different values. -/
theorem value_ne_of_bares {task task' : Task ref} (halike : task.Alike related task')
    (hbares : context.Bares twin (path, task) (path, task')) {run run' : Timed Outcome}
    (hrun : context.perform bound path task start = some run)
    (hrun' : twin.perform more path task' begun = some run') :
    run.value.value ≠ run'.value.value := by
  generalize hone : (path, task) = one at hbares
  generalize hother : (path, task') = other at hbares
  induction hbares generalizing path task task' bound more start begun run run' with
  | here hbared =>
    cases hone
    cases hother
    exact h.value_ne_of_bared halike hbared hrun hrun'
  | step hinner hinner' _ ih =>
    subst hone hother
    obtain ⟨_, _, first, hfirst, hshows⟩ := hinner.shows hrun
    obtain ⟨_, _, second, hsecond, hshows'⟩ := hinner'.shows hrun'
    have hne := ih (h.comprises halike hinner hinner' rfl) hfirst hsecond rfl rfl
    obtain ⟨rest, hplace, hat⟩ := hshows.value
    obtain ⟨rest', hplace', hat'⟩ := hshows'.value
    obtain rfl := List.append_cancel_left (hplace.symm.trans hplace')
    intro hvalue
    rw [hvalue, hat'] at hat
    exact hne (Option.some.inj hat).symm

variable {object double : ObjectType ref} {selections others : List Selection} {width slots : Nat}
  {timed timed' : Timed Outcomes}

/-- Objects that come to a bared field have different values under one of the keys. -/
theorem exists_value_ne_of_baresFields (hobject : object.Alike double)
    (hrelated : related selections others)
    (hbares : context.BaresFields twin path object double selections others)
    (hrun : context.executeFields bound width object path selections start = some timed)
    (hrun' : twin.executeFields more slots double path others begun = some timed') :
    ∃ key value value', Entries.find? timed.value.fields key = some value ∧
      Entries.find? timed'.value.fields key = some value' ∧ value ≠ value' := by
  obtain ⟨key, one, other, hone, hother, hbares⟩ := hbares
  obtain ⟨_, _, first, hfirst, hshows⟩ := shows_of_mem hrun hone
  obtain ⟨_, _, second, hsecond, hshows'⟩ := shows_of_mem hrun' hother
  rw [hobject.name] at hother
  exact ⟨key, _, _, hshows.find?_key, hshows'.find?_key, h.value_ne_of_bares
    (.field hobject (h.alike_of_mem_collect hrelated hone hother)) hbares hfirst hsecond⟩

/-- Root objects that come to a bared field give responses with different data. -/
theorem data_ne_of_baresFields (hobject : object.Alike double)
    (hrelated : related selections others)
    (hbares : context.BaresFields twin path object double selections others)
    (hrun : context.executeFields bound width object path selections start = some timed)
    (hrun' : twin.executeFields more slots double path others begun = some timed') :
    timed.value.response.data ≠ timed'.value.response.data := by
  obtain ⟨key, value, value', hvalue, hvalue', hne⟩ :=
    h.exists_value_ne_of_baresFields hobject hrelated hbares hrun hrun'
  intro hdata
  replace hdata := Option.some.inj hdata
  cases hfailed : timed.value.allFailed with
  | true =>
    cases hfailed' : timed'.value.allFailed with
    | true =>
      have hnull := eq_null_of_allFailed hrun hfailed hvalue
      have hnull' := eq_null_of_allFailed hrun' hfailed' hvalue'
      exact hne (hnull.trans hnull'.symm)
    | false =>
      rw [hfailed, hfailed'] at hdata
      cases hdata
  | false =>
    cases hfailed' : timed'.value.allFailed with
    | true =>
      rw [hfailed, hfailed'] at hdata
      cases hdata
    | false =>
      rw [hfailed, hfailed'] at hdata
      have hfields := Value.object.inj hdata
      rw [hfields, hvalue'] at hvalue
      exact hne (Option.some.inj hvalue).symm

end Context.Alike

end GraphQL

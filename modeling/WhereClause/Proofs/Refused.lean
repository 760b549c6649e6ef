/-
WhereClause/Proofs/Refused.lean

A refused operation changes nothing.

Nothing is rolled back when work ends early, so this is a matter of the order in
which operations check and change things.  That order was looked at when the outcomes
of operations were found; here they only have to be read.

Operations that are run in a row on the constraint on a field are another matter.
The first of them that is refused changes nothing, and those before it stay
(`Group.Operation.inOrder_refused`), so the filter is left as it was when that
operation was called.  `refused_unchanged` has the two cases and the one of `field`.
-/
import WhereClause.Proofs.Operations

namespace WhereClause

/-! ### Single operations -/

namespace Group

theorem Outcome.eq_of_error {site : Site} {op : Operation} {g h : Group} {reason : Refusal}
    (houtcome : g.Outcome site op h (.error reason)) : h = g := by
  cases houtcome with
  | refused => rfl

theorem Operation.state_of_error {site : Site} {op : Operation} {g : Group} {reason : Refusal}
    (h : ((op.work site).on g).result = .error reason) : ((op.work site).on g).state = g := by
  have houtcome := op.outcome site g
  rw [h] at houtcome
  exact houtcome.eq_of_error

end Group

namespace Filter

variable {f : Filter} {name : String} {reason : Refusal}

theorem state_of_field_error (h : ((field name).on f).result = .error reason) :
    ((field name).on f).state = f := by
  rcases field_cases name f with ⟨reason', hfield⟩ | ⟨c, after, -, -, -, hfield⟩
  · rw [hfield]
  · rw [hfield] at h
    cases h

/-- A refused operation on a filter changes nothing, unless it went on with operations on
a constraint. -/
theorem Outcome.eq_of_error {op : Operation} {h : Filter}
    (houtcome : f.Outcome op h (.error reason))
    (hop : ∀ name operations, op ≠ .constrain name operations) : h = f := by
  generalize hresult : (Except.error reason : Except Refusal Unit) = result at houtcome
  cases houtcome with
  | refused => rfl
  | added _ _ _ => cases hresult
  | constrained _ _ _ => exact absurd rfl (hop _ _)
  | equality _ _ => cases hresult
  | prepared _ _ _ => cases hresult

theorem Operation.state_of_error {op : Operation}
    (hop : ∀ name operations, op ≠ .constrain name operations)
    (h : (op.work.on f).result = .error reason) : (op.work.on f).state = f := by
  have houtcome := op.outcome f
  rw [h] at houtcome
  exact houtcome.eq_of_error hop

end Filter

/-! ### Operations in a row -/

/-- Those of some operations in order that are carried out before one is refused. -/
def Group.Operation.carriedOut (site : Site) (g : Group) : List Operation → List Operation
  | [] => []
  | op :: rest =>
      let run := (op.work site).on g
      match run.result with
      | .ok () => op :: carriedOut site run.state rest
      | .error _ => []

/-- Operations in order come to those that are carried out. -/
theorem Group.Operation.state_inOrder (site : Site) (operations : List Operation) (g : Group) :
    ((inOrder site operations).on g).state = g.after site (carriedOut site g operations) := by
  induction operations generalizing g with
  | nil => rfl
  | cons op rest ih =>
      rw [inOrder, Work.state_bind, carriedOut]
      cases hresult : ((op.work site).on g).result with
      | error reason => exact state_of_error hresult
      | ok _ => exact ih _

/-- If operations in order are refused then one of them is, and those before it are not.
The group stays as they leave it. -/
theorem Group.Operation.inOrder_refused {site : Site} {operations : List Operation} {g : Group}
    {reason : Refusal} (h : ((inOrder site operations).on g).result = .error reason) :
    ∃ before op rest, operations = before ++ op :: rest ∧
      ((inOrder site before).on g).result = .ok () ∧
      ((op.work site).on ((inOrder site before).on g).state).result = .error reason ∧
      ((inOrder site operations).on g).state = ((inOrder site before).on g).state := by
  induction operations generalizing g with
  | nil => cases h
  | cons op rest ih =>
      rcases hrun : (op.work site).on g with ⟨after, result, started⟩
      cases result with
      | error reason' =>
          -- the first operation is the one that is refused
          rw [inOrder, Work.bind_of_error hrun] at h
          cases h
          have hresult : ((op.work site).on g).result = .error reason := by rw [hrun]
          have hstate := state_of_error hresult
          rw [hrun] at hstate
          refine ⟨[], op, rest, rfl, rfl, hresult, ?_⟩
          show ((inOrder site (op :: rest)).on g).state = g
          rw [inOrder, Work.bind_of_error hrun]
          exact hstate
      | ok _ =>
          -- it is one of the rest, and the first one stays
          rw [inOrder, Work.bind_of_ok hrun] at h
          obtain ⟨before, op', rest', rfl, hbefore, hop, hstate⟩ := ih h
          have heq : (inOrder site (op :: before)).on g =
              ⟨((inOrder site before).on after).state, ((inOrder site before).on after).result,
                started + ((inOrder site before).on after).started⟩ := by
            rw [inOrder, Work.bind_of_ok hrun]
          refine ⟨op :: before, op', rest', rfl, ?_, ?_, ?_⟩
          · rw [heq]
            exact hbefore
          · rw [heq]
            exact hop
          · rw [heq, inOrder, Work.bind_of_ok hrun]
            exact hstate

namespace Filter

variable {f : Filter} {name : String} {reason : Refusal}

/-- If operations on the constraint on a field are refused then the field was, and nothing
has changed, or one of the operations was, and the filter is as it was before that one. -/
theorem Operation.constrain_refused {operations : List Group.Operation}
    (h : ((constrain name operations).work.on f).result = .error reason) :
    ((field name).on f).result = .error reason ∧
        ((constrain name operations).work.on f).state = f ∨
      ∃ before op rest, operations = before ++ op :: rest ∧
        ((constrain name before).work.on f).result = .ok () ∧
        (∃ c, ((constrain name before).work.on f).state.constraint? name = some c ∧
          ((op.work c.site).on c.group).result = .error reason) ∧
        ((constrain name operations).work.on f).state =
          ((constrain name before).work.on f).state := by
  rcases constrain_cases name f with ⟨reason', hfield, hwork⟩ | ⟨c, -, hgives, -, hwork⟩
  · rw [work, hwork] at h ⊢
    cases h
    exact .inl ⟨by rw [hfield], rfl⟩
  · simp only [work, hwork, Run.map] at h ⊢
    obtain ⟨before, op, rest, rfl, hbefore, hop, hstate⟩ := Group.Operation.inOrder_refused h
    refine .inr ⟨before, op, rest, rfl, hbefore,
      ⟨{ c with group := ((Group.Operation.inOrder c.site before).on c.group).state }, ?_, hop⟩,
      by rw [hstate]⟩
    rw [constraint?_store, if_pos hgives.name_eq]

end Filter

/-- A refused operation leaves a group or a filter as it was, and so does `field`.  Of
operations in a row on the constraint on a field, those before the refused one stay. -/
theorem refused_unchanged (reason : Refusal) :
    (∀ (site : Site) (op : Group.Operation) (g : Group),
      ((op.work site).on g).result = .error reason → ((op.work site).on g).state = g) ∧
    (∀ (op : Filter.Operation) (f : Filter),
      (∀ name operations, op ≠ .constrain name operations) →
        (op.work.on f).result = .error reason → (op.work.on f).state = f) ∧
    (∀ (name : String) (f : Filter),
      ((Filter.field name).on f).result = .error reason → ((Filter.field name).on f).state = f) ∧
    ∀ (name : String) (operations : List Group.Operation) (f : Filter),
      let run := fun done => (Filter.Operation.constrain name done).work.on f
      (run operations).result = .error reason →
        ((Filter.field name).on f).result = .error reason ∧ (run operations).state = f ∨
        ∃ before op rest, operations = before ++ op :: rest ∧
          (run before).result = .ok () ∧
          (∃ c, (run before).state.constraint? name = some c ∧
            ((op.work c.site).on c.group).result = .error reason) ∧
          (run operations).state = (run before).state := by
  refine ⟨fun site op g h => op.state_of_error h, fun op f hop h => op.state_of_error hop h,
    fun name f h => Filter.state_of_field_error h, ?_⟩
  intro name operations f run h
  exact Filter.Operation.constrain_refused h

/-- A nested group that is refused after its first step, a field that is not allowed, and
steps on a constraint of which the second one is refused. -/
theorem refused_unchanged_steps :
    let steps := [Group.Operation.compare .and "a" (.known .equal) (.of (1 : Int64)),
      .append none (.group {})]
    let op := Group.Operation.group .or fun site => Group.Operation.inOrder site steps
    let g : Group := ⟨none, [.group {}]⟩
    let f := Filter.limited (.ofList ["a"])
    (((op.work .condition).on g).result = .error .connectorRequired ∧
        ((op.work .condition).on g).state = g) ∧
      (((Filter.Operation.set "b" (.field "a")).work.on f).result = .error (.notAllowed "b") ∧
        ((Filter.Operation.set "b" (.field "a")).work.on f).state = f) ∧
      (((Filter.field "b").on f).result = .error (.notAllowed "b") ∧
        ((Filter.field "b").on f).state = f) ∧
      ((Filter.Operation.constrain "a" steps).work.on f).result = .error .connectorRequired ∧
        ∃ before op rest, steps = before ++ op :: rest ∧
          ((Filter.Operation.constrain "a" before).work.on f).result = .ok () ∧
          ((Filter.Operation.constrain "a" steps).work.on f).state =
            ((Filter.Operation.constrain "a" before).work.on f).state := by
  intro steps op g f
  obtain ⟨hgroup, -, -, hconstrain⟩ := refused_unchanged .connectorRequired
  obtain ⟨-, hfilter, hfield, -⟩ := refused_unchanged (.notAllowed "b")
  refine ⟨⟨rfl, hgroup _ _ _ rfl⟩, ⟨rfl, hfilter _ _ nofun rfl⟩, ⟨rfl, hfield _ _ rfl⟩, rfl, ?_⟩
  -- the field is allowed, so it was one of the steps
  rcases hconstrain "a" steps f rfl with ⟨hrefused, -⟩ | ⟨before, op, rest, heq, hok, -, hstate⟩
  · cases hrefused
  · exact ⟨before, op, rest, heq, hok, hstate⟩

end WhereClause

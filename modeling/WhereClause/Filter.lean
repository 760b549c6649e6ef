/-
WhereClause/Filter.lean

Operations on filters.  The operations on the condition are those of any group,
at the site of the filter.  The constraints form a map from field names in the
order in which the fields were first named: a constraint is created when its
field is first asked for, and a new one for a known field takes the place of the
old one.

A constraint has an allow-list of its own.  Whatever comes into a filter, created
or prepared elsewhere, gets the allow-list of the filter.
-/
import WhereClause.Builder

namespace WhereClause

/-- The site of a constraint. -/
def Constraint.site (c : Constraint) : Site :=
  .constraint c.allowed c.name

namespace Filter

/-- A filter without constraints and conditions. -/
def limited (allowed : AllowList) : Filter :=
  ⟨allowed, [], {}⟩

/-- The site of the condition of a filter. -/
def site (f : Filter) : Site :=
  .filter f.allowed

/-! ### The condition -/

/-- A filter with another condition. -/
def withCondition (f : Filter) (condition : Group) : Filter :=
  { f with condition }

/-- Work on the condition of a filter, at its site. -/
def onCondition (work : Site → Work Group Unit) : Work Filter Unit :=
  ⟨fun f => ((work f.site).on f.condition).map f.withCondition⟩

/-- Add a member to the condition. -/
def append (node : Node) (connector : Option Connector) : Work Filter Unit :=
  onCondition fun site => Group.append site node connector

/-- Add a comparison of a field to the condition. -/
def compare (connector : Connector) (field : String) (operator : OperatorName)
    (value : Operand) : Work Filter Unit :=
  onCondition fun site => Group.compare site connector field operator value

/-- Add a nested filter with the same allow-list to the condition. -/
def nestFilter (connector : Connector) (build : Work Filter Unit) : Work Filter Unit :=
  onCondition fun site => Group.nest site connector (limited site.allowed) .filter build

/-! ### The constraints -/

/-- The constraint on a field. -/
def constraint? (f : Filter) (name : String) : Option Constraint :=
  f.constraints.find? fun c => c.name == name

/-- Put a constraint in the place of the one with its name, or at the end. -/
def putConstraint (c : Constraint) : List Constraint → List Constraint
  | [] => [c]
  | d :: rest => if d.name = c.name then c :: rest else d :: putConstraint c rest

/-- Store a constraint under its name. -/
def store (f : Filter) (c : Constraint) : Filter :=
  { f with constraints := putConstraint c f.constraints }

theorem find?_putConstraint (c : Constraint) (constraints : List Constraint) (name : String) :
    (putConstraint c constraints).find? (fun d => d.name == name) =
      if c.name = name then some c else constraints.find? fun d => d.name == name := by
  induction constraints with
  | nil => by_cases h : c.name = name <;> simp [putConstraint, h]
  | cons d rest ih =>
      simp only [putConstraint]
      split
      · next hd => by_cases h : c.name = name <;> simp [hd, h]
      · next hd =>
          by_cases h : d.name = name
          · have hc : ¬ c.name = name := fun hc => hd (h.trans hc.symm)
            simp [h, hc]
          · simp [h, ih]

/-- Storing a constraint changes what is found under its own name only. -/
@[simp] theorem constraint?_store (f : Filter) (c : Constraint) (name : String) :
    (f.store c).constraint? name = if c.name = name then some c else f.constraint? name :=
  find?_putConstraint c f.constraints name

/-- Work on a constraint of a filter, at the site of the constraint. -/
def onConstraint (c : Constraint) (work : Site → Work Group Unit) : Work Filter Unit :=
  ⟨fun f => ((work c.site).on c.group).map fun group => f.store { c with group }⟩

/-- Ask for the constraint on a field, which is created if there is none. -/
def field (name : String) : Work Filter Constraint := do
  let f ← .look
  .demand (f.allowed.check [name])
  match f.constraint? name with
  | some c => return c
  | none =>
      let c : Constraint := ⟨name, {}, f.allowed⟩
      .change fun f => { f with constraints := f.constraints ++ [c] }
      return c

theorem field_on (name : String) (f : Filter) :
    (field name).on f =
      match f.allowed.check [name], f.constraint? name with
      | .error reason, _ => ⟨f, .error reason, 0⟩
      | .ok (), some c => ⟨f, .ok c, 0⟩
      | .ok (), none =>
          ⟨{ f with constraints := f.constraints ++ [⟨name, {}, f.allowed⟩] },
            .ok ⟨name, {}, f.allowed⟩, 0⟩ := by
  unfold field
  simp only [Work.look_bind, Work.demand_bind]
  rcases f.allowed.check [name] with reason | -
  · rfl
  · rcases f.constraint? name with - | c
    · rfl
    · rfl

/-- Work on the constraint on a field. -/
def constrain (name : String) (work : Site → Work Group Unit) : Work Filter Unit := do
  onConstraint (← field name) work

/-- Replace the constraint on a field by an equality. -/
def set (name : String) (value : Operand) : Work Filter Unit := do
  let f ← .look
  .demand (f.allowed.check [name])
  let c : Constraint := ⟨name, {}, f.allowed⟩
  let group ← .aside c.group (Group.compare c.site .and name (.known .equal) value)
  .change fun f => f.store { c with group }

theorem set_on (name : String) (value : Operand) (f : Filter) :
    (set name value).on f =
      let made := (Group.compare (.constraint f.allowed name) .and name (.known .equal) value).on {}
      match f.allowed.check [name], made.result with
      | .error reason, _ => ⟨f, .error reason, 0⟩
      | .ok (), .error reason => ⟨f, .error reason, made.started⟩
      | .ok (), .ok () => ⟨f.store ⟨name, made.state, f.allowed⟩, .ok (), made.started⟩ := by
  have hsite : Constraint.site ⟨name, {}, f.allowed⟩ = .constraint f.allowed name := rfl
  unfold set
  simp only [Work.look_bind, Work.demand_bind, Work.aside_bind, hsite]
  rcases f.allowed.check [name] with reason | -
  · rfl
  · rcases (Group.compare (.constraint f.allowed name) .and name (.known .equal) value).on {} with
      ⟨made, reason | -, started⟩
    · rfl
    · rfl

/-- Replace the constraint on a field by a prepared one, which has to be on the
same field. -/
def setConstraint (name : String) (c : Constraint) : Work Filter Unit := do
  .demand (if c.name = name then .ok () else .error (.foreignName name c.name))
  let f ← .look
  .demand (f.allowed.check [name])
  .demand (f.allowed.check c.group.mentions)
  .change fun f => f.store { c with allowed := f.allowed }

theorem setConstraint_on (name : String) (c : Constraint) (f : Filter) :
    (setConstraint name c).on f =
      if c.name = name then
        match f.allowed.check [name], f.allowed.check c.group.mentions with
        | .error reason, _ => ⟨f, .error reason, 0⟩
        | .ok (), .error reason => ⟨f, .error reason, 0⟩
        | .ok (), .ok () => ⟨f.store { c with allowed := f.allowed }, .ok (), 0⟩
      else ⟨f, .error (.foreignName name c.name), 0⟩ := by
  unfold setConstraint
  simp only [Work.look_bind, Work.demand_bind]
  by_cases hname : c.name = name
  · rw [if_pos hname, if_pos hname]
    rcases f.allowed.check [name] with reason | -
    · rfl
    · rcases f.allowed.check c.group.mentions with reason | -
      · rfl
      · rfl
  · rw [if_neg hname, if_neg hname]

end Filter

end WhereClause

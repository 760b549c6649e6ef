/-
WhereClause/Script.lean

Programs of builder operations, as data.

A `Step` is an operation that every builder has; a `FilterStep` may also work on
constraints.  A `Recipe` describes a member that is prepared elsewhere and then
added.  Nested steps run in order until one is refused, and the refusal is then
that of the step around them; `attempt` goes on in spite of a refusal.

Running a step counts the steps that were started, its own and all nested ones.
This shows for instance that the steps of a nested group are not looked at if
its connector is refused.
-/
import WhereClause.Filter

namespace WhereClause

mutual

/-- An operation on the group of a condition, a constraint or a filter. -/
inductive Step where
  | compare (connector : Connector) (field : String) (operator : OperatorName) (value : Operand)
  | append (connector : Option Connector) (recipe : Recipe)
  | group (connector : Connector) (body : List Step)
  | check (connector : Option Connector)
  | attempt (step : Step)

/-- A member that is prepared before it is added. -/
inductive Recipe where
  | comparison (comparison : Comparison)
  | make (field : String) (operator : OperatorName) (value : Operand)
  | group (body : List Step)
  | constraint (name : String) (body : List Step)
  | filter (allowed : AllowList) (body : List FilterStep)

/-- An operation on a filter. -/
inductive FilterStep where
  | shared (step : Step)
  | group (connector : Connector) (body : List FilterStep)
  | constrain (name : String) (body : List Step)
  | set (name : String) (value : Operand)
  | setConstraint (name own : String) (body : List Step)
  | attempt (step : FilterStep)

end

instance : Inhabited Step := ⟨.check none⟩
instance : Inhabited Recipe := ⟨.group []⟩
instance : Inhabited FilterStep := ⟨.shared default⟩

/-! ### Running a script -/

mutual

/-- Run one step on a group. -/
def Step.run : Step → Site → Work Group Unit
  | .compare connector field operator value, site => do
      .count
      Group.compare site connector field operator value
  | .append connector recipe, site => do
      .count
      let node ← recipe.prepare
      Group.append site node connector
  | .group connector body, site => do
      .count
      Group.nestGroup site connector fun inner => runSteps body inner
  | .check connector, _ => do
      .count
      let _ ← .demand ((← .look).check connector)
  | .attempt step, site => (step.run site).tolerated

/-- Run steps in order until one is refused. -/
def runSteps : List Step → Site → Work Group Unit
  | [], _ => return
  | step :: rest, site => do
      step.run site
      runSteps rest site

/-- Prepare the member that a recipe describes, away from the group that it is for. -/
def Recipe.prepare : Recipe → Work Group Node
  | .comparison c => return .test c
  | .make field operator value => do
      let operator ← .demand operator.operator
      return .test (.on field operator value)
  | .group body => return .group (← .aside {} (runSteps body .condition))
  | .constraint name body => return .group (← .aside {} (runSteps body (.constraint .all name)))
  | .filter allowed body => return .filter (← .aside (.limited allowed) (runFilterSteps body))

/-- Run one step on a filter. -/
def FilterStep.run : FilterStep → Work Filter Unit
  | .shared step => Filter.onCondition fun site => step.run site
  | .group connector body => do
      .count
      Filter.nestFilter connector (runFilterSteps body)
  | .constrain name body => do
      .count
      Filter.constrain name fun site => runSteps body site
  | .set name value => do
      .count
      Filter.set name value
  | .setConstraint name own body => do
      .count
      let group ← .aside {} (runSteps body (.constraint .all own))
      Filter.setConstraint name ⟨own, group, .all⟩
  | .attempt step => step.run.tolerated

/-- Run steps in order until one is refused. -/
def runFilterSteps : List FilterStep → Work Filter Unit
  | [] => return
  | step :: rest => do
      step.run
      runFilterSteps rest

end

end WhereClause

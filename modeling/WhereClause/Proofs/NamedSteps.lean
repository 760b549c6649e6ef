/-
WhereClause/Proofs/NamedSteps.lean

Programs of operations on a filter, and the field names in them.

Unlike a `SharedStep` a step here names the field that it is about (`NamedStep`), and only the
steps on a constraint are shared ones, taken at the site of the constraint
(`Builder.atSite`).  `namedSeen` is everything that the steps of a program let see of
themselves, at any depth, and `namedMentions` are all names that the program is given: as
fields, in operands, and in the nodes and constraints that were prepared.

`programs_as_scripts` writes these programs, and those of shared steps, as scripts.
-/
import WhereClause.Proofs.SameBuilder

namespace WhereClause

/-! ### Programs -/

/-- The group of a constraint as a builder.  The site says which field is compared. -/
def Builder.atSite (site : Site) : Builder Group :=
  ofGroup site "" Helper.Shared.inConstraint

/-- A step that filters have.  A helper is a comparison with a known operator. -/
inductive NamedStep where
  | compare (connector : Connector) (field : String) (operator : OperatorName) (value : Operand)
  | append (connector : Option Connector) (node : Node)
  | group (connector : Connector) (body : List NamedStep)
  | constrain (name : String) (body : List SharedStep)
  | set (name : String) (value : Operand)
  | setConstraint (name : String) (c : Constraint)
  | attempt (step : NamedStep)

/-- What is seen of steps that are not begun if a check refuses. -/
def seenBehind {α : Type} (checked : Except Refusal α) (seen : List Sight) : List Sight :=
  match checked with
  | .ok _ => seen
  | .error _ => []

theorem SharedStep.seen_group {σ : Type} (b : Builder σ) (connector : Connector)
    (body : List SharedStep) (s : σ) :
    (SharedStep.group connector body).seen b s =
      seenBehind ((b.view s).check (some connector)) (stepsSeen b body (b.fresh s)) ++
        [b.sight ((b.nest connector (stepsWork b body)).on s)] := by
  rw [SharedStep.seen]
  cases (b.view s).check (some connector) with
  | ok fixed => rfl
  | error reason => rfl

/-- What is seen of a filter after a run. -/
def Filter.sight (r : Run Filter Unit) : Sight :=
  ⟨r.result, r.state.condition.members.length, r.state.condition.connector⟩

mutual

/-- Take a step with a filter. -/
def NamedStep.work : NamedStep → Work Filter Unit
  | .compare connector field operator value => Filter.compare connector field operator value
  | .append connector node => Filter.append node connector
  | .group connector body => Filter.nestFilter connector (namedWork body)
  | .constrain name body => Filter.constrain name fun site => stepsWork (.atSite site) body
  | .set name value => Filter.set name value
  | .setConstraint name c => Filter.setConstraint name c
  | .attempt step => step.work.tolerated

/-- Take steps in order until one is refused. -/
def namedWork : List NamedStep → Work Filter Unit
  | [] => return
  | step :: rest => do
      step.work
      namedWork rest

end

mutual

/-- What is seen of a step, after what is seen of the steps within it. -/
def NamedStep.seen : NamedStep → Filter → List Sight
  | .compare connector field operator value, f =>
      [Filter.sight ((Filter.compare connector field operator value).on f)]
  | .append connector node, f => [Filter.sight ((Filter.append node connector).on f)]
  | .group connector body, f =>
      seenBehind (f.condition.check (some connector)) (namedSeen body (.limited f.allowed)) ++
        [Filter.sight ((NamedStep.group connector body).work.on f)]
  | .constrain name body, f =>
      -- the steps on a constraint are not begun if there is none to be had
      (match ((Filter.field name).on f).result with
        | .ok c => stepsSeen (.atSite c.site) body c.group
        | .error _ => []) ++ [Filter.sight ((NamedStep.constrain name body).work.on f)]
  | .set name value, f => [Filter.sight ((Filter.set name value).on f)]
  | .setConstraint name c, f => [Filter.sight ((Filter.setConstraint name c).on f)]
  | .attempt step, f => step.seen f

/-- What is seen of steps in order until one is refused. -/
def namedSeen : List NamedStep → Filter → List Sight
  | [], _ => []
  | step :: rest, f =>
      step.seen f ++
        match (step.work.on f).result with
        | .ok _ => namedSeen rest (step.work.on f).state
        | .error _ => []

end

/-! ### The names in a program -/

mutual

/-- The field names that a step is given, in operands and in prepared nodes. -/
def SharedStep.mentions : SharedStep → List String
  | .helper _ value => value.field?.toList
  | .compare _ _ value => value.field?.toList
  | .append _ node => node.mentions
  | .group _ body => stepsMentions body
  | .attempt step => step.mentions

/-- The field names that some steps are given. -/
def stepsMentions : List SharedStep → List String
  | [] => []
  | step :: rest => step.mentions ++ stepsMentions rest

end

mutual

/-- The field names that a step is given, as such, in operands and in what was prepared. -/
def NamedStep.mentions : NamedStep → List String
  | .compare _ field _ value => field :: value.field?.toList
  | .append _ node => node.mentions
  | .group _ body => namedMentions body
  | .constrain name body => name :: stepsMentions body
  | .set name value => name :: value.field?.toList
  | .setConstraint name c => name :: c.group.mentions
  | .attempt step => step.mentions

/-- The field names that some steps are given. -/
def namedMentions : List NamedStep → List String
  | [] => []
  | step :: rest => step.mentions ++ namedMentions rest

end

end WhereClause

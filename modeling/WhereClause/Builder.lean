/-
WhereClause/Builder.lean

Adding members to a group.

A group is built at a `Site`, which says what its surroundings ask of it: which
fields it may mention, whether all its comparisons are on one field, and what a
nested group becomes.  Conditions, constraints and filters build their groups
with the same operations and differ only in the site.

The connector given with the first member is ignored, the one given with the
second is fixed, and every later one has to agree with it (`Group.check`).

The operations are work on a group in place.  `Group.append` is the only one that
changes anything, and it does so after its checks.  `append_on`, `compare_on` and
`nest_on` say all that an operation can come to.
-/
import WhereClause.Node
import WhereClause.Work

namespace WhereClause

/-! ### Sites -/

/-- The surroundings of a group while it is built. -/
structure Site where
  /-- The fields that may be mentioned. -/
  allowed : AllowList := .all
  /-- The field that all comparisons are on, whatever field they name. -/
  subject : Option String := none
  /-- What a nested group becomes. -/
  nested : Group → Node := .group

namespace Site

/-- A free condition. -/
def condition : Site := {}

/-- A constraint on a field. -/
def constraint (allowed : AllowList) (name : String) : Site :=
  { allowed, subject := some name }

/-- The condition of a filter; its nested groups are filters of their own. -/
def filter (allowed : AllowList) : Site :=
  { allowed, nested := fun group => .filter ⟨allowed, [], group⟩ }

/-- The surroundings of a nested group: those of the group that it is nested in, with the
same allow-list and the same field. -/
def inner (site : Site) : Site where
  allowed := site.allowed
  subject := site.subject
  nested := site.nested

theorem inner_eq (site : Site) : site.inner = site := rfl

end Site

/-- An operator, given as such or by a spelling. -/
inductive OperatorName where
  | known (operator : Operator)
  | spelled (text : String)
  deriving Repr

/-- The operator that is meant. -/
def OperatorName.operator : OperatorName → Except Refusal Operator
  | known operator => .ok operator
  | spelled text =>
      match Operator.ofText? text with
      | some operator => .ok operator
      | none => .error (.unknownOperator text)

/-! ### Operations on a group -/

namespace Group

/-- The connector that a group has after the next member is added under the
given one. -/
def check (g : Group) (connector : Option Connector) : Except Refusal (Option Connector) :=
  if g.members.isEmpty then .ok g.connector
  else
    match connector, g.connector with
    | none, _ => .error .connectorRequired
    | some given, none => .ok (some given)
    | some given, some fixed =>
        if fixed = given then .ok (some fixed) else .error (.conflict fixed given)

/-- Add a member. -/
def append (site : Site) (node : Node) (connector : Option Connector) : Work Group Unit := do
  .demand (site.allowed.check node.mentions)
  let connector ← .demand ((← .look).check connector)
  .change fun g => { g with connector }
  .change fun g => { g with members := g.members ++ [node] }

theorem append_on (site : Site) (node : Node) (connector : Option Connector) (g : Group) :
    (append site node connector).on g =
      match site.allowed.check node.mentions, g.check connector with
      | .error reason, _ => ⟨g, .error reason, 0⟩
      | .ok (), .error reason => ⟨g, .error reason, 0⟩
      | .ok (), .ok fixed => ⟨⟨fixed, g.members ++ [node]⟩, .ok (), 0⟩ := by
  unfold append
  simp only [Work.demand_bind, Work.look_bind]
  rcases site.allowed.check node.mentions with reason | -
  · rfl
  · rcases g.check connector with reason | fixed
    · rfl
    · rfl

/-- Add a comparison of a field. -/
def compare (site : Site) (connector : Connector) (field : String) (operator : OperatorName)
    (value : Operand) : Work Group Unit := do
  let operator ← .demand operator.operator
  append site (.test (.on (site.subject.getD field) operator value)) (some connector)

theorem compare_on (site : Site) (connector : Connector) (field : String)
    (operator : OperatorName) (value : Operand) (g : Group) :
    (compare site connector field operator value).on g =
      match operator.operator with
      | .error reason => ⟨g, .error reason, 0⟩
      | .ok operator =>
          (append site (.test (.on (site.subject.getD field) operator value)) (some connector)).on
            g := by
  unfold compare
  rw [Work.demand_bind]
  rcases operator.operator with reason | operator
  · rfl
  · rfl

/-- Add a member that is built on the spot, starting from `fresh`.  The
connector is looked at before the building begins, and nothing is added if the
building is refused. -/
def nest {α : Type} (site : Site) (connector : Connector) (fresh : α) (node : α → Node)
    (build : Work α Unit) : Work Group Unit := do
  let _ ← .demand ((← .look).check (some connector))
  let inside ← .aside fresh build
  append site (node inside) (some connector)

theorem nest_on {α : Type} (site : Site) (connector : Connector) (fresh : α) (node : α → Node)
    (build : Work α Unit) (g : Group) :
    (nest site connector fresh node build).on g =
      match g.check (some connector), (build.on fresh).result with
      | .error reason, _ => ⟨g, .error reason, 0⟩
      | .ok _, .error reason => ⟨g, .error reason, (build.on fresh).started⟩
      | .ok _, .ok () =>
          let r := (append site (node (build.on fresh).state) (some connector)).on g
          ⟨r.state, r.result, (build.on fresh).started + r.started⟩ := by
  unfold nest
  simp only [Work.look_bind, Work.demand_bind, Work.aside_bind]
  rcases g.check (some connector) with reason | fixed
  · rfl
  · rcases (build.on fresh).result with reason | -
    · rfl
    · rfl

/-- Add a nested group of the kind that the site asks for.  The building is told the
surroundings of the nested group, and starts from an empty one. -/
def nestGroup (site : Site) (connector : Connector) (build : Site → Work Group Unit) :
    Work Group Unit :=
  nest site connector {} site.nested (build site.inner)

end Group

end WhereClause

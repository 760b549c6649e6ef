/-
WhereClause/Proofs/History.lean

What was done to make a node.

The `History` of a group lists the additions to it in order: the connector that each member
was added under, with the history of the member itself.  A filter has such a list for each of
its parts, which are the condition and the constraints.

`Node.Recorded` says that builders can make a node, as `Node.Reachable` does, and keeps the
history along.  What it writes down is what an operation was given and what came in with it
(`Group.Operation.addition`, `Filter.Operation.additions`).  Of what an operation has done it
looks at one thing only, that it was not refused.  So the history says nothing yet about the
connector that a group has in the end.
-/
import Mathlib.Logic.Function.Basic
import WhereClause.Proofs.Reachable
import WhereClause.Proofs.Refused

namespace WhereClause

/-! ### Histories -/

/-- What was done to make a node.  Of the parts of a filter `none` is the condition, and
`some name` the constraint on a field. -/
inductive History where
  | test
  | group (additions : List (Option Connector × History))
  | filter (parts : Option String → List (Option Connector × History))

namespace History

instance : Inhabited History := ⟨.test⟩

/-- The additions to a group: under which connector, and what was done to make the member. -/
abbrev Additions : Type := List (Option Connector × History)

/-- The additions to a group, if it is one. -/
def additions : History → Additions
  | group additions => additions
  | _ => []

/-- The history of what an operation adds, with which some nodes come in that have a past. -/
def ofBrought (past : Node → History) : List Node → History
  | [] => .test
  | node :: _ => past node

end History

/-! ### What is recorded of operations -/

namespace Group

/-- What is recorded of an operation at a site that is not refused. -/
def Operation.addition (past : Node → History) (site : Site) (op : Operation) :
    Option Connector × History :=
  (op.connector, .ofBrought past (op.brings site))

/-- Those of some operations that are not refused, each of them carried out whether or not
those before were refused. -/
def accepted (site : Site) (g : Group) : List Operation → List Operation
  | [] => []
  | op :: rest =>
      let run := (op.work site).on g
      match run.result with
      | .ok () => op :: accepted site run.state rest
      | .error _ => accepted site run.state rest

end Group

namespace Filter

/-- The additions to the part of a filter that an operation is about, after the operation. -/
def Operation.additions (past : Node → History) (f : Filter) (before : History.Additions) :
    Operation → History.Additions
  | constrain name operations =>
      match ((field name).on f).result with
      | .ok c =>
          let carriedOut := Group.Operation.carriedOut c.site c.group operations
          before ++ carriedOut.map (Group.Operation.addition past c.site)
      | .error _ => before
  | set name value =>
      match ((Filter.set name value).on f).result with
      | .ok () => [(some .and, .test)]
      | .error _ => before
  | setConstraint name c =>
      match ((Filter.setConstraint name c).on f).result with
      | .ok () => (past (.group c.group)).additions
      | .error _ => before
  | op =>
      match op.connector? with
      | some connector =>
          match (op.work.on f).result with
          | .ok () => before ++ [(connector, .ofBrought past (op.brings f))]
          | .error _ => before
      | none => before

/-- An operation on the condition adds its member, if it is not refused. -/
theorem Operation.additions_of_connector {op : Operation} {connector : Option Connector}
    (hconnector : op.connector? = some connector) (past : Node → History) (f : Filter)
    (before : History.Additions) :
    op.additions past f before =
      match (op.work.on f).result with
      | .ok () => before ++ [(connector, .ofBrought past (op.brings f))]
      | .error _ => before := by
  cases op with
  | append | compare | group =>
      cases hconnector
      rfl
  | constrain | set | setConstraint => cases hconnector

theorem Operation.field?_of_connector {op : Operation} {connector : Option Connector}
    (hconnector : op.connector? = some connector) : op.field? = none := by
  cases op with
  | append | compare | group => rfl
  | constrain | set | setConstraint => cases hconnector

/-- What is recorded of a filter after an operation. -/
def Operation.record (past : Node → History) (f : Filter) (op : Operation)
    (parts : Option String → History.Additions) : Option String → History.Additions :=
  Function.update parts op.field? (op.additions past f (parts op.field?))

/-- What is recorded of a filter after some operations, each of them carried out whether or
not those before were refused. -/
def record (past : Node → History) (f : Filter) (parts : Option String → History.Additions) :
    List Operation → Option String → History.Additions
  | [] => parts
  | op :: rest => (op.work.on f).state.record past (op.record past f parts) rest

/-- The nodes that come in with some operations. -/
def brought (f : Filter) : List Operation → List Node
  | [] => []
  | op :: rest => op.brings f ++ (op.work.on f).state.brought rest

end Filter

/-! ### Nodes and their histories -/

/-- What builders can make, with what was done to make it.  With what comes in its past is
given, and has to be recorded itself. -/
inductive Node.Recorded : Node → History → Prop
  | test {c} : Recorded (.test c) .test
  | newGroup : Recorded (.group {}) (.group [])
  | newFilter {allowed} : Recorded (.filter (.limited allowed)) (.filter fun _ => [])
  | onGroup {g site additions} (op : Group.Operation) (past : Node → History) :
      Recorded (.group g) (.group additions) → site.Plain →
        (∀ n ∈ op.brings site, Recorded n (past n)) →
        Recorded (.group ((op.work site).on g).state)
          (.group (additions ++ (g.accepted site [op]).map (Group.Operation.addition past site)))
  | onFilter {f parts} (op : Filter.Operation) (past : Node → History) :
      Recorded (.filter f) (.filter parts) → (∀ n ∈ op.brings f, Recorded n (past n)) →
        Recorded (.filter (op.work.on f).state) (.filter (op.record past f parts))
  | member {g additions n connector past} : Recorded (.group g) (.group additions) →
      ((connector, past), n) ∈ additions.zip g.members → Recorded n past
  | constraint {f parts c} : Recorded (.filter f) (.filter parts) → c ∈ f.constraints →
      Recorded (.group c.group) (.group (parts (some c.name)))
  | condition {f parts} : Recorded (.filter f) (.filter parts) →
      Recorded (.group f.condition) (.group (parts none))

namespace Node.Recorded

/-- What is recorded can be made. -/
theorem reachable {n : Node} {h : History} (hn : n.Recorded h) : n.Reachable := by
  induction hn with
  | test => exact .test
  | newGroup => exact .newGroup
  | newFilter => exact .newFilter
  | onGroup op past _ hsite _ ih ihBrings => exact ih.onGroup op hsite ihBrings
  | onFilter op past _ _ ih ihBrings => exact ih.onFilter op ihBrings
  | member _ hmem ih => exact ih.member (List.of_mem_zip hmem).2
  | constraint _ hc ih => exact ih.constraint hc
  | condition _ ih => exact ih.condition

/-- Operations go on with the history, refused or not. -/
theorem after {f : Filter} {parts : Option String → History.Additions} {past : Node → History}
    (hf : (Node.filter f).Recorded (.filter parts)) {operations : List Filter.Operation}
    (hbrought : ∀ n ∈ f.brought operations, n.Recorded (past n)) :
    (Node.filter (f.after operations)).Recorded (.filter (f.record past parts operations)) := by
  induction operations generalizing f parts with
  | nil => exact hf
  | cons op rest ih =>
      rw [Filter.brought, List.forall_mem_append] at hbrought
      exact ih (hf.onFilter op past hbrought.1) hbrought.2

end Node.Recorded

end WhereClause

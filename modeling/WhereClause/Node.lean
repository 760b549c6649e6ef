/-
WhereClause/Node.lean

The trees that filters are made of.

* A `Group` holds members, joined by one connector.  The connector is unset
  until a second member arrives.
* A `Constraint` is a group under the name of one field.  It may be limited to
  some fields of its own; in a filter it has the limits of the filter.
* A `Filter` holds constraints, at most one for a field, and a free condition.
  All of them have to hold.  A filter may be limited to some fields.
* A `Node` is a member of a group: a comparison, a group, or a filter.

`Node.mentions` lists every field name in a node in one fixed walk: the left
side of a comparison before its right side, the members of a group in order,
and in a filter each constraint's name before its members, then the condition.
-/
import WhereClause.AllowList
import WhereClause.Comparison

namespace WhereClause

mutual

/-- A member of a group. -/
inductive Node where
  | test (comparison : Comparison)
  | group (group : Group)
  | filter (filter : Filter)

/-- Members joined by one connector, which is unset as long as there is nothing
to join. -/
structure Group where
  connector : Option Connector := none
  members : List Node := []

/-- A group under the name of a field, limited to some fields. -/
structure Constraint where
  name : String
  group : Group
  allowed : AllowList

/-- Constraints on single fields and a free condition, which all have to hold. -/
structure Filter where
  allowed : AllowList
  constraints : List Constraint
  condition : Group

end

instance : Inhabited Group := ⟨{}⟩
instance : Inhabited Filter := ⟨⟨.all, [], {}⟩⟩
instance : Inhabited Node := ⟨.group default⟩
instance : Inhabited Constraint := ⟨⟨"", default, .all⟩⟩

/-! ### The field names in a node -/

mutual

/-- The field names in a node. -/
def Node.mentions : Node → List String
  | .test c => c.fields
  | .group g => g.mentions
  | .filter f => f.mentions

/-- The field names in a group. -/
def Group.mentions : Group → List String
  | ⟨_, members⟩ => membersMentions members

/-- The field names in the members of a group. -/
def membersMentions : List Node → List String
  | [] => []
  | node :: rest => node.mentions ++ membersMentions rest

/-- The field names in a filter, those of its constraints included. -/
def Filter.mentions : Filter → List String
  | ⟨_, constraints, condition⟩ => constraintsMentions constraints ++ condition.mentions

/-- The names of constraints, each followed by the field names in it. -/
def constraintsMentions : List Constraint → List String
  | [] => []
  | ⟨name, group, _⟩ :: rest => name :: (group.mentions ++ constraintsMentions rest)

end

/-! ### Sameness -/

mutual

/-- The same kind of node with the same content. -/
def Node.same : Node → Node → Bool
  | .test c, .test d => c.same d
  | .group g, .group h => g.same h
  | .filter f, .filter e => f.same e
  | _, _ => false

/-- The same connector and the same members. -/
def Group.same : Group → Group → Bool
  | ⟨k, members⟩, ⟨l, others⟩ => k == l && sameMembers members others

/-- As many members, the same at each position. -/
def sameMembers : List Node → List Node → Bool
  | [], [] => true
  | node :: rest, other :: others => node.same other && sameMembers rest others
  | _, _ => false

/-- The same allow-list, the same constraints in the same order, and the same
condition. -/
def Filter.same : Filter → Filter → Bool
  | ⟨allowed, constraints, condition⟩, ⟨allowed', constraints', condition'⟩ =>
      decide (allowed = allowed') && sameConstraints constraints constraints' &&
        condition.same condition'

/-- As many constraints, with the same name, group and allow-list at each
position. -/
def sameConstraints : List Constraint → List Constraint → Bool
  | [], [] => true
  | ⟨name, group, allowed⟩ :: rest, ⟨name', group', allowed'⟩ :: rest' =>
      name == name' && group.same group' && decide (allowed = allowed') &&
        sameConstraints rest rest'
  | _, _ => false

end

end WhereClause

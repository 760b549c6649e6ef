/-
WhereClause/Helper.lean

The names of what builders can do.

A helper adds a comparison with a fixed operator under a fixed connector.  Constraints
have helpers of their own; conditions and filters share theirs, which have further names.
What the helpers mean is given name by name, once for each of the two
(`ofConstraint`, `ofCondition`).  `ofCondition_eq_ofConstraint` says that a name that
both of them have means the same.

A `Vocabulary` has all names under which a builder adds a comparison or a nested group.
Comparisons that are made away from any builder have names of their own (`Comparison.made?`).
-/
import WhereClause.Comparison
import WhereClause.Connector

namespace WhereClause

/-- What the name of a comparison is short for. -/
structure Helper where
  connector : Connector
  operator : Operator
  deriving DecidableEq

namespace Helper

/-- The helpers of constraints. -/
def ofConstraint : List (String × Helper) :=
  [("equal", ⟨.and, .equal⟩), ("or_equal", ⟨.or, .equal⟩),
    ("not_equal", ⟨.and, .notEqual⟩), ("or_not_equal", ⟨.or, .notEqual⟩),
    ("greater_than", ⟨.and, .greater⟩), ("or_greater_than", ⟨.or, .greater⟩),
    ("greater_equal", ⟨.and, .greaterEqual⟩), ("or_greater_equal", ⟨.or, .greaterEqual⟩),
    ("less_than", ⟨.and, .less⟩), ("or_less_than", ⟨.or, .less⟩),
    ("less_equal", ⟨.and, .lessEqual⟩), ("or_less_equal", ⟨.or, .lessEqual⟩),
    ("is_in", ⟨.and, .isIn⟩), ("or_is_in", ⟨.or, .isIn⟩),
    ("not_in", ⟨.and, .notIn⟩), ("or_not_in", ⟨.or, .notIn⟩),
    ("is_null", ⟨.and, .isNull⟩), ("or_is_null", ⟨.or, .isNull⟩),
    ("not_null", ⟨.and, .notNull⟩), ("or_not_null", ⟨.or, .notNull⟩),
    ("contain", ⟨.and, .contains⟩), ("or_contain", ⟨.or, .contains⟩),
    ("start_with", ⟨.and, .startsWith⟩), ("or_start_with", ⟨.or, .startsWith⟩),
    ("end_with", ⟨.and, .endsWith⟩), ("or_end_with", ⟨.or, .endsWith⟩)]

/-- The helpers of conditions and filters. -/
def ofCondition : List (String × Helper) :=
  [("where_eq", ⟨.and, .equal⟩), ("or_where_eq", ⟨.or, .equal⟩),
    ("equal", ⟨.and, .equal⟩), ("or_equal", ⟨.or, .equal⟩),
    ("not_equal", ⟨.and, .notEqual⟩), ("or_not_equal", ⟨.or, .notEqual⟩),
    ("greater_than", ⟨.and, .greater⟩), ("or_greater_than", ⟨.or, .greater⟩),
    ("greater_equal", ⟨.and, .greaterEqual⟩), ("or_greater_equal", ⟨.or, .greaterEqual⟩),
    ("less_than", ⟨.and, .less⟩), ("or_less_than", ⟨.or, .less⟩),
    ("less_equal", ⟨.and, .lessEqual⟩), ("or_less_equal", ⟨.or, .lessEqual⟩),
    ("is_in", ⟨.and, .isIn⟩), ("or_is_in", ⟨.or, .isIn⟩),
    ("where_in", ⟨.and, .isIn⟩), ("or_where_in", ⟨.or, .isIn⟩),
    ("not_in", ⟨.and, .notIn⟩), ("or_not_in", ⟨.or, .notIn⟩),
    ("where_not_in", ⟨.and, .notIn⟩), ("or_where_not_in", ⟨.or, .notIn⟩),
    ("is_null", ⟨.and, .isNull⟩), ("or_is_null", ⟨.or, .isNull⟩),
    ("where_null", ⟨.and, .isNull⟩), ("or_where_null", ⟨.or, .isNull⟩),
    ("not_null", ⟨.and, .notNull⟩), ("or_not_null", ⟨.or, .notNull⟩),
    ("where_not_null", ⟨.and, .notNull⟩), ("or_where_not_null", ⟨.or, .notNull⟩),
    ("contain", ⟨.and, .contains⟩), ("or_contain", ⟨.or, .contains⟩),
    ("where_contain", ⟨.and, .contains⟩), ("or_where_contain", ⟨.or, .contains⟩),
    ("start_with", ⟨.and, .startsWith⟩), ("or_start_with", ⟨.or, .startsWith⟩),
    ("where_start_with", ⟨.and, .startsWith⟩), ("or_where_start_with", ⟨.or, .startsWith⟩),
    ("end_with", ⟨.and, .endsWith⟩), ("or_end_with", ⟨.or, .endsWith⟩),
    ("where_end_with", ⟨.and, .endsWith⟩), ("or_where_end_with", ⟨.or, .endsWith⟩)]

/-- Find in one table what another one has under each of its names. -/
theorem lookup_eq_of_forall {table other : List (String × Helper)}
    (h : ∀ entry ∈ table, other.lookup entry.1 = some entry.2) {name : String}
    (hname : (table.lookup name).isSome) : other.lookup name = table.lookup name := by
  induction table with
  | nil => cases hname
  | cons entry rest ih =>
      rw [List.forall_mem_cons] at h
      rw [List.lookup_cons] at hname ⊢
      split at hname
      · next heq =>
          rw [eq_of_beq heq]
          exact h.1
      · exact ih h.2 hname

/-- A helper that constraints have means the same for conditions and filters. -/
theorem ofCondition_eq_ofConstraint {name : String} (h : (ofConstraint.lookup name).isSome) :
    ofCondition.lookup name = ofConstraint.lookup name :=
  lookup_eq_of_forall (by decide +kernel) h

end Helper

/-! ### Vocabularies -/

/-- The names under which a builder adds a comparison or a nested group. -/
structure Vocabulary where
  /-- What adds a comparison with a fixed operator. -/
  helpers : List (String × Helper)
  /-- What adds a comparison with a given operator. -/
  comparisons : List (String × Connector) := [("where_", .and), ("or_where", .or)]
  /-- What adds a nested group. -/
  groups : List (String × Connector)

namespace Vocabulary

/-- The names that constraints have. -/
def constraint : Vocabulary where
  helpers := Helper.ofConstraint
  groups := [("and", .and), ("or", .or)]

/-- The names that conditions and filters have. -/
def condition : Vocabulary where
  helpers := Helper.ofCondition
  groups := [("and", .and), ("or", .or), ("where_group", .and), ("or_where_group", .or)]

end Vocabulary

/-- The names of comparisons of a field that are made away from any builder. -/
def Comparison.factories : List (String × Operator) :=
  [("equal", .equal), ("not_equal", .notEqual), ("greater_than", .greater),
    ("greater_equal", .greaterEqual), ("less_than", .less), ("less_equal", .lessEqual),
    ("is_in", .isIn), ("not_in", .notIn), ("is_null", .isNull), ("not_null", .notNull),
    ("contain", .contains), ("start_with", .startsWith), ("end_with", .endsWith)]

/-- The comparison of a field that is made under a name. -/
def Comparison.made? (name field : String) (value : Operand) : Option Comparison :=
  (factories.lookup name).map fun operator => .on field operator value

end WhereClause

/-
WhereClause/Formula.lean

What a node says, as a plain formula: comparisons, and formulas joined by a
connector.  A filter is the conjunction of its constraints, in their order,
followed by its condition; names and allow-lists are gone.

A formula without any comparison says nothing.  Such parts are left out
wherever a formula is written, so a join may turn out to have one term only and
then is nothing but that term.  `Formula.outer` looks through this: it is the
connector at the top of what is written, and there is none if at most one term
is left.  A part needs parentheses exactly if it has an outer connector other
than the one around it (`needsScope`).
-/
import WhereClause.Node

namespace WhereClause

/-- Comparisons joined by connectors. -/
inductive Formula where
  | test (comparison : Comparison)
  | join (connector : Option Connector) (parts : List Formula)

namespace Formula

mutual

/-- Whether there is no comparison in a formula. -/
def isEmpty : Formula → Bool
  | test _ => false
  | join _ parts => allEmpty parts

/-- Whether there is no comparison in any of some formulas. -/
def allEmpty : List Formula → Bool
  | [] => true
  | part :: rest => part.isEmpty && allEmpty rest

end

/-- The number of parts that say something. -/
def terms (parts : List Formula) : Nat :=
  parts.countP fun part => !part.isEmpty

theorem allEmpty_iff {parts : List Formula} :
    allEmpty parts = true ↔ ∀ part ∈ parts, part.isEmpty = true := by
  induction parts with
  | nil => simp [allEmpty]
  | cons part rest ih => simp [allEmpty, ih]

/-- No part counts as a term exactly if none says anything. -/
theorem terms_eq_zero_iff {parts : List Formula} : terms parts = 0 ↔ allEmpty parts = true := by
  simp [terms, List.countP_eq_zero, allEmpty_iff]

@[simp] theorem terms_cons_of_isEmpty {part : Formula} {rest : List Formula}
    (h : part.isEmpty = true) : terms (part :: rest) = terms rest := by
  simp [terms, h]

@[simp] theorem terms_cons_of_not_isEmpty {part : Formula} {rest : List Formula}
    (h : part.isEmpty = false) : terms (part :: rest) = terms rest + 1 := by
  simp [terms, h]

mutual

/-- The connector at the top of what is written for a formula, if two terms or
more are joined there. -/
def outer : Formula → Option Connector
  | test _ => none
  | join connector parts => if 2 ≤ terms parts then connector else outerOfFirst parts

/-- The outer connector of the first part that says something. -/
def outerOfFirst : List Formula → Option Connector
  | [] => none
  | part :: rest => if part.isEmpty then outerOfFirst rest else part.outer

end

/-- Whether a term with this outer connector has to be set apart from terms
that are joined by `around`. -/
def needsScope (outer : Option Connector) (around : Connector) : Bool :=
  match outer with
  | some connector => connector != around
  | none => false

end Formula

/-! ### The formula of a node -/

mutual

/-- The formula of a node. -/
def Node.formula : Node → Formula
  | .test c => .test c
  | .group g => g.formula
  | .filter f => f.formula

/-- A group joins the formulas of its members. -/
def Group.formula : Group → Formula
  | ⟨connector, members⟩ => .join connector (memberFormulas members)

/-- The formulas of the members of a group, in order. -/
def memberFormulas : List Node → List Formula
  | [] => []
  | node :: rest => node.formula :: memberFormulas rest

/-- A filter is the conjunction of its constraints and its condition. -/
def Filter.formula : Filter → Formula
  | ⟨_, constraints, condition⟩ =>
      .join (some .and) (constraintFormulas constraints ++ [condition.formula])

/-- The formulas of constraints, in order. -/
def constraintFormulas : List Constraint → List Formula
  | [] => []
  | ⟨_, group, _⟩ :: rest => group.formula :: constraintFormulas rest

end

/-- The parts of a filter that say something: its constraints and its condition,
as far as there are comparisons in them. -/
def Filter.sections (f : Filter) : List Formula :=
  (constraintFormulas f.constraints ++ [f.condition.formula]).filter fun part => !part.isEmpty

end WhereClause

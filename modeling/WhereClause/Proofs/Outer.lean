/-
WhereClause/Proofs/Outer.lean

The outer connector of a formula, and the scopes that hang on it.

A join of two terms or more has its own connector at the top, and a join of a
single term has that of the term (`outer_join_eq`).  A term needs a scope if it has
an outer connector other than the one around it; so nothing needs a scope under its
own outer connector.
-/
import WhereClause.Formula

namespace WhereClause.Formula

variable {connector : Option Connector} {part : Formula} {parts rest : List Formula}

/-! ### Joins -/

theorem one_le_terms_iff : 1 ≤ terms parts ↔ allEmpty parts = false := by
  rw [← Bool.not_eq_true, ← terms_eq_zero_iff]
  omega

theorem allEmpty_append (parts rest : List Formula) :
    allEmpty (parts ++ rest) = (allEmpty parts && allEmpty rest) := by
  induction parts with
  | nil => rfl
  | cons part parts ih => simp only [List.cons_append, allEmpty, ih, Bool.and_assoc]

theorem outer_join_of_two_le (h : 2 ≤ terms parts) : (join connector parts).outer = connector := by
  simp [outer, h]

/-- The connector at the top of a join is its own if it joins anything. -/
theorem connector_eq_of_outer_eq {k : Connector} (houter : (join connector parts).outer = some k)
    (h : 2 ≤ terms parts) : connector = some k :=
  (outer_join_of_two_le h).symm.trans houter

/-- The outer connector of a join does not depend on parts that say nothing. -/
theorem outer_join_cons_of_isEmpty (h : part.isEmpty = true) :
    (join connector (part :: rest)).outer = (join connector rest).outer := by
  simp [outer, outerOfFirst, h]

/-- The outer connector of a join with a single term is that of the term. -/
theorem outer_join_cons_of_allEmpty (h : part.isEmpty = false) (hrest : allEmpty rest = true) :
    (join connector (part :: rest)).outer = part.outer := by
  have hterms : terms (part :: rest) = 1 := by
    rw [terms_cons_of_not_isEmpty h, terms_eq_zero_iff.mpr hrest]
  simp [outer, outerOfFirst, h, hterms]

theorem terms_eq_length_filter (parts : List Formula) :
    terms parts = (parts.filter fun part => !part.isEmpty).length :=
  List.countP_eq_length_filter

theorem outerOfFirst_filter (parts : List Formula) :
    outerOfFirst (parts.filter fun part => !part.isEmpty) = outerOfFirst parts := by
  induction parts with
  | nil => rfl
  | cons part rest ih =>
      rcases hempty : part.isEmpty with - | -
      · simp [outerOfFirst, hempty]
      · simp [outerOfFirst, hempty, ih]

/-- The outer connector of a join goes by the parts that say something: it is that of the
only one, and the connector of the join if there are several. -/
theorem outer_join_eq (connector : Option Connector) (parts : List Formula) :
    (join connector parts).outer =
      match parts.filter fun part => !part.isEmpty with
      | [] => none
      | [only] => only.outer
      | _ :: _ :: _ => connector := by
  rw [outer, terms_eq_length_filter, ← outerOfFirst_filter]
  rcases hterms : parts.filter fun part => !part.isEmpty with - | ⟨only, - | ⟨next, rest⟩⟩
  · simp [hterms, outerOfFirst]
  · have honly : only ∈ parts.filter fun part => !part.isEmpty := by simp [hterms]
    have hempty : only.isEmpty = false := by simpa using (List.mem_filter.mp honly).2
    simp [hterms, outerOfFirst, hempty]
  · simp [hterms]

/-- A group that says nothing does not count, so the connector of the only term shows through. -/
example (c d : Comparison) :
    (join (some .and) [join none [], join (some .or) [test c, test d]]).outer = some .or := by
  rfl

theorem outer_of_isEmpty {f : Formula} (h : f.isEmpty = true) : f.outer = none := by
  rcases f with c | ⟨connector, parts⟩
  · cases h
  · have hnone : parts.filter (fun part => !part.isEmpty) = [] := by
      simpa using allEmpty_iff.mp h
    rw [outer_join_eq, hnone]

theorem outer_join_singleton (connector : Option Connector) (f : Formula) :
    (join connector [f]).outer = f.outer := by
  rcases hempty : f.isEmpty with - | -
  · exact outer_join_cons_of_allEmpty hempty rfl
  · rw [outer_join_cons_of_isEmpty hempty, outer_of_isEmpty hempty]
    rfl

/-- Where a part takes `a` places and the rest `b` places, there are two or more, if both
together are joined by the connector around them. -/
theorem two_le_of_outer_cons {k : Connector} {a b : Nat} (hpart : part.isEmpty = false)
    (ha : 1 ≤ a) (hb : terms rest ≤ b) (htwo : part.outer = some k → 2 ≤ a)
    (houter : (join (some k) (part :: rest)).outer = some k) : 2 ≤ a + b := by
  -- the rest adds to them, or else the part alone decides on the outer connector
  rcases hrest : allEmpty rest with - | -
  · have := one_le_terms_iff.mpr hrest
    omega
  · rw [outer_join_cons_of_allEmpty hpart hrest] at houter
    have := htwo houter
    omega

/-- The connector of a join does not matter where there is nothing to join. -/
theorem outer_join_congr {connector' : Option Connector}
    (h : 2 ≤ terms parts → connector = connector') :
    (join connector parts).outer = (join connector' parts).outer := by
  by_cases hterms : 2 ≤ terms parts
  · rw [h hterms]
  · simp [outer, hterms]

/-! ### Scopes -/

variable {outer : Option Connector} {around : Connector}

theorem needsScope_eq_true_iff :
    needsScope outer around = true ↔ ∃ k, outer = some k ∧ k ≠ around := by
  rcases outer with - | k <;> simp [needsScope]

/-- A term that needs no scope can stand under the connector around it. -/
theorem getD_of_needsScope_eq_false (h : needsScope outer around = false) :
    outer.getD around = around := by
  rcases outer with - | k
  · rfl
  · simpa [needsScope] using h

/-- Nothing needs a scope under its own outer connector. -/
theorem needsScope_getD (outer : Option Connector) (around : Connector) :
    needsScope outer (outer.getD around) = false := by
  rcases outer with - | k <;> simp [needsScope]

@[simp] theorem getD_getD (outer : Option Connector) (around : Connector) :
    outer.getD (outer.getD around) = outer.getD around :=
  getD_of_needsScope_eq_false (needsScope_getD outer around)

end WhereClause.Formula

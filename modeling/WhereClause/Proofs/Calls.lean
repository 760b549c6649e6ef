/-
WhereClause/Proofs/Calls.lean

The calls of a plan and the comparisons that they come from.

A call is made from one comparison (`callOf_cases`), and a column in it is that of a
field in the comparison (`mem_fields_of_call`).  Whatever a plan asks for, at any
depth and whether or not something is refused, is the call of a comparison beneath
the node (`Node.traced_items`).

If nothing is refused then the calls are those of all comparisons beneath the node,
each of them once and in their order (`Planned.calls`).
-/
import Mathlib.Data.List.Forall2
import WhereClause.Proofs.Planned

namespace WhereClause

open Formula

/-! ### Calls and comparisons -/

/-- The operands that a call hands over. -/
def Call.operands : Call → List Operand
  | .compare left _ right => [left, right]
  | .isIn field _ _ => [field]
  | .isNull field _ => [field]

theorem Mapping.exists_of_operand_eq_field {m : Mapping} {opposite : Option String} {o : Operand}
    {column : String} (h : m.operand opposite o = .field column) :
    ∃ name, o = .field name ∧ column = m.rename.getD id name := by
  cases o with
  | field name => exact ⟨name, rfl, (Operand.field.inj h).symm⟩
  | value literal =>
      simp only [Mapping.operand] at h
      split at h
      · cases h
      · cases h

/-- The ways in which a call is made: from both operands, from the left one and a
pattern, or from the left one alone. -/
theorem callOf_cases {left : Operand} {operator : Operator} {right : Option Operand} {call : Call}
    (h : callOf left operator right = .ok call) :
    (∃ comparator o, right = some o ∧ call = .compare left comparator o) ∨
      (∃ text, call = .compare left .like (.value (.text text))) ∨
        (∃ values negated, call = .isIn left values negated) ∨
          ∃ negated, call = .isNull left negated := by
  cases operator
  case equal | notEqual | greater | greaterEqual | less | lessEqual =>
    rcases right with - | o
    · cases h
    · cases h
      exact .inl ⟨_, o, rfl, rfl⟩
  case isIn | notIn =>
    obtain ⟨values, -, h⟩ := exists_of_bind_eq_ok h
    cases h
    exact .inr (.inr (.inl ⟨values, _, rfl⟩))
  case isNull | notNull =>
    cases h
    exact .inr (.inr (.inr ⟨_, rfl⟩))
  case contains | startsWith | endsWith =>
    obtain ⟨text, -, h⟩ := exists_of_bind_eq_ok h
    cases h
    exact .inr (.inl ⟨_, rfl⟩)

/-- A field in a call is one of the operands that the call was made from. -/
theorem field_of_callOf {left : Operand} {operator : Operator} {right : Option Operand}
    {call : Call} (hcall : callOf left operator right = .ok call) {column : String}
    (h : .field column ∈ call.operands) : left = .field column ∨ right = some (.field column) := by
  rcases callOf_cases hcall with
    ⟨_, o, rfl, rfl⟩ | ⟨text, rfl⟩ | ⟨values, negated, rfl⟩ | ⟨negated, rfl⟩
  · simpa [Call.operands, eq_comm] using h
  · exact .inl (by simpa [Call.operands, eq_comm] using h)
  · exact .inl (by simpa [Call.operands, eq_comm] using h)
  · exact .inl (by simpa [Call.operands, eq_comm] using h)

/-- The call of a comparison is made from the images of its operands. -/
theorem Comparison.callOf_eq {m : Mapping} {c : Comparison} {call : Call}
    (h : c.call m = .ok call) : callOf (m.left c) c.operator (m.right c) = .ok call :=
  eq_ok_of_mapError_eq_ok h

/-- A call refers to the columns of the fields in its comparison. -/
theorem mem_fields_of_call {m : Mapping} {c : Comparison} {call : Call}
    (hcall : c.call m = .ok call) {column : String} (h : .field column ∈ call.operands) :
    ∃ name ∈ c.fields, column = m.rename.getD id name := by
  rcases field_of_callOf (Comparison.callOf_eq hcall) h with hleft | hright
  · obtain ⟨name, hname, rfl⟩ := Mapping.exists_of_operand_eq_field hleft
    exact ⟨name, Comparison.mem_fields_iff.mpr (.inl hname), rfl⟩
  · obtain ⟨o, ho, hright⟩ := Option.map_eq_some_iff.mp hright
    obtain ⟨name, rfl, rfl⟩ := Mapping.exists_of_operand_eq_field hright
    exact ⟨name, Comparison.mem_fields_iff.mpr (.inr ho), rfl⟩

/-! ### What a plan asks for -/

/-- An item asks for a call, itself or in a scope. -/
inductive Item.Asks (call : Call) : Item → Prop
  | call {connector} : Asks call (.call connector call)
  | scope {connector body item} : item ∈ body → Asks call item → Asks call (.scope connector body)

/-- Whatever is asked for by some items is what one of some comparisons comes to. -/
def Traced (m : Mapping) (comparisons : List Comparison) (items : List Item) : Prop :=
  ∀ item ∈ items, ∀ call, item.Asks call → ∃ c ∈ comparisons, c.call m = .ok call

section Traced

variable {m : Mapping} {comparisons comparisons' : List Comparison} {items items' : List Item}

theorem traced_nil : Traced m comparisons [] :=
  fun _ hitem => absurd hitem List.not_mem_nil

theorem traced_refuse {reason : Refusal} : Traced m comparisons [.refuse reason] := by
  intro item hitem call h
  rw [List.mem_singleton.mp hitem] at h
  cases h

theorem traced_item {k : Connector} {c : Comparison} : Traced m [c] [c.item m k] := by
  intro item hitem call h
  rw [List.mem_singleton.mp hitem, Comparison.item] at h
  refine ⟨c, List.mem_singleton.mpr rfl, ?_⟩
  cases hcall : c.call m with
  | error reason =>
      rw [hcall] at h
      cases h
  | ok made =>
      rw [hcall] at h
      cases h
      rfl

theorem Traced.scope {k : Connector} (h : Traced m comparisons items) :
    Traced m comparisons [.scope k items] := by
  intro item hitem call hasks
  rw [List.mem_singleton.mp hitem] at hasks
  cases hasks with
  | scope hitem hasks => exact h _ hitem call hasks

theorem Traced.append (h : Traced m comparisons items) (h' : Traced m comparisons' items') :
    Traced m (comparisons ++ comparisons') (items ++ items') := by
  intro item hitem call hasks
  rcases List.mem_append.mp hitem with hitem | hitem
  · obtain ⟨c, hc, hcall⟩ := h item hitem call hasks
    exact ⟨c, List.mem_append_left _ hc, hcall⟩
  · obtain ⟨c, hc, hcall⟩ := h' item hitem call hasks
    exact ⟨c, List.mem_append_right _ hc, hcall⟩

/-- The items of a join are those of its terms, or there is a refusal in their place. -/
theorem traced_itemsWithin_join {connector : Option Connector} {parts : List Formula}
    (h : ∀ k l, Traced m comparisons (termItems m k l parts)) (around lead : Connector) :
    Traced m comparisons ((join connector parts).itemsWithin m around lead) := by
  rcases connector with - | k
  · rw [itemsWithin]
    split
    · exact traced_refuse
    · exact h around lead
  · rw [itemsWithin]
    split
    · exact h k lead
    · exact h around lead

theorem traced_termItems (parts : List Formula) (around lead : Connector) :
    Traced m (partsComparisons parts) (termItems m around lead parts) := by
  induction parts using parts_induct generalizing around lead with
  | nil => exact traced_nil
  | test c rest ih =>
      -- a comparison is never set apart
      simp only [termItems, isEmpty, outer, needsScope, itemsWithin, Bool.false_eq_true, if_false]
      exact traced_item.append (ih around around)
  | join connector parts rest ihParts ihRest =>
      rw [termItems, partsComparisons, Formula.comparisons]
      split
      · -- a part that says nothing asks for nothing
        exact traced_nil.append (ihRest around lead)
      · refine Traced.append ?_ (ihRest around around)
        split
        · exact (traced_itemsWithin_join ihParts _ lead).scope
        · exact traced_itemsWithin_join ihParts _ lead

end Traced

/-- Whatever a plan for a node asks for is what one of its comparisons comes to. -/
theorem Node.traced_items (n : Node) (m : Mapping) :
    Traced m n.comparisons (n.formula.items m) := by
  have h := traced_termItems (m := m) [n.formula] (n.formula.outer.getD .and) .and
  rw [← items_eq_termItems] at h
  simpa [Formula.partsComparisons, Node.comparisons_formula] using h

/-! ### The calls in order -/

/-- The call in an event, if it is one. -/
def Event.call? : Event → Option Call
  | .called _ call => some call
  | .opened _ => none
  | .closed => none

/-- The calls in the record of some items, in order. -/
def callsOf (items : List Item) : List Call :=
  (recordItems items).events.filterMap Event.call?

theorem Planned.callsOf_append {m : Mapping} {around lead : Connector} {parts : List Formula}
    {items : List Item} (h : Planned m around lead parts items) (items' : List Item) :
    callsOf (items ++ items') = callsOf items ++ callsOf items' := by
  simp only [callsOf, h.events_append, List.filterMap_append]

theorem callsOf_scope (k : Connector) {body : List Item} (h : (recordItems body).refusal = none)
    (items : List Item) : callsOf (.scope k body :: items) = callsOf body ++ callsOf items := by
  simp [callsOf, recordItems_scope k items h, List.filterMap_cons, Event.call?]

/-- The calls of a plan are those of the comparisons, one for each and in their order. -/
theorem Planned.calls {m : Mapping} {around lead : Connector} {parts : List Formula}
    {items : List Item} (h : Planned m around lead parts items) :
    List.Forall₂ (fun c call => c.call m = .ok call) (partsComparisons parts) (callsOf items) := by
  induction h with
  | nil => exact .nil
  | absent hempty _ ih =>
      rwa [partsComparisons, isEmpty_iff_comparisons.mp hempty, List.nil_append]
  | call hcall _ ih => exact .cons hcall ih
  | inPlace _ _ _ hplanned _ ih ih' =>
      rw [partsComparisons, Formula.comparisons, hplanned.callsOf_append]
      exact List.rel_append ih ih'
  | apart _ _ _ hplanned _ ih ih' =>
      rw [partsComparisons, Formula.comparisons, callsOf_scope _ hplanned.refusal_eq_none]
      exact List.rel_append ih ih'

end WhereClause

/-
WhereClause/Proofs/Lossless.lean

No comparison is lost, repeated or moved on the way into a query.

A plan that is not refused makes one call for each comparison beneath the node, in
order, and it is the call that the comparison makes alone (`Node.calls`).

So there are four ways to see that a node says nothing: there is no comparison
beneath it, its explained form is empty, nothing at all happens when its plan is
read, and its statement has no condition.  All of them agree.  For statements this
rests on two facts: clauses are not made from a plan with a refusal in it
(`refusal_eq_none_of_addItems`), and there are clauses exactly if something was called
(`Folds.clauses_eq_nil_iff`).

`lossless` states all this for any node.
-/
import WhereClause.Config
import WhereClause.Proofs.Explained
import WhereClause.Proofs.Folding

namespace WhereClause

open Formula

/-! ### The call of a comparison alone -/

theorem Comparison.record_eq {m : Mapping} {c : Comparison} {call : Call}
    (h : c.call m = .ok call) :
    (Formula.test c).record m = ⟨[.called .and call], none⟩ := by
  simp [Formula.record, items, itemsWithin, Comparison.item, h, recordItems, Item.record,
    Record.append]

/-! ### Nodes that say nothing -/

/-- A plan that is not refused makes the calls of the comparisons beneath the node, one
for each and in their order. -/
theorem Node.calls {n : Node} {m : Mapping} (h : (n.formula.record m).refusal = none) :
    List.Forall₂ (fun c call => c.call m = .ok call) n.comparisons
      ((n.formula.record m).events.filterMap Event.call?) := by
  have hcalls := (planned_items h).calls
  rwa [partsComparisons, partsComparisons, List.append_nil, Node.comparisons_formula] at hcalls

theorem Node.isEmpty_iff_not_beneath {n : Node} :
    n.formula.isEmpty = true ↔ ∀ c, ¬(Node.test c).Beneath n := by
  simp only [Node.isEmpty_formula_iff, List.eq_nil_iff_forall_not_mem, Node.mem_comparisons_iff]

theorem Formula.items_of_isEmpty {f : Formula} (h : f.isEmpty = true) (m : Mapping) :
    f.items m = [] := by
  rw [items_eq_termItems]
  exact termItems_of_allEmpty (by simp [allEmpty, h])

theorem Node.isEmpty_iff_events {n : Node} {m : Mapping}
    (h : (n.formula.record m).refusal = none) :
    n.formula.isEmpty = true ↔ (n.formula.record m).events = [] := by
  constructor
  · intro hempty
    rw [Formula.record, Formula.items_of_isEmpty hempty]
    rfl
  · intro hevents
    have hcalls := Node.calls h
    rw [hevents] at hcalls
    exact Node.isEmpty_formula_iff.mpr (List.forall₂_nil_right_iff.mp hcalls)

theorem Config.isEmpty_iff_condition {config : Config} {n : Node} {s : Sql.Select}
    (h : config.select n.formula = .ok s) : n.formula.isEmpty = true ↔ s.condition = none := by
  rw [Config.select] at h
  obtain ⟨clauses, hclauses, h⟩ := exists_of_bind_eq_ok h
  cases h
  have hcalls := Node.calls (Sql.refusal_eq_none_of_addItems hclauses)
  have hcount : n.comparisons.length = (callsOf (n.formula.items config.mapping)).length :=
    hcalls.length_eq
  rw [Sql.Where.condition?_eq_none_iff, (Sql.folds_of_addItems hclauses).clauses_eq_nil_iff,
    Node.isEmpty_formula_iff, ← List.length_eq_zero_iff, hcount, List.length_eq_zero_iff]

theorem Sql.Select.condition_eq_none_iff {s : Select} :
    s.condition = none ↔ Piece.plain " WHERE " ∉ s.pieces := by
  rcases s with ⟨table, - | condition⟩
  · simp [pieces]
  · simp [pieces]

/-- Whatever is in a node, and nothing else, comes to a query: the calls are those of
the comparisons beneath it, and it says nothing if and only if there are none, its
explained form is empty, nothing happens when its plan is read, and its statement has
no condition. -/
theorem lossless (n : Node) :
    (∀ m : Mapping, (n.formula.record m).refusal = none →
      List.Forall₂ (fun c call => (Formula.test c).record m = ⟨[.called .and call], none⟩)
          n.comparisons ((n.formula.record m).events.filterMap Event.call?) ∧
        (n.formula.isEmpty = true ↔ (n.formula.record m).events = [])) ∧
      (n.formula.isEmpty = true ↔ ∀ c, ¬(Node.test c).Beneath n) ∧
      (n.formula.isEmpty = true ↔ n.explain = .ok "") ∧
      ∀ (config : Config) (s : Sql.Select), config.select n.formula = .ok s →
        (n.formula.isEmpty = true ↔ .plain " WHERE " ∉ s.pieces) := by
  refine ⟨fun m h => ⟨?_, Node.isEmpty_iff_events h⟩, Node.isEmpty_iff_not_beneath,
    Formula.explain_eq_empty_iff.symm, ?_⟩
  · exact (Node.calls h).imp fun _ _ => Comparison.record_eq
  · intro config s h
    rw [Config.isEmpty_iff_condition h, Sql.Select.condition_eq_none_iff]

theorem lossless_mixedFilter :
    ((Node.filter mixedFilter).formula.record {}).refusal = none ∧
      List.Forall₂ (fun c call => (Formula.test c).record {} = ⟨[.called .and call], none⟩)
        (Node.filter mixedFilter).comparisons
        (((Node.filter mixedFilter).formula.record {}).events.filterMap Event.call?) ∧
      ∃ s, ({} : Config).select (Node.filter mixedFilter).formula = .ok s ∧
        .plain " WHERE " ∈ s.pieces := by
  obtain ⟨hrecord, -, -, hselect⟩ := lossless (.filter mixedFilter)
  refine ⟨rfl, (hrecord {} rfl).1, _, rfl, ?_⟩
  by_contra hnone
  exact absurd ((hselect {} _ rfl).mpr hnone) (by decide)

end WhereClause

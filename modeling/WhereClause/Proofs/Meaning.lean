/-
WhereClause/Proofs/Meaning.lean

The meaning of a node, and how a query reads the calls that are made for it.

The meaning is taken under an assignment of truth values to the comparisons
beneath the node, one for each occurrence: the `i`-th value belongs to the `i`-th
comparison of `Node.comparisons`.  A node without comparisons has no meaning
(`none`), and joining it with something leaves the other as it is.

A query sees neither nodes nor groups but a flat list of events.  It reads them
with a stack of open scopes (`Truth.readFrom`): the `i`-th call has the `i`-th
value, a scope that is closed becomes one clause of the scope around it, and the
clauses of one scope are read with `and` binding tighter than `or`.

`read_record` says that the two agree.  What carries the induction is that all
clauses of one scope but the first are tied by one and the same connector, so
that the precedence never comes into play; `Truth.led` is this invariant.
-/
import WhereClause.Proofs.Planned
import WhereClause.Proofs.Truth

namespace WhereClause

/-! ### Assignments -/

/-- An assignment without its first `n` values. -/
def later (v : Nat → Truth) (n : Nat) : Nat → Truth :=
  fun i => v (n + i)

@[simp] theorem later_zero (v : Nat → Truth) : later v 0 = v := by
  funext i
  simp [later]

@[simp] theorem later_later (v : Nat → Truth) (a b : Nat) :
    later (later v a) b = later v (a + b) := by
  funext i
  simp [later, Nat.add_assoc]

/-! ### The meaning of a node -/

mutual

/-- The meaning of a node, if there is a comparison beneath it. -/
def Node.meaning (v : Nat → Truth) : Node → Option Truth
  | .test _ => some (v 0)
  | .group g => g.meaning v
  | .filter f => f.meaning v

/-- A group ties its members by its connector.  Without one it has a single
member at most, and there is nothing to tie. -/
def Group.meaning (v : Nat → Truth) : Group → Option Truth
  | ⟨connector, members⟩ => membersMeaning (connector.getD .and) v members

/-- Some nodes tied by one connector. -/
def membersMeaning (k : Connector) (v : Nat → Truth) : List Node → Option Truth
  | [] => none
  | node :: rest =>
      Truth.merge k (node.meaning v) (membersMeaning k (later v node.comparisons.length) rest)

/-- All constraints of a filter hold, and its condition. -/
def Filter.meaning (v : Nat → Truth) : Filter → Option Truth
  | ⟨_, constraints, condition⟩ =>
      Truth.merge .and (constraintsMeaning v constraints)
        (condition.meaning (later v (constraintsComparisons constraints).length))

/-- All of some constraints hold. -/
def constraintsMeaning (v : Nat → Truth) : List Constraint → Option Truth
  | [] => none
  | ⟨_, group, _⟩ :: rest =>
      Truth.merge .and (group.meaning v)
        (constraintsMeaning (later v group.comparisons.length) rest)

end

/-! ### The reading of events -/

namespace Truth

/-- The value of some events, where `clauses` are those of the innermost scope so
far and `around` are the scopes around it, each with the connector with which the
next one was opened.  Scopes that are not closed in turn cannot be read. -/
def readFrom (v : Nat → Truth) (clauses : List (Connector × Truth))
    (around : List (Connector × List (Connector × Truth))) : List Event → Option (Option Truth)
  | [] => if around.isEmpty then some (ofClauses? clauses) else none
  | .called k _ :: rest => readFrom (later v 1) (clauses ++ [(k, v 0)]) around rest
  | .opened k :: rest => readFrom v [] ((k, clauses) :: around) rest
  | .closed :: rest =>
      match around with
      | [] => none
      | (k, before) :: around =>
          readFrom v (before ++ ((ofClauses? clauses).map fun t => (k, t)).toList) around rest

/-- The value of some events. -/
def read (v : Nat → Truth) (events : List Event) : Option (Option Truth) :=
  readFrom v [] [] events

end Truth

/-! ### The meaning of a formula -/

namespace Formula

open Truth

mutual

/-- The meaning of a formula, if there is a comparison in it. -/
def meaning (v : Nat → Truth) : Formula → Option Truth
  | test _ => some (v 0)
  | join connector parts => partsMeaning (connector.getD .and) v parts

/-- Some formulas tied by one connector. -/
def partsMeaning (k : Connector) (v : Nat → Truth) : List Formula → Option Truth
  | [] => none
  | part :: rest =>
      merge k (part.meaning v) (partsMeaning k (later v part.comparisons.length) rest)

end

theorem partsMeaning_append (k : Connector) (v : Nat → Truth) (parts parts' : List Formula) :
    partsMeaning k v (parts ++ parts') =
      merge k (partsMeaning k v parts)
        (partsMeaning k (later v (partsComparisons parts).length) parts') := by
  induction parts generalizing v with
  | nil => simp [partsMeaning, partsComparisons]
  | cons part rest ih =>
      simp only [List.cons_append, partsMeaning, partsComparisons, List.length_append, ih,
        merge_assoc, later_later]

theorem partsMeaning_of_allEmpty {parts : List Formula} (h : allEmpty parts = true)
    (k : Connector) (v : Nat → Truth) : partsMeaning k v parts = none := by
  induction parts using parts_induct generalizing k v with
  | nil => rfl
  | test c rest ih => simp [allEmpty, isEmpty] at h
  | join connector parts rest ihParts ihRest =>
      rw [allEmpty, isEmpty, Bool.and_eq_true] at h
      rw [partsMeaning, meaning, ihParts h.1, ihRest h.2]
      rfl

theorem meaning_of_isEmpty {f : Formula} (h : f.isEmpty = true) (v : Nat → Truth) :
    f.meaning v = none := by
  rcases f with c | ⟨connector, parts⟩
  · cases h
  · exact partsMeaning_of_allEmpty h _ v

/-- A connector does not matter where there is a single term. -/
theorem partsMeaning_congr {parts : List Formula} (h : terms parts < 2) (k l : Connector)
    (v : Nat → Truth) : partsMeaning k v parts = partsMeaning l v parts := by
  induction parts generalizing v with
  | nil => rfl
  | cons part rest ih =>
      rcases hempty : part.isEmpty with - | -
      · rw [terms_cons_of_not_isEmpty hempty] at h
        have hrest : allEmpty rest = true := terms_eq_zero_iff.mp (by omega)
        simp only [partsMeaning, partsMeaning_of_allEmpty hrest, merge_none_right]
      · rw [terms_cons_of_isEmpty hempty] at h
        simp only [partsMeaning, meaning_of_isEmpty hempty, merge_none_left, ih h]

/-- The meaning of a join under a connector that it has if it joins anything. -/
theorem meaning_join {connector : Option Connector} {parts : List Formula} {k : Connector}
    (h : 2 ≤ terms parts → connector = some k) (v : Nat → Truth) :
    (join connector parts).meaning v = partsMeaning k v parts := by
  by_cases hterms : 2 ≤ terms parts
  · rw [h hterms]
    rfl
  · exact partsMeaning_congr (by omega) _ k v

end Formula

theorem partsMeaning_members {members : List Node}
    (h : ∀ n ∈ members, ∀ v, n.formula.meaning v = n.meaning v) (k : Connector) (v : Nat → Truth) :
    Formula.partsMeaning k v (members.map Node.formula) = membersMeaning k v members := by
  induction members generalizing v with
  | nil => rfl
  | cons node rest ih =>
      rw [List.forall_mem_cons] at h
      simp only [List.map_cons, Formula.partsMeaning, membersMeaning, h.1,
        Node.comparisons_formula, ih h.2]

theorem partsMeaning_constraints {constraints : List Constraint}
    (h : ∀ c ∈ constraints, ∀ v, c.group.formula.meaning v = c.group.meaning v)
    (v : Nat → Truth) :
    Formula.partsMeaning .and v (constraints.map fun c => c.group.formula) =
      constraintsMeaning v constraints := by
  induction constraints generalizing v with
  | nil => rfl
  | cons c rest ih =>
      obtain ⟨name, group, allowed⟩ := c
      rw [List.forall_mem_cons] at h
      simp only [List.map_cons, Formula.partsMeaning, constraintsMeaning, h.1,
        Group.comparisons_formula, ih h.2]

/-- The formula of a node has the meaning of the node. -/
theorem Node.meaning_formula (n : Node) (v : Nat → Truth) : n.formula.meaning v = n.meaning v := by
  induction n using Node.induct generalizing v with
  | test c => rfl
  | group connector members ih =>
      simp only [Node.formula, Group.formula_eq, Formula.meaning, Node.meaning, Group.meaning]
      exact partsMeaning_members ih _ v
  | filter allowed constraints condition ihConstraints ihCondition =>
      have hConstraints := partsMeaning_constraints ihConstraints v
      have hCondition : ∀ v, condition.formula.meaning v = condition.meaning v := ihCondition
      simp only [Node.formula, Filter.formula_eq, Formula.meaning, Node.meaning, Filter.meaning,
        Option.getD_some, Formula.partsMeaning_append, hConstraints, partsComparisons_constraints,
        Formula.partsMeaning, hCondition, Truth.merge_none_right]

/-! ### Plans are read as they are meant -/

open Truth Formula

/-- Some items for some parts are read as clauses with the values `ts`. -/
structure ReadsAs (around lead : Connector) (parts : List Formula) (items : List Item)
    (v : Nat → Truth) (ts : List Truth) : Prop where
  /-- Joined by the connector around, the values have the meaning of the parts. -/
  combine_eq : combine around ts = partsMeaning around v parts
  ne_nil : allEmpty parts = false → ts ≠ []
  /-- All clauses but the first are tied by the connector around. -/
  readFrom_append : ∀ clauses scopes tail,
    readFrom v clauses scopes ((recordItems items).events ++ tail) =
      readFrom (later v (partsComparisons parts).length) (clauses ++ led around lead ts) scopes tail

/-- A plan is read as its parts are meant. -/
theorem Planned.readsAs {m : Mapping} {around lead : Connector} {parts : List Formula}
    {items : List Item} (h : Planned m around lead parts items) (v : Nat → Truth) :
    ∃ ts, ReadsAs around lead parts items v ts := by
  induction h generalizing v with
  | nil =>
      refine ⟨[], rfl, ?_, ?_⟩
      · intro h
        cases h
      · intro clauses scopes tail
        simp [recordItems, led, partsComparisons]
  | absent hempty _ ih =>
      obtain ⟨ts, hts, hne, hread⟩ := ih v
      -- without calls, no values are taken from the assignment
      have hnone := isEmpty_iff_comparisons.mp hempty
      refine ⟨ts, ?_, ?_, ?_⟩
      · simp [partsMeaning, meaning_of_isEmpty hempty, hnone, hts]
      · simpa [allEmpty, hempty] using hne
      · simpa [partsComparisons, hnone] using hread
  | call _ _ ih =>
      obtain ⟨ts, hts, -, hread⟩ := ih (later v 1)
      refine ⟨v 0 :: ts, ?_, fun _ => List.cons_ne_nil _ _, ?_⟩
      · simp [combine, hts, partsMeaning, meaning, comparisons]
      · intro clauses scopes tail
        rw [recordItems_call, List.cons_append, readFrom, hread]
        simp [led, partsComparisons, comparisons, Nat.add_comm]
  | @inPlace around lead connector parts rest items items' hempty _ hconnector hplan _ ih ih' =>
      obtain ⟨ts, hts, hne, hread⟩ := ih v
      obtain ⟨us, hus, -, hread'⟩ := ih' (later v (partsComparisons parts).length)
      -- the clauses of the join go on in the scope around it
      refine ⟨ts ++ us, ?_, fun _ => List.append_ne_nil_of_left_ne_nil (hne hempty) us, ?_⟩
      · rw [combine_append, hts, hus, partsMeaning, meaning_join hconnector]
        rfl
      · intro clauses scopes tail
        rw [hplan.events_append, List.append_assoc, hread, hread', later_later,
          led_append (hne hempty), List.append_assoc, partsComparisons, comparisons,
          List.length_append]
  | @apart around lead connector parts k rest items items' hempty houter _ hplan _ ih ih' =>
      obtain ⟨ts, hts, hne, hread⟩ := ih v
      obtain ⟨us, hus, -, hread'⟩ := ih' (later v (partsComparisons parts).length)
      have hconnector := connector_eq_of_outer_eq houter
      -- the clauses of the join are one clause once its scope is closed
      obtain ⟨t, ht⟩ := exists_combine_eq k (hne hempty)
      refine ⟨t :: us, ?_, fun _ => List.cons_ne_nil _ _, ?_⟩
      · rw [partsMeaning, meaning_join hconnector, ← hts, ht, combine, hus]
        rfl
      · intro clauses scopes tail
        rw [recordItems_scope lead items' hplan.refusal_eq_none]
        simp only [List.cons_append, List.append_assoc]
        rw [readFrom, hread, readFrom, List.nil_append, ofClauses?_led, ht, hread']
        simp [led, partsComparisons, comparisons]

/-- What a query makes of the calls for a node is the meaning of the node. -/
theorem read_record (n : Node) (m : Mapping) (h : (n.formula.record m).refusal = none)
    (v : Nat → Truth) :
    Truth.read v (n.formula.record m).events = some (n.meaning v) := by
  obtain ⟨ts, hts, -, hread⟩ := (planned_items h).readsAs v
  have hevents := hread [] [] []
  rw [List.append_nil] at hevents
  rw [Truth.read, Formula.record, hevents, readFrom, List.nil_append, ofClauses?_led, hts,
    partsMeaning, partsMeaning, merge_none_right, Node.meaning_formula]
  rfl

/-- In `mixedFilter` an unknown comparison decides if the others leave it open. -/
theorem read_record_mixedFilter :
    let n : Node := .filter mixedFilter
    let v : Nat → Truth := fun i => [.fails, .holds, .fails, .unknown, .holds].getD i .fails
    (n.formula.record {}).refusal = none ∧ n.meaning v = some .unknown ∧
      Truth.read v (n.formula.record {}).events = some (n.meaning v) :=
  ⟨rfl, rfl, read_record (.filter mixedFilter) {} rfl _⟩

end WhereClause

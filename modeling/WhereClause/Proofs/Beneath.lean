/-
WhereClause/Proofs/Beneath.lean

What stands beneath a node, and how to reason by induction on it.

`Node.Beneath` says that one node stands in another one, at any depth.  What the
walks through a node find is described by it: `mem_comparisons_iff` and
`mem_mentions_iff`.

`Node.comparisons` lists the comparisons of a node in one fixed walk: a filter's
constraints come first, in their order, then its condition, and the members of a
group come in order.  `Formula.comparisons` is the same walk on a formula
(`Node.comparisons_formula`).

Nodes and formulas are nested in lists, so the induction that comes with their
types is of little use.  Two better ones are stated here:

* `Node.induct` has one case for each kind of node, and the parts of a filter
  count as groups;
* `Formula.parts_induct` runs along a list of formulas and down into each of
  them.  The explained form and the plan are made in this way.
-/
import Mathlib.Data.List.Basic
import WhereClause.Formula

namespace WhereClause

/-! ### Induction -/

/-- Induction on a node, where the parts of a filter count as groups. -/
@[elab_as_elim]
theorem Node.induct {motive : Node → Prop} (test : ∀ c, motive (.test c))
    (group : ∀ connector members, (∀ n ∈ members, motive n) →
      motive (.group ⟨connector, members⟩))
    (filter : ∀ allowed constraints condition,
      (∀ c ∈ constraints, motive (.group c.group)) → motive (.group condition) →
        motive (.filter ⟨allowed, constraints, condition⟩))
    (n : Node) : motive n :=
  @Node.rec motive (fun g => motive (.group g)) (fun c => motive (.group c.group))
    (fun f => motive (.filter f)) (fun members => ∀ n ∈ members, motive n)
    (fun constraints => ∀ c ∈ constraints, motive (.group c.group))
    test (fun _ h => h) (fun _ h => h) group (fun _ _ _ h => h) filter
    (fun _ h => absurd h List.not_mem_nil)
    (fun _ _ hhead hrest => List.forall_mem_cons.mpr ⟨hhead, hrest⟩)
    (fun _ h => absurd h List.not_mem_nil)
    (fun _ _ hhead hrest => List.forall_mem_cons.mpr ⟨hhead, hrest⟩) n

/-- Induction along a list of formulas and down into each of them. -/
@[elab_as_elim]
theorem Formula.parts_induct {motive : List Formula → Prop} (nil : motive [])
    (test : ∀ c rest, motive rest → motive (.test c :: rest))
    (join : ∀ connector parts rest, motive parts → motive rest →
      motive (.join connector parts :: rest))
    (parts : List Formula) : motive parts :=
  @Formula.rec_1 (fun f => ∀ rest, motive rest → motive (f :: rest)) motive test
    (fun connector parts hparts rest => join connector parts rest hparts) nil
    (fun _ rest hhead hrest => hhead rest hrest) parts

/-! ### Lists of members -/

/-- All members of a list have a property, or there is a first one without it. -/
theorem forall_mem_or_exists_first {α : Type} (p : α → Prop) (xs : List α) :
    (∀ a ∈ xs, p a) ∨ ∃ before a after, xs = before ++ a :: after ∧ (∀ b ∈ before, p b) ∧ ¬p a := by
  induction xs with
  | nil => exact .inl fun _ h => absurd h List.not_mem_nil
  | cons a xs ih =>
      by_cases ha : p a
      · rcases ih with hall | ⟨before, b, after, rfl, hbefore, hb⟩
        · exact .inl (List.forall_mem_cons.mpr ⟨ha, hall⟩)
        · exact .inr ⟨a :: before, b, after, rfl, List.forall_mem_cons.mpr ⟨ha, hbefore⟩, hb⟩
      · exact .inr ⟨[], a, xs, rfl, fun _ h => absurd h List.not_mem_nil, ha⟩

theorem memberFormulas_eq_map (members : List Node) :
    memberFormulas members = members.map Node.formula := by
  induction members with
  | nil => rfl
  | cons node rest ih => simp [memberFormulas, ih]

theorem constraintFormulas_eq_map (constraints : List Constraint) :
    constraintFormulas constraints = constraints.map fun c => c.group.formula := by
  induction constraints with
  | nil => rfl
  | cons c rest ih =>
      obtain ⟨name, group, allowed⟩ := c
      simp [constraintFormulas, ih]

theorem Group.formula_eq (g : Group) :
    g.formula = .join g.connector (g.members.map Node.formula) := by
  obtain ⟨connector, members⟩ := g
  simp [Group.formula, memberFormulas_eq_map]

theorem Filter.formula_eq (f : Filter) :
    f.formula = .join (some .and)
      (f.constraints.map (fun c => c.group.formula) ++ [f.condition.formula]) := by
  obtain ⟨allowed, constraints, condition⟩ := f
  simp [Filter.formula, constraintFormulas_eq_map]

/-! ### The comparisons beneath a node -/

mutual

/-- The comparisons beneath a node, in order. -/
def Node.comparisons : Node → List Comparison
  | .test c => [c]
  | .group g => g.comparisons
  | .filter f => f.comparisons

/-- The comparisons beneath the members of a group. -/
def Group.comparisons : Group → List Comparison
  | ⟨_, members⟩ => membersComparisons members

/-- The comparisons beneath some nodes. -/
def membersComparisons : List Node → List Comparison
  | [] => []
  | node :: rest => node.comparisons ++ membersComparisons rest

/-- The comparisons beneath the constraints of a filter, then those beneath its
condition. -/
def Filter.comparisons : Filter → List Comparison
  | ⟨_, constraints, condition⟩ => constraintsComparisons constraints ++ condition.comparisons

/-- The comparisons beneath some constraints. -/
def constraintsComparisons : List Constraint → List Comparison
  | [] => []
  | ⟨_, group, _⟩ :: rest => group.comparisons ++ constraintsComparisons rest

end

theorem membersComparisons_eq_flatMap (members : List Node) :
    membersComparisons members = members.flatMap Node.comparisons := by
  induction members with
  | nil => rfl
  | cons node rest ih => simp [membersComparisons, ih]

theorem constraintsComparisons_eq_flatMap (constraints : List Constraint) :
    constraintsComparisons constraints = constraints.flatMap fun c => c.group.comparisons := by
  induction constraints with
  | nil => rfl
  | cons c rest ih =>
      obtain ⟨name, group, allowed⟩ := c
      simp [constraintsComparisons, ih]

/-! ### The nodes beneath a node -/

/-- A node stands in another one, or is that node.  The parts of a filter count as
groups. -/
inductive Node.Beneath (n : Node) : Node → Prop
  | refl : Beneath n n
  | member {g m} : m ∈ g.members → Beneath n m → Beneath n (.group g)
  | constraint {f c} : c ∈ f.constraints → Beneath n (.group c.group) → Beneath n (.filter f)
  | condition {f} : Beneath n (.group f.condition) → Beneath n (.filter f)

namespace Node

theorem beneath_test_iff {n : Node} {c : Comparison} : n.Beneath (.test c) ↔ n = .test c := by
  constructor
  · rintro ⟨⟩
    rfl
  · rintro rfl
    exact .refl

theorem beneath_group_iff {n : Node} {g : Group} :
    n.Beneath (.group g) ↔ n = .group g ∨ ∃ m ∈ g.members, n.Beneath m := by
  constructor
  · rintro (_ | ⟨hm, h⟩)
    · exact .inl rfl
    · exact .inr ⟨_, hm, h⟩
  · rintro (rfl | ⟨m, hm, h⟩)
    · exact .refl
    · exact .member hm h

theorem beneath_filter_iff {n : Node} {f : Filter} :
    n.Beneath (.filter f) ↔
      n = .filter f ∨ (∃ c ∈ f.constraints, n.Beneath (.group c.group)) ∨
        n.Beneath (.group f.condition) := by
  constructor
  · rintro (_ | _ | ⟨hc, h⟩ | h)
    · exact .inl rfl
    · exact .inr (.inl ⟨_, hc, h⟩)
    · exact .inr (.inr h)
  · rintro (rfl | ⟨c, hc, h⟩ | h)
    · exact .refl
    · exact .constraint hc h
    · exact .condition h

end Node

/-- The comparisons of a node are those that stand in it. -/
theorem Node.mem_comparisons_iff {n : Node} {c : Comparison} :
    c ∈ n.comparisons ↔ (Node.test c).Beneath n := by
  induction n using Node.induct with
  | test d => simp [comparisons, beneath_test_iff]
  | group connector members ih =>
      simp only [comparisons, Group.comparisons, membersComparisons_eq_flatMap,
        List.mem_flatMap, beneath_group_iff, reduceCtorEq, false_or]
      exact exists_congr fun m => and_congr_right (ih m)
  | filter allowed constraints condition ihConstraints ihCondition =>
      simp only [comparisons, Filter.comparisons, constraintsComparisons_eq_flatMap,
        List.mem_append, List.mem_flatMap, beneath_filter_iff, reduceCtorEq, false_or]
      exact or_congr (exists_congr fun d => and_congr_right (ihConstraints d)) ihCondition

/-! ### The field names in a node -/

/-- A node mentions a field: on a side of a comparison that stands in it, or as the
name of a constraint of a filter that stands in it. -/
def Node.Mentions (n : Node) (name : String) : Prop :=
  (∃ c, (Node.test c).Beneath n ∧ (c.left = .field name ∨ c.right = some (.field name))) ∨
    ∃ f, (Node.filter f).Beneath n ∧ ∃ c ∈ f.constraints, c.name = name

theorem Group.mentions_eq_flatMap (g : Group) : g.mentions = g.members.flatMap Node.mentions := by
  obtain ⟨connector, members⟩ := g
  rw [Group.mentions]
  induction members with
  | nil => rfl
  | cons node rest ih => simp [membersMentions, ih]

theorem Filter.mentions_eq (f : Filter) :
    f.mentions = f.constraints.flatMap (fun c => c.name :: c.group.mentions) ++
      f.condition.mentions := by
  obtain ⟨allowed, constraints, condition⟩ := f
  rw [Filter.mentions]
  congr 1
  induction constraints with
  | nil => rfl
  | cons c rest ih =>
      obtain ⟨name, group, allowed⟩ := c
      simp [constraintsMentions, ih]

theorem Operand.field?_eq_some_iff {o : Operand} {name : String} :
    o.field? = some name ↔ o = .field name := by
  rcases o with other | literal <;> simp [Operand.field?]

theorem Comparison.mem_fields_iff {c : Comparison} {name : String} :
    name ∈ c.fields ↔ c.left = .field name ∨ c.right = some (.field name) := by
  simp [Comparison.fields, Option.bind_eq_some_iff, Operand.field?_eq_some_iff]

namespace Node

theorem mentions_test_iff {c : Comparison} {name : String} :
    (Node.test c).Mentions name ↔ name ∈ c.fields := by
  simp [Mentions, beneath_test_iff, Comparison.mem_fields_iff]

theorem mentions_group_iff {g : Group} {name : String} :
    (Node.group g).Mentions name ↔ ∃ n ∈ g.members, n.Mentions name := by
  simp only [Mentions, beneath_group_iff, reduceCtorEq, false_or]
  constructor
  · rintro (⟨c, ⟨n, hn, h⟩, hc⟩ | ⟨f, ⟨n, hn, h⟩, hf⟩)
    · exact ⟨n, hn, .inl ⟨c, h, hc⟩⟩
    · exact ⟨n, hn, .inr ⟨f, h, hf⟩⟩
  · rintro ⟨n, hn, ⟨c, h, hc⟩ | ⟨f, h, hf⟩⟩
    · exact .inl ⟨c, ⟨n, hn, h⟩, hc⟩
    · exact .inr ⟨f, ⟨n, hn, h⟩, hf⟩

theorem mentions_filter_iff {f : Filter} {name : String} :
    (Node.filter f).Mentions name ↔
      (∃ c ∈ f.constraints, c.name = name ∨ (Node.group c.group).Mentions name) ∨
        (Node.group f.condition).Mentions name := by
  constructor
  · rintro (⟨d, hd, hfield⟩ | ⟨e, he, hname⟩)
    · rcases beneath_filter_iff.mp hd with h | ⟨c, hc, h⟩ | h
      · cases h
      · exact .inl ⟨c, hc, .inr (.inl ⟨d, h, hfield⟩)⟩
      · exact .inr (.inl ⟨d, h, hfield⟩)
    · rcases beneath_filter_iff.mp he with h | ⟨c, hc, h⟩ | h
      · cases h
        obtain ⟨c, hc, rfl⟩ := hname
        exact .inl ⟨c, hc, .inl rfl⟩
      · exact .inl ⟨c, hc, .inr (.inr ⟨e, h, hname⟩)⟩
      · exact .inr (.inr ⟨e, h, hname⟩)
  · rintro (⟨c, hc, rfl | ⟨d, hd, hfield⟩ | ⟨e, he, hname⟩⟩ | ⟨d, hd, hfield⟩ | ⟨e, he, hname⟩)
    · exact .inr ⟨f, .refl, c, hc, rfl⟩
    · exact .inl ⟨d, .constraint hc hd, hfield⟩
    · exact .inr ⟨e, .constraint hc he, hname⟩
    · exact .inl ⟨d, .condition hd, hfield⟩
    · exact .inr ⟨e, .condition he, hname⟩

/-- The walk that lists the field names in a node finds those that it mentions. -/
theorem mem_mentions_iff {n : Node} {name : String} : name ∈ n.mentions ↔ n.Mentions name := by
  induction n using Node.induct with
  | test c => rw [mentions_test_iff, mentions]
  | group connector members ih =>
      rw [mentions, Group.mentions_eq_flatMap, List.mem_flatMap, mentions_group_iff]
      exact exists_congr fun n => and_congr_right (ih n)
  | filter allowed constraints condition ihConstraints ihCondition =>
      simp only [mentions, Filter.mentions_eq, List.mem_append, List.mem_flatMap, List.mem_cons,
        mentions_filter_iff]
      refine or_congr (exists_congr fun c => and_congr_right fun hc => ?_) ihCondition
      exact or_congr eq_comm (ihConstraints c hc)

end Node

namespace Formula

mutual

/-- The comparisons in a formula, in order. -/
def comparisons : Formula → List Comparison
  | test c => [c]
  | join _ parts => partsComparisons parts

/-- The comparisons in some formulas. -/
def partsComparisons : List Formula → List Comparison
  | [] => []
  | part :: rest => part.comparisons ++ partsComparisons rest

end

theorem partsComparisons_eq_flatMap (parts : List Formula) :
    partsComparisons parts = parts.flatMap comparisons := by
  induction parts with
  | nil => rfl
  | cons part rest ih => simp [partsComparisons, ih]

/-- Parts say nothing exactly if there is no comparison in them. -/
theorem allEmpty_iff_partsComparisons {parts : List Formula} :
    allEmpty parts = true ↔ partsComparisons parts = [] := by
  induction parts using parts_induct with
  | nil => simp [allEmpty, partsComparisons]
  | test c rest ih => simp [allEmpty, isEmpty, partsComparisons, comparisons]
  | join connector parts rest ihParts ihRest =>
      simp [allEmpty, isEmpty, partsComparisons, comparisons, ihParts, ihRest]

theorem isEmpty_iff_comparisons {f : Formula} : f.isEmpty = true ↔ f.comparisons = [] := by
  simpa [allEmpty, partsComparisons] using @allEmpty_iff_partsComparisons [f]

end Formula

/-- The formula of a node has the comparisons of the node. -/
theorem Node.comparisons_formula (n : Node) : n.formula.comparisons = n.comparisons := by
  induction n using Node.induct with
  | test c => rfl
  | group connector members ih =>
      simp only [Node.formula, Group.formula_eq, Formula.comparisons,
        Formula.partsComparisons_eq_flatMap, Node.comparisons, Group.comparisons,
        membersComparisons_eq_flatMap, List.flatMap_map]
      exact List.flatMap_congr ih
  | filter allowed constraints condition ihConstraints ihCondition =>
      simp only [Node.formula, Filter.formula_eq, Formula.comparisons,
        Formula.partsComparisons_eq_flatMap, Node.comparisons, Filter.comparisons,
        constraintsComparisons_eq_flatMap, List.flatMap_append, List.flatMap_map,
        List.flatMap_singleton]
      have hConstraints : ∀ c ∈ constraints,
          c.group.formula.comparisons = c.group.comparisons := ihConstraints
      have hCondition : condition.formula.comparisons = condition.comparisons := ihCondition
      rw [List.flatMap_congr hConstraints, hCondition]

theorem Group.comparisons_formula (g : Group) : g.formula.comparisons = g.comparisons :=
  Node.comparisons_formula (.group g)

/-- The formulas of constraints have the comparisons of the constraints. -/
theorem partsComparisons_constraints (constraints : List Constraint) :
    Formula.partsComparisons (constraints.map fun c => c.group.formula) =
      constraintsComparisons constraints := by
  rw [Formula.partsComparisons_eq_flatMap, constraintsComparisons_eq_flatMap, List.flatMap_map]
  exact List.flatMap_congr fun c _ => Group.comparisons_formula c.group

/-- A node says nothing exactly if there is no comparison beneath it. -/
theorem Node.isEmpty_formula_iff {n : Node} : n.formula.isEmpty = true ↔ n.comparisons = [] := by
  rw [Formula.isEmpty_iff_comparisons, Node.comparisons_formula]

end WhereClause

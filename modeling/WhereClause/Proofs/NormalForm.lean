/-
WhereClause/Proofs/NormalForm.lean

Nodes that say the same in different ways, and the plainest of them.

A node may be simplified, anywhere beneath it, in a few ways (`Node.Simplifies`):
a filter becomes a group of its constraints and its condition, a member that says
nothing goes away, a group with one member becomes this member, and a group
within a group of the same connector gives way to its members.

`Node.normal` is the normal form of a node.  It is reached by simplifications,
and none is left in it (`Node.reduces_normal`, `Node.Settled.not_simplifies`).
What is compiled from a node does not change on the way: the explained form, the
record under any mapping, refused or not, and the outer connector all stay the
same (`sameForm_normal`).

The whole argument is about one simplification at a time.  That a simplification
may be made at any depth comes from `Formula.Alike`, which is kept by every join.
-/
import Mathlib.Logic.Relation
import WhereClause.Proofs.Alike

namespace WhereClause

open Formula

/-! ### Simplifications -/

/-- A filter as a group that joins its constraints and then its condition. -/
def Filter.asGroup (f : Filter) : Group :=
  ⟨some .and, f.constraints.map (fun c => .group c.group) ++ [.group f.condition]⟩

theorem Filter.forall_mem_asGroup {p : Node → Prop} {f : Filter}
    (hconstraints : ∀ c ∈ f.constraints, p (.group c.group)) (hcondition : p (.group f.condition)) :
    ∀ n ∈ f.asGroup.members, p n := by
  intro n hn
  rcases List.mem_append.mp hn with hn | hn
  · obtain ⟨c, hc, rfl⟩ := List.mem_map.mp hn
    exact hconstraints c hc
  · rw [List.mem_singleton.mp hn]
    exact hcondition

/-- A node is made simpler in one place. -/
inductive Node.Simplifies : Node → Node → Prop
  | join {f : Filter} : Simplifies (.filter f) (.group f.asGroup)
  | drop {connector before n after} : n.comparisons = [] →
      Simplifies (.group ⟨connector, before ++ n :: after⟩) (.group ⟨connector, before ++ after⟩)
  | dropConstraint {allowed before c after condition} : c.group.comparisons = [] →
      Simplifies (.filter ⟨allowed, before ++ c :: after, condition⟩)
        (.filter ⟨allowed, before ++ after, condition⟩)
  | only {connector n} : Simplifies (.group ⟨connector, [n]⟩) n
  | splice {k before inner after} :
      Simplifies (.group ⟨some k, before ++ .group ⟨some k, inner⟩ :: after⟩)
        (.group ⟨some k, before ++ (inner ++ after)⟩)
  | member {connector before n n' after} : Simplifies n n' →
      Simplifies (.group ⟨connector, before ++ n :: after⟩)
        (.group ⟨connector, before ++ n' :: after⟩)
  | constraint {allowed before name g g' limits after condition} :
      Simplifies (.group g) (.group g') →
      Simplifies (.filter ⟨allowed, before ++ ⟨name, g, limits⟩ :: after, condition⟩)
        (.filter ⟨allowed, before ++ ⟨name, g', limits⟩ :: after, condition⟩)
  | condition {allowed constraints g g'} : Simplifies (.group g) (.group g') →
      Simplifies (.filter ⟨allowed, constraints, g⟩) (.filter ⟨allowed, constraints, g'⟩)

/-- A node is made simpler step by step. -/
def Node.Reduces : Node → Node → Prop :=
  Relation.ReflTransGen Node.Simplifies

/-! ### The normal form -/

/-- What stands in the place of a node among members joined by a connector: the
members of a group with this connector, or else the node itself. -/
def Node.spliced (connector : Option Connector) : Node → List Node
  | .group ⟨some k, inner⟩ => if connector = some k then inner else [.group ⟨some k, inner⟩]
  | n => [n]

/-- A node is spliced if it is a group with the connector, and stands as it is if not. -/
theorem Node.spliced_cases (connector : Option Connector) (n : Node) :
    (∃ k inner, connector = some k ∧ n = .group ⟨some k, inner⟩ ∧ n.spliced connector = inner) ∨
      (∀ k inner, connector = some k → n ≠ .group ⟨some k, inner⟩) ∧ n.spliced connector = [n] := by
  unfold spliced
  split
  next k inner =>
    split_ifs with hconnector
    · exact .inl ⟨k, inner, hconnector, rfl, rfl⟩
    · refine .inr ⟨?_, rfl⟩
      rintro k' inner' rfl hsame
      cases hsame
      exact hconnector rfl
  next hother => exact .inr ⟨fun k inner _ => hother k inner, rfl⟩

/-- The plain form of a group whose members are plain. -/
def assembled (connector : Option Connector) (members : List Node) : Node :=
  match members.filter fun n => !n.comparisons.isEmpty with
  | [only] => only
  | live => .group ⟨connector, live.flatMap (Node.spliced connector)⟩

mutual

/-- The normal form of a node. -/
def Node.normal : Node → Node
  | .test c => .test c
  | .group g => g.normal
  | .filter f => f.normal

/-- The normal form of a group. -/
def Group.normal : Group → Node
  | ⟨connector, members⟩ => assembled connector (membersNormal members)

/-- The normal forms of some nodes. -/
def membersNormal : List Node → List Node
  | [] => []
  | node :: rest => node.normal :: membersNormal rest

/-- The normal form of a filter, which joins its constraints and its condition. -/
def Filter.normal : Filter → Node
  | ⟨_, constraints, condition⟩ =>
      assembled (some .and) (constraintsNormal constraints ++ [condition.normal])

/-- The normal forms of some constraints. -/
def constraintsNormal : List Constraint → List Node
  | [] => []
  | ⟨_, group, _⟩ :: rest => group.normal :: constraintsNormal rest

end

theorem membersNormal_eq_map (members : List Node) :
    membersNormal members = members.map Node.normal := by
  induction members with
  | nil => rfl
  | cons node rest ih => simp [membersNormal, ih]

theorem constraintsNormal_eq_map (constraints : List Constraint) :
    constraintsNormal constraints = constraints.map fun c => c.group.normal := by
  induction constraints with
  | nil => rfl
  | cons c rest ih =>
      obtain ⟨name, group, allowed⟩ := c
      simp [constraintsNormal, ih]

/-- A filter has the normal form of the group that it is. -/
theorem Filter.normal_eq (f : Filter) : f.normal = f.asGroup.normal := by
  obtain ⟨allowed, constraints, condition⟩ := f
  rw [Filter.normal, Filter.asGroup, Group.normal, constraintsNormal_eq_map, membersNormal_eq_map]
  simp [Node.normal, Function.comp_def]

/-! ### A simplification changes nothing that is compiled -/

theorem Filter.formula_asGroup (f : Filter) : f.asGroup.formula = f.formula := by
  rw [Group.formula_eq, Filter.formula_eq, Filter.asGroup]
  simp [Node.formula]

namespace Node.Simplifies

/-- A part that gives way to one that is alike leaves a join alike. -/
theorem alike_replace {f g : Formula} (h : Alike f g) (connector : Option Connector)
    (before after : List Formula) :
    Alike (Formula.join connector (before ++ f :: after))
      (Formula.join connector (before ++ g :: after)) :=
  (((SameTerms.refl after).cons h).append_left before).alike connector

/-- A part that says nothing may go away. -/
theorem alike_drop {f : Formula} (h : f.isEmpty = true) (connector : Option Connector)
    (before after : List Formula) :
    Alike (Formula.join connector (before ++ f :: after))
      (Formula.join connector (before ++ after)) :=
  (((SameTerms.refl after).skip h).append_left before).alike connector

/-- A simplification leaves the formula of a node alike. -/
theorem alike {n n' : Node} (h : n.Simplifies n') : Alike n.formula n'.formula := by
  induction h with
  | @join f =>
      show Alike f.formula f.asGroup.formula
      rw [Filter.formula_asGroup]
      exact Alike.refl _
  | @drop connector before n after hnone =>
      have hempty : n.formula.isEmpty = true := Node.isEmpty_formula_iff.mpr hnone
      simp only [Node.formula, Group.formula_eq, List.map_append, List.map_cons]
      exact alike_drop hempty connector _ _
  | @dropConstraint allowed before c after condition hnone =>
      have hempty : (Node.group c.group).formula.isEmpty = true :=
        Node.isEmpty_formula_iff.mpr hnone
      simp only [Node.formula, Filter.formula_eq, List.map_append, List.map_cons,
        List.append_assoc, List.cons_append]
      exact alike_drop hempty (some .and) _ _
  | @only connector n =>
      simp only [Node.formula, Group.formula_eq, List.map_cons, List.map_nil]
      exact alike_join_singleton connector n.formula
  | @splice k before inner after =>
      simp only [Node.formula, Group.formula_eq, List.map_append, List.map_cons]
      exact alike_splice k _ _ _
  | @member connector before n n' after _ ih =>
      simp only [Node.formula, Group.formula_eq, List.map_append, List.map_cons]
      exact alike_replace ih connector _ _
  | @constraint allowed before name g g' limits after condition _ ih =>
      simp only [Node.formula, Filter.formula_eq, List.map_append, List.map_cons,
        List.append_assoc, List.cons_append]
      exact alike_replace ih (some .and) _ _
  | @condition allowed constraints g g' _ ih =>
      simp only [Node.formula, Filter.formula_eq]
      exact alike_replace ih (some .and) _ []

end Node.Simplifies

theorem Node.Reduces.alike {n n' : Node} (h : n.Reduces n') : Alike n.formula n'.formula := by
  induction h with
  | refl => exact Alike.refl _
  | tail _ hstep ih => exact ih.trans hstep.alike

/-! ### The normal form is reached -/

namespace Node.Reduces

variable {connector : Option Connector} {n n' : Node}

theorem of_simplifies (h : n.Simplifies n') : n.Reduces n' :=
  Relation.ReflTransGen.single h

theorem trans {n'' : Node} (h : n.Reduces n') (h' : n'.Reduces n'') : n.Reduces n'' :=
  Relation.ReflTransGen.trans h h'

/-- A member is made simpler where it stands. -/
theorem member (h : n.Reduces n') (before after : List Node) :
    (Node.group ⟨connector, before ++ n :: after⟩).Reduces
      (.group ⟨connector, before ++ n' :: after⟩) :=
  Relation.ReflTransGen.lift (fun n => Node.group ⟨connector, before ++ n :: after⟩)
    (fun _ _ => Simplifies.member) _ _ h

/-- If each of some members may give way to others, then they all may.  The members
in front of them are those that are done with. -/
theorem flatMap {f : Node → List Node} {members : List Node}
    (h : ∀ n ∈ members, ∀ before after, (Node.group ⟨connector, before ++ n :: after⟩).Reduces
      (.group ⟨connector, before ++ (f n ++ after)⟩)) (before : List Node) :
    (Node.group ⟨connector, before ++ members⟩).Reduces
      (.group ⟨connector, before ++ members.flatMap f⟩) := by
  induction members generalizing before with
  | nil => exact .refl
  | cons n rest ih =>
      have hfirst := h n List.mem_cons_self before rest
      -- what the first member gave way to is among those that are done with
      have hrest := ih (fun n hn => h n (List.mem_cons_of_mem _ hn)) (before ++ f n)
      rw [List.append_assoc, List.append_assoc] at hrest
      rw [List.flatMap_cons]
      exact hfirst.trans hrest

theorem map {f : Node → Node} {members : List Node} (h : ∀ n ∈ members, n.Reduces (f n)) :
    (Node.group ⟨connector, members⟩).Reduces (.group ⟨connector, members.map f⟩) := by
  rw [List.map_eq_flatMap]
  exact flatMap (fun n hn before after => (h n hn).member before after) []

/-- Members that say nothing are dropped. -/
theorem filter (connector : Option Connector) (members : List Node) :
    (Node.group ⟨connector, members⟩).Reduces
      (.group ⟨connector, members.filter fun n => !n.comparisons.isEmpty⟩) := by
  have hfilter : (members.filter fun n => !n.comparisons.isEmpty) =
      members.flatMap fun n => if n.comparisons.isEmpty then [] else [n] := by
    induction members with
    | nil => rfl
    | cons n rest ih =>
        rw [List.flatMap_cons, ← ih]
        rcases hnone : n.comparisons.isEmpty with - | - <;> simp [hnone]
  rw [hfilter]
  refine flatMap ?_ []
  intro n _ before after
  rcases hnone : n.comparisons.isEmpty with - | -
  · exact .refl
  · exact of_simplifies (.drop (List.isEmpty_iff.mp hnone))

/-- Groups give way to their members under their own connector. -/
theorem splice (connector : Option Connector) (members : List Node) :
    (Node.group ⟨connector, members⟩).Reduces
      (.group ⟨connector, members.flatMap (Node.spliced connector)⟩) := by
  refine flatMap ?_ []
  intro n _ before after
  rcases Node.spliced_cases connector n with ⟨k, inner, rfl, rfl, hspliced⟩ | ⟨-, hspliced⟩
  · rw [hspliced]
    exact of_simplifies .splice
  · rw [hspliced]
    exact .refl

theorem assembled (connector : Option Connector) (members : List Node) :
    (Node.group ⟨connector, members⟩).Reduces (assembled connector members) := by
  have hlive := filter connector members
  unfold WhereClause.assembled
  split
  next n honly =>
    rw [honly] at hlive
    exact hlive.trans (of_simplifies .only)
  next => exact hlive.trans (splice connector _)

end Node.Reduces

/-- A node is made simpler until it has its normal form. -/
theorem Node.reduces_normal (n : Node) : n.Reduces n.normal := by
  induction n using Node.induct with
  | test c => exact .refl
  | group connector members ih =>
      rw [Node.normal, Group.normal, membersNormal_eq_map]
      exact (Reduces.map ih).trans (Reduces.assembled connector _)
  | filter allowed constraints condition ihConstraints ihCondition =>
      rw [Node.normal, Filter.normal_eq, Filter.asGroup, Group.normal, membersNormal_eq_map]
      have hjoin := Reduces.of_simplifies (@Simplifies.join ⟨allowed, constraints, condition⟩)
      have hmembers : ∀ n ∈ (Filter.asGroup ⟨allowed, constraints, condition⟩).members,
          n.Reduces n.normal := Filter.forall_mem_asGroup ihConstraints ihCondition
      exact (hjoin.trans (Reduces.map hmembers)).trans (Reduces.assembled (some .and) _)

/-! ### Nothing is left to simplify -/

/-- A comparison, or a group of two plain members or more, none of which is a group
with the same connector. -/
inductive Node.Plain : Node → Prop
  | test (c : Comparison) : Plain (.test c)
  | group {connector members} : 2 ≤ members.length → (∀ n ∈ members, Plain n) →
      (∀ k inner, connector = some k → .group ⟨some k, inner⟩ ∉ members) →
        Plain (.group ⟨connector, members⟩)

namespace Node.Plain

variable {connector : Option Connector} {members : List Node} {n n' : Node}

theorem comparisons_ne_nil (h : n.Plain) : n.comparisons ≠ [] := by
  induction h with
  | test c => exact List.cons_ne_nil c []
  | @group connector members htwo _ _ ih =>
      obtain ⟨n, rest, rfl⟩ := List.exists_cons_of_length_pos (Nat.lt_of_succ_lt htwo)
      intro hnone
      exact ih n List.mem_cons_self (List.append_eq_nil_iff.mp hnone).1

/-- A plain node is not made simpler. -/
theorem not_simplifies (h : n.Plain) (n' : Node) : ¬ n.Simplifies n' := by
  induction h generalizing n' with
  | test c => exact nofun
  | @group connector members htwo hplain hapart ih =>
      intro hstep
      cases hstep with
      | drop hnone => exact (hplain _ (by simp)).comparisons_ne_nil hnone
      | only => exact absurd htwo (by simp)
      | @splice k before inner after => exact hapart k inner rfl (by simp)
      | member hmember => exact ih _ (by simp) _ hmember

theorem spliced_ne_nil (h : n.Plain) (connector : Option Connector) :
    n.spliced connector ≠ [] := by
  rcases Node.spliced_cases connector n with ⟨k, inner, -, rfl, hspliced⟩ | ⟨-, hspliced⟩
  · rw [hspliced]
    rcases h with - | ⟨htwo, -, -⟩
    exact List.ne_nil_of_length_pos (Nat.lt_of_succ_lt htwo)
  · rw [hspliced]
    exact List.cons_ne_nil n []

/-- What is spliced from a plain node is plain. -/
theorem of_mem_spliced (h : n.Plain) (hn : n' ∈ n.spliced connector) : n'.Plain := by
  rcases Node.spliced_cases connector n with ⟨k, inner, -, rfl, hspliced⟩ | ⟨-, hspliced⟩
  · rw [hspliced] at hn
    rcases h with - | ⟨-, hplain, -⟩
    exact hplain n' hn
  · rw [hspliced, List.mem_singleton] at hn
    rwa [hn]

/-- No group with the connector is spliced from a plain node. -/
theorem notMem_spliced (h : n.Plain) (k : Connector) (inner : List Node) :
    .group ⟨some k, inner⟩ ∉ n.spliced (some k) := by
  intro hn
  rcases Node.spliced_cases (some k) n with ⟨k', inner', hk, rfl, hspliced⟩ | ⟨hother, hspliced⟩
  · obtain rfl := Option.some.inj hk
    rw [hspliced] at hn
    rcases h with - | ⟨-, -, hapart⟩
    exact hapart k inner rfl hn
  · rw [hspliced, List.mem_singleton] at hn
    exact hother k inner rfl hn.symm

end Node.Plain

/-- A node is plain, or it is a group of nothing. -/
def Node.Settled (n : Node) : Prop :=
  n.Plain ∨ ∃ connector, n = .group ⟨connector, []⟩

namespace Node.Settled

variable {n : Node}

theorem plain (h : n.Settled) (hsome : n.comparisons ≠ []) : n.Plain := by
  rcases h with hplain | ⟨connector, rfl⟩
  · exact hplain
  · exact absurd rfl hsome

theorem not_simplifies (h : n.Settled) (n' : Node) : ¬ n.Simplifies n' := by
  rcases h with hplain | ⟨connector, rfl⟩
  · exact hplain.not_simplifies n'
  -- there is no member to make a step with
  · intro hstep
    generalize hgroup : Node.group ⟨connector, []⟩ = n at hstep
    cases hstep <;> simp at hgroup

/-- A group of settled members is put together to a settled node. -/
theorem assembled {members : List Node} (h : ∀ n ∈ members, n.Settled)
    (connector : Option Connector) : (assembled connector members).Settled := by
  have hlive : ∀ n ∈ members.filter fun n => !n.comparisons.isEmpty, n.Plain := by
    intro n hn
    obtain ⟨hn, hsome⟩ := List.mem_filter.mp hn
    exact (h n hn).plain (by simpa using hsome)
  unfold WhereClause.assembled
  generalize (members.filter fun n => !n.comparisons.isEmpty) = live at hlive ⊢
  rcases live with - | ⟨n, - | ⟨n', rest⟩⟩
  · exact .inr ⟨connector, rfl⟩
  · exact .inl (hlive n List.mem_cons_self)
  -- each of several members leaves something in its place
  · refine .inl (.group ?_ ?_ ?_)
    · have hn := List.length_pos_iff.mpr ((hlive n (by simp)).spliced_ne_nil connector)
      have hn' := List.length_pos_iff.mpr ((hlive n' (by simp)).spliced_ne_nil connector)
      simp only [List.flatMap_cons, List.length_append]
      omega
    · intro m hm
      obtain ⟨n, hn, hm⟩ := List.mem_flatMap.mp hm
      exact (hlive n hn).of_mem_spliced hm
    · rintro k inner rfl hm
      obtain ⟨n, hn, hm⟩ := List.mem_flatMap.mp hm
      exact (hlive n hn).notMem_spliced k inner hm

end Node.Settled

theorem Node.settled_normal (n : Node) : n.normal.Settled := by
  have hgroup : ∀ g : Group, (∀ n ∈ g.members, n.normal.Settled) → g.normal.Settled := by
    rintro ⟨connector, members⟩ hmembers
    rw [Group.normal, membersNormal_eq_map]
    exact Settled.assembled (List.forall_mem_map.mpr hmembers) connector
  induction n using Node.induct with
  | test c => exact .inl (.test c)
  | group connector members ih => exact hgroup ⟨connector, members⟩ ih
  | filter allowed constraints condition ihConstraints ihCondition =>
      rw [Node.normal, Filter.normal_eq]
      exact hgroup _ (Filter.forall_mem_asGroup ihConstraints ihCondition)

/-! ### What is compiled depends on the normal form only -/

/-- The normal form of a node is reached by simplifications, and nothing is left to
simplify in it.  The same is compiled from it as from the node, and from whatever
else has this normal form; and no simplification matters. -/
theorem sameForm_normal (n : Node) :
    (n.Reduces n.normal ∧ ∀ n', ¬ n.normal.Simplifies n') ∧ n.SameForm n.normal ∧
      (∀ n', n'.normal = n.normal → n.SameForm n') ∧ ∀ n', n.Simplifies n' → n.SameForm n' := by
  have hnormal : ∀ n : Node, Alike n.formula n.normal.formula := fun n => n.reduces_normal.alike
  refine ⟨⟨n.reduces_normal, n.settled_normal.not_simplifies⟩, .of_alike (hnormal n), ?_, ?_⟩
  · intro n' hsame
    have hback := (hnormal n').symm
    rw [hsame] at hback
    exact .of_alike ((hnormal n).trans hback)
  · intro n' hstep
    exact .of_alike hstep.alike

/-- The same is compiled from `mixedFilter` as from a group without any filter or
empty group in it. -/
theorem sameForm_normal_mixedFilter :
    let n : Node := .filter mixedFilter
    let plain : Node := .group ⟨some .and,
      [.group ⟨some .or, [.test (.on "s" .equal (.of (1 : Int64))),
          .test (.on "s" .equal (.of (2 : Int64)))]⟩,
        .group ⟨some .or, [.test (.on "a" .equal (.field "b")),
          .group ⟨some .and, [.test (.on "c" .isNull (.of (0 : Int64))),
            .test (.on "d" .contains (.of "x"))]⟩]⟩]⟩
    n.normal = plain ∧ plain.normal = n.normal ∧ n.SameForm plain :=
  ⟨rfl, rfl, (sameForm_normal (.filter mixedFilter)).2.2.1 _ rfl⟩

end WhereClause

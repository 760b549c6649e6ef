/-
WhereClause/Proofs/Reachable.lean

The nodes that builders can make.

`Node.Reachable` starts with comparisons and with new groups and filters, and goes on
with operations, refused or not, at the sites where they are called.  What comes in
with an operation has to be reachable itself: the members that are added, and what the
building of a nested group or filter leaves.  A part of a reachable node is reachable,
since it may be copied out of it.

`Node.Kept` says what is asked of a property for it to hold of all reachable nodes
(`Node.Reachable.kept`).  Of operations on a group it asks for one thing only, that the
property is kept when a member is added, and of those on a filter it may ask how they ended.

Programs of operations make reachable nodes (`Recipe.prepares`,
`runFilterSteps_reachable`).  The key is `Grows`, which says that members came to a group
one by one at a site.  `Step.grows` proves this of all steps, wherever they are run, and
only then is it looked at whether the group stood alone or was the condition of a filter.
-/
import Mathlib.Logic.Relation
import WhereClause.Proofs.Operations
import WhereClause.Proofs.Planned
import WhereClause.Script

namespace WhereClause

/-! ### Reachable nodes -/

/-- A site outside of filters: of a plain group or a condition, or of a constraint. -/
inductive Site.Plain : Site → Prop
  | condition : Plain .condition
  | constraint {allowed name} : Plain (.constraint allowed name)

/-- What builders can make. -/
inductive Node.Reachable : Node → Prop
  | test {c} : Reachable (.test c)
  | newGroup : Reachable (.group {})
  | newFilter {allowed} : Reachable (.filter (.limited allowed))
  | onGroup {g site} (op : Group.Operation) : Reachable (.group g) → site.Plain →
      (∀ n ∈ op.brings site, Reachable n) → Reachable (.group ((op.work site).on g).state)
  | onFilter {f} (op : Filter.Operation) : Reachable (.filter f) →
      (∀ n ∈ op.brings f, Reachable n) → Reachable (.filter (op.work.on f).state)
  | member {g n} : Reachable (.group g) → n ∈ g.members → Reachable n
  | constraint {f c} : Reachable (.filter f) → c ∈ f.constraints → Reachable (.group c.group)
  | condition {f} : Reachable (.filter f) → Reachable (.group f.condition)

namespace Node

theorem Reachable.added {site : Site} {node : Node} {connector : Option Connector} {g h : Group}
    (hg : Reachable (.group g)) (hnode : node.Reachable) (hadds : g.Adds site node connector h) :
    Reachable (.group h) := by
  have hop := hg.onGroup (.append connector node) .condition fun n hn =>
    List.mem_singleton.mp hn ▸ hnode
  rwa [Group.Operation.work, hadds.append_on (AllowList.check_all _)] at hop

theorem Reachable.addedToCondition {node : Node} {connector : Option Connector} {f : Filter}
    {h : Group} (hf : Reachable (.filter f)) (hnode : node.Reachable)
    (hadds : f.condition.Adds f.site node connector h) :
    Reachable (.filter (f.withCondition h)) := by
  have hop := hf.onFilter (.append connector node) fun n hn =>
    List.mem_singleton.mp hn ▸ hnode
  have hon : ((Filter.Operation.append connector node).work.on f).state =
      f.withCondition ((Group.append f.site node connector).on f.condition).state := rfl
  rwa [hon, hadds.append_on hadds.allowed] at hop

end Node

/-! ### Properties of all reachable nodes -/

/-- A property that builders keep.  It passes on to the parts of a node, and a filter has it
after an operation if it had it before and all its parts have it. -/
structure Node.Kept (motive : Node → Prop) : Prop where
  test : ∀ c, motive (.test c)
  newGroup : motive (.group {})
  newFilter : ∀ allowed, motive (.filter (.limited allowed))
  add : ∀ {site node connector} {g h : Group}, motive (.group g) → motive node →
    g.Adds site node connector h → motive (.group h)
  operate : ∀ {op : Filter.Operation} {f h result}, motive (.filter f) → f.Outcome op h result →
    (∀ c ∈ h.constraints, motive (.group c.group)) → motive (.group h.condition) →
      motive (.filter h)
  member : ∀ {g : Group} {n}, motive (.group g) → n ∈ g.members → motive n
  constraint : ∀ {f : Filter} {c}, motive (.filter f) → c ∈ f.constraints → motive (.group c.group)
  condition : ∀ {f : Filter}, motive (.filter f) → motive (.group f.condition)

namespace Node

variable {motive : Node → Prop} {n : Node}

/-- Every operation on a group keeps the property. -/
theorem Kept.group (hkept : Kept motive) {site : Site} {op : Group.Operation} {g h : Group}
    {result : Except Refusal Unit} (houtcome : g.Outcome site op h result)
    (hbrings : ∀ n ∈ op.brings site, motive n) (hg : motive (.group g)) :
    motive (.group h) := by
  cases houtcome with
  | refused => exact hg
  | added hnode hadds => exact hkept.add hg (hnode.elim hkept.test hbrings) hadds

theorem Kept.inOrder (hkept : Kept motive) {site : Site} {operations : List Group.Operation}
    (hbrings : ∀ n ∈ operations.flatMap (Group.Operation.brings site), motive n) {g : Group}
    (hg : motive (.group g)) :
    motive (.group ((Group.Operation.inOrder site operations).on g).state) := by
  refine Group.Operation.inOrder_induct (motive := fun g => motive (.group g)) ?_ hg
  intro op hop g hg
  refine hkept.group (op.outcome site g) ?_ hg
  exact fun n hn => hbrings n (List.mem_flatMap.mpr ⟨op, hop, hn⟩)

/-- The constraints of a filter have the property if another one with it is stored. -/
theorem Kept.store (hkept : Kept motive) {f : Filter} {c : Constraint} (hf : motive (.filter f))
    (hc : motive (.group c.group)) : ∀ d ∈ (f.store c).constraints, motive (.group d.group) := by
  intro d hd
  rcases Filter.mem_of_mem_putConstraint hd with rfl | hd
  · exact hc
  · exact hkept.constraint hf hd

theorem Kept.gives (hkept : Kept motive) {f : Filter} {name : String} {c : Constraint}
    (hgives : f.Gives name c) (hf : motive (.filter f)) : motive (.group c.group) := by
  cases hgives with
  | found h => exact hkept.constraint hf (List.mem_of_find?_eq_some h)
  | created _ => exact hkept.newGroup

/-- Every operation on a filter keeps the property. -/
theorem Kept.filter (hkept : Kept motive) {op : Filter.Operation} {f h : Filter}
    {result : Except Refusal Unit} (houtcome : f.Outcome op h result)
    (hbrings : ∀ n ∈ op.brings f, motive n) (hf : motive (.filter f)) :
    motive (.filter h) := by
  have hafter := hkept.operate hf houtcome
  have hcondition := hkept.condition hf
  cases houtcome with
  | refused => exact hf
  | added _ hnode hadds =>
      exact hafter (fun _ hc => hkept.constraint hf hc)
        (hkept.add hcondition (hnode.elim hkept.test hbrings) hadds)
  | constrained _ hgives hrun =>
      subst hrun
      rw [Filter.Operation.brings, ← hgives.eq_given] at hbrings
      exact hafter (hkept.store hf (hkept.inOrder hbrings (hkept.gives hgives hf))) hcondition
  | equality _ hadds =>
      exact hafter (hkept.store hf (hkept.add hkept.newGroup (hkept.test _) hadds)) hcondition
  | prepared _ _ _ =>
      exact hafter (hkept.store hf (hbrings _ (List.mem_singleton.mpr rfl))) hcondition

/-- What builders keep holds of every reachable node. -/
theorem Reachable.kept (hn : n.Reachable) (hkept : Kept motive) : motive n := by
  induction hn with
  | test => exact hkept.test _
  | newGroup => exact hkept.newGroup
  | newFilter => exact hkept.newFilter _
  | @onGroup g site op _ _ _ ih ihBrings => exact hkept.group (op.outcome site g) ihBrings ih
  | @onFilter f op _ _ ih ihBrings => exact hkept.filter (op.outcome f) ihBrings ih
  | member _ hmember ih => exact hkept.member ih hmember
  | constraint _ hc ih => exact hkept.constraint ih hc
  | condition _ ih => exact hkept.condition ih

end Node

/-! ### Members that come one by one -/

/-- A group with more members, all of them reachable, which came one by one. -/
def Group.Grows (site : Site) : Group → Group → Prop :=
  Relation.ReflTransGen fun g h =>
    ∃ node connector, node.Reachable ∧ g.Adds site node connector h

/-- A site at which nested groups become reachable nodes. -/
def Site.Nests (site : Site) : Prop :=
  ∀ g : Group, Group.Grows site {} g → (site.nested g).Reachable

namespace Group

variable {site : Site} {g h : Group}

theorem Grows.reachable (hgrows : g.Grows site h) (hg : (Node.group g).Reachable) :
    (Node.group h).Reachable := by
  induction hgrows with
  | refl => exact hg
  | tail _ hstep ih =>
      obtain ⟨node, connector, hnode, hadds⟩ := hstep
      exact ih.added hnode hadds

theorem Grows.reachable_filter {f : Filter} (hgrows : f.condition.Grows f.site h)
    (hf : (Node.filter f).Reachable) : (Node.filter (f.withCondition h)).Reachable := by
  induction hgrows with
  | refl => rwa [Filter.withCondition_condition]
  | @tail g h _ hstep ih =>
      obtain ⟨node, connector, hnode, hadds⟩ := hstep
      exact ih.addedToCondition (f := f.withCondition g) hnode hadds

/-- What came one by one can be brought in by operations in order. -/
theorem Grows.exists_operations (hgrows : g.Grows site h) :
    ∃ operations : List Operation,
      (∀ op ∈ operations, ∀ n ∈ op.brings site, n.Reachable) ∧
        ((Operation.inOrder site operations).on g).state = h := by
  induction hgrows using Relation.ReflTransGen.head_induction_on with
  | refl => exact ⟨[], fun _ hop => absurd hop List.not_mem_nil, rfl⟩
  | head hstep _ ih =>
      obtain ⟨node, connector, hnode, hadds⟩ := hstep
      obtain ⟨operations, hbrings, hstate⟩ := ih
      refine ⟨.append connector node :: operations, List.forall_mem_cons.mpr ⟨?_, hbrings⟩, ?_⟩
      · exact fun n hn => List.mem_singleton.mp hn ▸ hnode
      · rw [Operation.inOrder, Operation.work, Work.bind_of_ok (hadds.append_on hadds.allowed)]
        exact hstate

theorem Outcome.grows {op : Operation} {result : Except Refusal Unit}
    (houtcome : g.Outcome site op h result)
    (hbrings : ∀ n ∈ op.brings site, n.Reachable) : g.Grows site h := by
  cases houtcome with
  | refused => exact .refl
  | @added node h hnode hadds =>
      exact .single ⟨node, op.connector, hnode.elim (fun _ => .test) hbrings, hadds⟩

end Group

theorem Site.Plain.nests {site : Site} (h : site.Plain) : site.Nests := by
  intro g hgrows
  cases h with
  | condition => exact hgrows.reachable .newGroup
  | constraint => exact hgrows.reachable .newGroup

theorem Filter.site_nests (f : Filter) : f.site.Nests := by
  intro g hgrows
  exact Group.Grows.reachable_filter (f := limited f.allowed) hgrows .newFilter

/-! ### Programs of operations -/

/-- Work that finds a reachable node, and leaves the group alone that the node is for. -/
def Work.Prepares (work : Work Group Node) : Prop :=
  ∀ g, (work.on g).state = g ∧ ∀ node, (work.on g).result = .ok node → node.Reachable

theorem Work.prepares_pure {node : Node} (h : node.Reachable) :
    (pure node : Work Group Node).Prepares := by
  refine fun g => ⟨rfl, ?_⟩
  rintro node ⟨⟩
  exact h

theorem Work.prepares_aside {α : Type} {fresh : α} {build : Work α Unit} {node : α → Node}
    (h : (node (build.on fresh).state).Reachable) :
    (aside fresh build >>= fun inside => (pure (node inside) : Work Group Node)).Prepares := by
  intro g
  rw [aside_bind]
  split
  · exact prepares_pure h g
  · exact ⟨rfl, nofun⟩

mutual

/-- A step makes a group grow, wherever it is run. -/
theorem Step.grows {site : Site} (hsite : site.Nests) (step : Step) (g : Group) :
    g.Grows site ((step.run site).on g).state := by
  cases step with
  | compare connector field operator value =>
      exact ((Group.Operation.compare connector field operator value).outcome site g).grows
        fun n hn => absurd hn List.not_mem_nil
  | append connector recipe =>
      show g.Grows site
        ((recipe.prepare >>= fun node => Group.append site node connector).on g).state
      obtain ⟨hstate, hnode⟩ := recipe.prepares g
      rw [Work.state_bind, hstate]
      split
      · next node hresult =>
          refine ((Group.Operation.append connector node).outcome site g).grows ?_
          exact fun n hn => List.mem_singleton.mp hn ▸ hnode node hresult
      · exact .refl
  | group connector body =>
      -- the nested group is built at the same site as the one around it
      refine ((Group.Operation.group connector (runSteps body)).outcome site g).grows ?_
      intro n hn
      rw [List.mem_singleton.mp hn]
      exact hsite _ (runSteps_grows hsite body {})
  | check connector =>
      have hstate : (((Step.check connector).run site).on g).state = g := by
        show ((Work.look >>= fun h => Work.demand (h.check connector) >>= fun _ =>
          pure ()).on g).state = g
        rw [Work.look_bind, Work.demand_bind]
        split
        · rfl
        · rfl
      rw [hstate]
      exact .refl
  | attempt step => exact step.grows hsite g

theorem runSteps_grows {site : Site} (hsite : site.Nests) (steps : List Step) (g : Group) :
    g.Grows site ((runSteps steps site).on g).state := by
  cases steps with
  | nil => exact .refl
  | cons step rest =>
      have hstep := step.grows hsite g
      rw [runSteps, Work.state_bind]
      split
      · exact hstep.trans (runSteps_grows hsite rest _)
      · exact hstep

/-- A recipe prepares a reachable node. -/
theorem Recipe.prepares (recipe : Recipe) : recipe.prepare.Prepares := by
  cases recipe with
  | comparison c => exact Work.prepares_pure .test
  | make field operator value =>
      intro g
      rw [Recipe.prepare, Work.demand_bind]
      split
      · exact Work.prepares_pure .test g
      · exact ⟨rfl, nofun⟩
  | group body =>
      have hsite : Site.condition.Nests := Site.Plain.condition.nests
      exact Work.prepares_aside ((runSteps_grows hsite body {}).reachable .newGroup)
  | constraint name body =>
      have hsite : (Site.constraint .all name).Nests := Site.Plain.constraint.nests
      exact Work.prepares_aside ((runSteps_grows hsite body {}).reachable .newGroup)
  | filter allowed body => exact Work.prepares_aside (runFilterSteps_reachable body .newFilter)

/-- Steps on a reachable filter leave a reachable filter. -/
theorem FilterStep.reachable (step : FilterStep) {f : Filter} (hf : (Node.filter f).Reachable) :
    (Node.filter (step.run.on f).state).Reachable := by
  cases step with
  | shared step => exact (step.grows f.site_nests f.condition).reachable_filter hf
  | group connector body =>
      refine hf.onFilter (.group connector (runFilterSteps body)) ?_
      intro n hn
      rw [List.mem_singleton.mp hn]
      exact runFilterSteps_reachable body .newFilter
  | constrain name body =>
      show (Node.filter ((Filter.constrain name fun site => runSteps body site).on f).state).Reachable
      rcases Filter.constrain_cases name f with ⟨reason, -, h⟩ | ⟨c, -, hgives, -, h⟩
      · rw [h]
        exact hf
      · -- the same comes of operations that bring in what the steps have added
        have hsite : c.site.Nests := Site.Plain.constraint.nests
        obtain ⟨operations, hbrings, hstate⟩ :=
          (runSteps_grows hsite body c.group).exists_operations
        have hop := hf.onFilter (.constrain name operations) fun n hn => by
          rw [Filter.Operation.brings, ← hgives.eq_given] at hn
          obtain ⟨op, hop, hn⟩ := List.mem_flatMap.mp hn
          exact hbrings op hop n hn
        rw [Filter.Operation.work, h] at hop
        rw [h]
        simpa only [Run.map, hstate] using hop
  | set name value =>
      exact hf.onFilter (.set name value) fun n hn => absurd hn List.not_mem_nil
  | setConstraint name own body =>
      show (Node.filter ((Work.aside {} (runSteps body (.constraint .all own)) >>= fun group =>
        Filter.setConstraint name ⟨own, group, .all⟩).on f).state).Reachable
      have hsite : (Site.constraint .all own).Nests := Site.Plain.constraint.nests
      have hgroup := (runSteps_grows hsite body {}).reachable .newGroup
      rw [Work.aside_bind]
      split
      · refine hf.onFilter (.setConstraint name ⟨own, _, .all⟩) ?_
        exact fun n hn => List.mem_singleton.mp hn ▸ hgroup
      · exact hf
  | attempt step => exact step.reachable hf

theorem runFilterSteps_reachable (steps : List FilterStep) {f : Filter}
    (hf : (Node.filter f).Reachable) :
    (Node.filter ((runFilterSteps steps).on f).state).Reachable := by
  cases steps with
  | nil => exact hf
  | cons step rest =>
      have hstep := step.reachable hf
      rw [runFilterSteps, Work.state_bind]
      split
      · exact runFilterSteps_reachable rest hstep
      · exact hstep

end

/-- Operations that make `mixedFilter`. -/
def mixedRecipe : Recipe :=
  .filter .all
    [.constrain "s" [.compare .and "s" (.known .equal) (.of (1 : Int64)),
        .compare .or "s" (.known .equal) (.of (2 : Int64))],
      .constrain "t" [],
      .shared (.append none (.group [])),
      .shared (.compare .or "a" (.known .equal) (.field "b")),
      .group .or [.constrain "c" [.compare .and "c" (.known .isNull) (.of (0 : Int64))],
        .shared (.append none (.group [.compare .and "d" (.known .contains) (.of "x")]))]]

theorem mixedFilter_reachable : (Node.filter mixedFilter).Reachable :=
  (mixedRecipe.prepares {}).2 _ rfl

end WhereClause

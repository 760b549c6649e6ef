/-
WhereClause/Proofs/Recipes.lean

Recipes for nodes.

`Node.recipe` reads a node back into a recipe that prepares it: steps add the members of a
group one by one under its connector, and a filter is given its constraints and then the
members of its condition.  This works for every node that builders can make
(`Node.Reachable.makes`), and for a group it works at any site where what it mentions is
allowed.

It rests on what is known of reachable nodes.  A group of several members has its connector,
so that no member but the first is added without one.  A filter has one constraint at most
on each field, so that none of them takes the place of another one, and it keeps to its own
allow-list (`Node.Reachable.guarded`), so that no step is refused.

As a recipe prepares nothing but reachable nodes, these are the nodes that scripts can make
(`reachable_iff_exists_makes`).
-/
import WhereClause.Proofs.Allowed
import WhereClause.Proofs.SingleConnector

namespace WhereClause

/-! ### Work that is not refused -/

/-- Work on a value that finds something, and how it leaves the value. -/
structure Work.Finds {σ α : Type} (w : Work σ α) (s : σ) (a : α) (t : σ) : Prop where
  result_eq : (w.on s).result = .ok a
  state_eq : (w.on s).state = t

namespace Work.Finds

variable {σ τ α β : Type} {w : Work σ α} {s t u : σ} {a : α} {b : β}

/-- Work goes on from what it has found so far. -/
theorem result_bind (h : w.Finds s a t) (next : α → Work σ β) :
    ((w >>= next).on s).result = ((next a).on t).result := by
  rw [Work.result_bind, h.result_eq, h.state_eq]

theorem state_bind (h : w.Finds s a t) (next : α → Work σ β) :
    ((w >>= next).on s).state = ((next a).on t).state := by
  rw [Work.state_bind, h.result_eq, h.state_eq]

theorem bind {next : α → Work σ β} (h : w.Finds s a t) (hnext : (next a).Finds t b u) :
    (w >>= next).Finds s b u :=
  ⟨(h.result_bind next).trans hnext.result_eq, (h.state_bind next).trans hnext.state_eq⟩

/-- Work on another value finds how that one was left. -/
theorem aside {build : Work τ Unit} {fresh inside : τ} (h : build.Finds fresh () inside) (s : σ) :
    (Work.aside fresh build).Finds s inside s := by
  refine ⟨?_, rfl⟩
  show (build.on fresh).result.map (fun _ => (build.on fresh).state) = .ok inside
  rw [h.result_eq, h.state_eq]
  rfl

end Work.Finds

/-- A recipe that prepares a node. -/
def Recipe.Makes (recipe : Recipe) (node : Node) : Prop :=
  ∀ g, recipe.prepare.Finds g node g

/-! ### The recipe of a node -/

mutual

/-- A recipe for a node. -/
def Node.recipe : Node → Recipe
  | .test c => .comparison c
  | .group g => .group g.script
  | .filter f => f.recipe

/-- Steps that make a new group this one. -/
def Group.script : Group → List Step
  | ⟨connector, members⟩ => membersScript connector members

/-- Steps that add members under a connector. -/
def membersScript (connector : Option Connector) : List Node → List Step
  | [] => []
  | node :: rest => .append connector node.recipe :: membersScript connector rest

/-- A recipe for a filter. -/
def Filter.recipe : Filter → Recipe
  | ⟨allowed, constraints, condition⟩ =>
      .filter allowed (constraintsScript constraints ++ condition.script.map .shared)

/-- Steps that store constraints. -/
def constraintsScript : List Constraint → List FilterStep
  | [] => []
  | ⟨name, group, _⟩ :: rest =>
      .setConstraint name name group.script :: constraintsScript rest

end

/-! ### Members -/

section Members

variable {site : Site} {g h : Group} {node : Node} {connector : Option Connector}

/-- A member that is prepared and may be added is added. -/
theorem Group.Adds.finds (hadds : g.Adds site node connector h) {recipe : Recipe}
    (hmakes : recipe.Makes node) : ((Step.append connector recipe).run site).Finds g () h := by
  have hcount : (Work.count : Work Group Unit).Finds g () g := ⟨rfl, rfl⟩
  have happend := hadds.append_on hadds.allowed
  rw [Step.run]
  exact hcount.bind ((hmakes g).bind ⟨by rw [happend], by rw [happend]⟩)

/-- Members are added one by one to a group that has a connector. -/
theorem membersScript_finds_of_connector {k : Connector} {members : List Node}
    (hmakes : ∀ n ∈ members, n.recipe.Makes n)
    (hallowed : ∀ n ∈ members, ∀ name ∈ n.mentions, site.allowed.allows name)
    (hg : g.connector = some k) :
    (runSteps (membersScript (some k) members) site).Finds g () ⟨some k, g.members ++ members⟩ := by
  induction members generalizing g with
  | nil =>
      obtain ⟨connector, members⟩ := g
      obtain rfl : connector = some k := hg
      rw [List.append_nil]
      exact ⟨rfl, rfl⟩
  | cons n rest ih =>
      rw [List.forall_mem_cons] at hmakes hallowed
      have hcheck : g.check (some k) = .ok (some k) := by
        simp [Group.check, hg]
      have hadds : g.Adds site n (some k) ⟨some k, g.members ++ [n]⟩ :=
        ⟨AllowList.check_eq_ok_iff.mpr hallowed.1, hcheck, rfl⟩
      have hrest := ih hmakes.2 hallowed.2 rfl (g := ⟨some k, g.members ++ [n]⟩)
      rw [List.append_assoc] at hrest
      exact (hadds.finds hmakes.1).bind hrest

/-- A group that its script makes, wherever what it mentions is allowed. -/
def Group.Scripted (g : Group) : Prop :=
  ∀ site : Site, (∀ name ∈ g.mentions, site.allowed.allows name) →
    (runSteps g.script site).Finds {} () g

/-- A group with a connector if it needs one is made of its members. -/
theorem Group.scripted_of_members (hmakes : ∀ n ∈ g.members, n.recipe.Makes n)
    (hconnector : g.connector = none ↔ g.members.length < 2) : g.Scripted := by
  intro site hallowed
  obtain ⟨connector, members⟩ := g
  have hmembers : ∀ n ∈ members, ∀ name ∈ n.mentions, site.allowed.allows name := by
    intro n hn name hname
    refine hallowed name ?_
    rw [Group.mentions_eq_flatMap]
    exact List.mem_flatMap.mpr ⟨n, hn, hname⟩
  have hfirst : ∀ n ∈ members, Adds site n connector {} ⟨none, [n]⟩ := fun n hn =>
    ⟨AllowList.check_eq_ok_iff.mpr (hmembers n hn), rfl, rfl⟩
  dsimp only at hmakes hconnector
  rw [Group.script]
  rcases members with - | ⟨first, - | ⟨second, rest⟩⟩
  · obtain rfl : connector = none := hconnector.mpr (by simp)
    exact ⟨rfl, rfl⟩
  · obtain rfl : connector = none := hconnector.mpr (by simp)
    have hnone : (runSteps [] site).Finds (⟨none, [first]⟩ : Group) () ⟨none, [first]⟩ :=
      ⟨rfl, rfl⟩
    exact ((hfirst first List.mem_cons_self).finds (hmakes first List.mem_cons_self)).bind hnone
  · obtain ⟨k, rfl⟩ := Option.ne_none_iff_exists'.mp (mt hconnector.mp (by simp))
    simp only [List.forall_mem_cons] at hmakes hmembers hfirst
    -- the connector is fixed with the second member
    have hsecond : Adds site second (some k) ⟨none, [first]⟩ ⟨some k, [first, second]⟩ :=
      ⟨AllowList.check_eq_ok_iff.mpr hmembers.2.1, rfl, rfl⟩
    have hrest := membersScript_finds_of_connector hmakes.2.2 hmembers.2.2
      (g := ⟨some k, [first, second]⟩) rfl
    exact (hfirst.1.finds hmakes.1).bind ((hsecond.finds hmakes.2.1).bind hrest)

end Members

/-! ### Filters -/

/-- Steps that are shared with groups are carried out on the condition. -/
theorem runFilterSteps_map_shared (steps : List Step) (f : Filter) :
    (runFilterSteps (steps.map .shared)).on f =
      ((runSteps steps f.site).on f.condition).map f.withCondition := by
  induction steps generalizing f with
  | nil =>
      show (⟨f, .ok (), 0⟩ : Run Filter Unit) = ⟨f.withCondition f.condition, .ok (), 0⟩
      rw [Filter.withCondition_condition]
  | cons step rest ih =>
      have hshared : (FilterStep.shared step).run.on f =
          ((step.run f.site).on f.condition).map f.withCondition := rfl
      rw [List.map_cons, runFilterSteps, runSteps]
      rcases hstep : (step.run f.site).on f.condition with ⟨h, result, started⟩
      rw [hstep] at hshared
      cases result with
      | error reason =>
          rw [Work.bind_of_error hstep, Work.bind_of_error hshared]
          rfl
      | ok _ =>
          rw [Work.bind_of_ok hstep, Work.bind_of_ok hshared, ih]
          rfl

/-- A constraint that is prepared under a new name is stored behind the others. -/
theorem FilterStep.setConstraint_finds {f : Filter} {c : Constraint} (hc : c.Guarded f.allowed)
    (hgroup : c.group.Scripted) (hnew : c.name ∉ f.names) :
    (FilterStep.setConstraint c.name c.name c.group.script).run.Finds f ()
      { f with constraints := f.constraints ++ [c] } := by
  obtain ⟨name, group, allowed⟩ := c
  obtain rfl : allowed = f.allowed := hc.allowed_eq
  have hcount : (Work.count : Work Filter Unit).Finds f () f := ⟨rfl, rfl⟩
  have hmade := (hgroup (.constraint .all name) fun x _ => AllowList.allows_all x).aside f
  have hname : f.allowed.check [name] = .ok () :=
    AllowList.check_eq_ok_iff.mpr (List.forall_mem_singleton.mpr hc.name)
  have hmentions : f.allowed.check group.mentions = .ok () := AllowList.check_eq_ok_iff.mpr hc.group
  have hfind : f.constraint? name = none := Filter.constraint?_eq_none_iff.mpr hnew
  have hstored : (Filter.setConstraint name ⟨name, group, .all⟩).on f =
      ⟨{ f with constraints := f.constraints ++ [⟨name, group, f.allowed⟩] }, .ok (), 0⟩ := by
    rw [Filter.setConstraint_on, if_pos rfl, hname, hmentions]
    dsimp only
    rw [Filter.store_of_new (c := ⟨name, group, f.allowed⟩) hfind]
  rw [FilterStep.run]
  exact hcount.bind (hmade.bind ⟨by rw [hstored], by rw [hstored]⟩)

/-- Constraints on different fields are stored one behind the other, before all that follows. -/
theorem constraintsScript_append_finds {allowed : AllowList} {stored constraints : List Constraint}
    {condition : Group} {h : Filter} {rest : List FilterStep}
    (hguarded : ∀ c ∈ constraints, c.Guarded allowed)
    (hgroups : ∀ c ∈ constraints, c.group.Scripted)
    (hnames : ((stored ++ constraints).map Constraint.name).Nodup)
    (hrest : (runFilterSteps rest).Finds ⟨allowed, stored ++ constraints, condition⟩ () h) :
    (runFilterSteps (constraintsScript constraints ++ rest)).Finds
      ⟨allowed, stored, condition⟩ () h := by
  induction constraints generalizing stored with
  | nil => rwa [List.append_nil] at hrest
  | cons c cs ih =>
      rw [List.forall_mem_cons] at hguarded hgroups
      have hnew : c.name ∉ stored.map Constraint.name := by
        intro hmem
        rw [List.map_append, List.map_cons] at hnames
        exact (List.nodup_append.mp hnames).2.2 _ hmem _ List.mem_cons_self rfl
      have hfirst : (FilterStep.setConstraint c.name c.name c.group.script).run.Finds
          ⟨allowed, stored, condition⟩ () ⟨allowed, stored ++ [c], condition⟩ :=
        FilterStep.setConstraint_finds hguarded.1 hgroups.1 hnew
      rw [List.append_cons] at hnames hrest
      have hfollowing := ih hguarded.2 hgroups.2 hnames hrest
      obtain ⟨name, group, own⟩ := c
      exact hfirst.bind hfollowing

/-! ### Reachable nodes -/

namespace Node

/-- Filters in which all is as it is in filters that were made for some fields. -/
theorem kept_guarded :
    Kept fun n => ∀ f, (Node.filter f).Beneath n → f.Guarded f.allowed where
  test c f hf := by cases beneath_test_iff.mp hf
  newGroup f hf := by
    rcases beneath_group_iff.mp hf with heq | ⟨m, hm, -⟩
    · cases heq
    · cases hm
  newFilter allowed f hf := by
    rcases beneath_filter_iff.mp hf with heq | ⟨c, hc, -⟩ | hf
    · cases heq
      exact Filter.guarded_limited allowed
    · cases hc
    · rcases beneath_group_iff.mp hf with heq | ⟨m, hm, -⟩
      · cases heq
      · cases hm
  add hg hnode hadds f hf := by
    rcases beneath_group_iff.mp hf with heq | ⟨m, hm, hbeneath⟩
    · cases heq
    · rw [hadds.members_eq] at hm
      rcases List.mem_append.mp hm with hm | hm
      · exact hg f (.member hm hbeneath)
      · rw [List.mem_singleton.mp hm] at hbeneath
        exact hnode f hbeneath
  operate hf houtcome hconstraints hcondition i hi := by
    rcases beneath_filter_iff.mp hi with heq | ⟨c, hc, hbeneath⟩ | hbeneath
    · cases heq
      have hguarded := houtcome.guarded (hf _ .refl)
      rwa [← hguarded.allowed_eq] at hguarded
    · exact hconstraints c hc i hbeneath
    · exact hcondition i hbeneath
  member hg hn f hf := hg f (.member hn hf)
  constraint hf hc i hi := hf i (.constraint hc hi)
  condition hf i hi := hf i (.condition hi)

/-- A filter in a reachable node keeps to its allow-list, and so do its constraints. -/
theorem Reachable.guarded {n : Node} (hn : n.Reachable) {f : Filter}
    (hf : (Node.filter f).Beneath n) : f.Guarded f.allowed :=
  hn.kept kept_guarded f hf

/-- A reachable filter has one constraint at most on each field. -/
theorem Reachable.nodup_names {f : Filter} (hf : (Node.filter f).Reachable) : f.names.Nodup := by
  obtain ⟨history, hrecorded⟩ := reachable_iff_exists_recorded.mp hf
  cases hrecorded.joinedBy with
  | filter hnames _ _ _ => exact hnames

/-- A node that its recipe makes, and at any site if it is a group. -/
def Scripted : Node → Prop
  | .test _ => True
  | .group g => g.Scripted
  | .filter f => f.recipe.Makes (.filter f)

theorem Scripted.makes {n : Node} (hn : n.Scripted) : n.recipe.Makes n := by
  intro h
  cases n with
  | test c => exact ⟨rfl, rfl⟩
  | group g =>
      have hgroup := hn .condition fun x _ => AllowList.allows_all x
      rw [recipe, Recipe.prepare]
      exact (hgroup.aside h).bind ⟨rfl, rfl⟩
  | filter f => exact hn h

/-- A reachable node is made by its recipe. -/
theorem Reachable.scripted {n : Node} (hn : n.Reachable) : n.Scripted := by
  induction n using Node.induct with
  | test c => trivial
  | group connector members ih =>
      refine Group.scripted_of_members ?_ (hn.connector_eq_none_iff .refl)
      exact fun m hm => (ih m hm (hn.member hm)).makes
  | filter allowed constraints condition ihConstraints ihCondition =>
      have hguarded := hn.guarded .refl
      have hcondition := ihCondition hn.condition (.filter allowed) hguarded.condition
      have hshared : (runFilterSteps (condition.script.map .shared)).Finds
          ⟨allowed, constraints, {}⟩ () ⟨allowed, constraints, condition⟩ := by
        refine ⟨?_, ?_⟩
        · rw [runFilterSteps_map_shared]
          exact hcondition.result_eq
        · rw [runFilterSteps_map_shared]
          exact congrArg (Filter.mk allowed constraints) hcondition.state_eq
      have hnames : (([] ++ constraints).map Constraint.name).Nodup := hn.nodup_names
      have hsteps := constraintsScript_append_finds hguarded.constraints
        (fun c hc => ihConstraints c hc (hn.constraint hc)) hnames hshared
      intro g
      rw [Filter.recipe, Recipe.prepare]
      exact (hsteps.aside g).bind ⟨rfl, rfl⟩

theorem Reachable.makes {n : Node} (hn : n.Reachable) : n.recipe.Makes n :=
  hn.scripted.makes

/-- The nodes that builders can make are those that recipes prepare. -/
theorem reachable_iff_exists_makes {n : Node} : n.Reachable ↔ ∃ recipe : Recipe, recipe.Makes n := by
  constructor
  · intro hn
    exact ⟨n.recipe, hn.makes⟩
  · rintro ⟨recipe, hmakes⟩
    exact (recipe.prepares {}).2 n (hmakes {}).result_eq

end Node

end WhereClause

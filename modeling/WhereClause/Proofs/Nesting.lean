/-
WhereClause/Proofs/Nesting.lean

What is built on the spot can be added.

A nested group or filter looks at its connector before its body is run, and makes all the
checks of an addition afterwards: the connector once more, and every field name in what
was built.  These later checks never refuse.  The group around has not changed in
between, and a body starts from a new builder with the same allow-list, under which no
operation lets in any other field (`Group.after_allows`, `Filter.Guarded.after`).  That
the allow-list is the same, and for a constraint also the field, is a matter of the
surroundings that the body is told (`Site.inner_eq`).

So a nested group is refused for its connector, and then its body is not run, or for what
its body is refused for, and otherwise it is added (`nestedRun`, `nest_of_allowed`).

A body may be any work that does nothing but call operations on the builder that it is
given (`Group.ByOperations`, `Filter.ByOperations`): it may look at what they come to, go on
after a refusal, and end in a refusal of its own.  All scripts are such work.
-/
import WhereClause.Proofs.Allowed
import WhereClause.Proofs.Reachable
import WhereClause.Proofs.Refused

namespace WhereClause

/-! ### Work by operations only -/

/-- Work that leaves a group as some operations at a site do. -/
def Group.ByOperations (site : Site) (work : Work Group Unit) : Prop :=
  ∀ g, ∃ operations, (work.on g).state = g.after site operations

/-- Work that leaves a filter as some operations do. -/
def Filter.ByOperations (work : Work Filter Unit) : Prop :=
  ∀ f, ∃ operations, (work.on f).state = f.after operations

/-- Steps at a site call operations there. -/
theorem runSteps_byOperations {site : Site} (hsite : site.Nests) (steps : List Step) :
    Group.ByOperations site (runSteps steps site) := by
  intro g
  obtain ⟨operations, -, hstate⟩ := (runSteps_grows hsite steps g).exists_operations
  exact ⟨_, hstate ▸ Group.Operation.state_inOrder site operations g⟩

namespace Filter

/-- Members that come to the condition of a filter one by one are added by operations. -/
theorem exists_after_of_grows {f : Filter} {g h : Group} (hgrows : g.Grows f.site h) :
    ∃ operations, f.withCondition h = (f.withCondition g).after operations := by
  induction hgrows using Relation.ReflTransGen.head_induction_on with
  | refl => exact ⟨[], rfl⟩
  | @head g i hstep _ ih =>
      obtain ⟨node, connector, -, hadds⟩ := hstep
      obtain ⟨operations, hoperations⟩ := ih
      have hop : ((Operation.append connector node).work.on (f.withCondition g)).state =
          f.withCondition ((Group.append f.site node connector).on g).state := rfl
      refine ⟨.append connector node :: operations, ?_⟩
      rw [after, hop, hadds.append_on hadds.allowed]
      exact hoperations

end Filter

mutual

/-- A step on a filter calls operations. -/
theorem FilterStep.run_byOperations (step : FilterStep) : Filter.ByOperations step.run := by
  intro f
  cases step with
  | shared step =>
      obtain ⟨operations, h⟩ := Filter.exists_after_of_grows (step.grows f.site_nests f.condition)
      rw [Filter.withCondition_condition] at h
      exact ⟨operations, h⟩
  | group connector body => exact ⟨[.group connector (runFilterSteps body)], rfl⟩
  | constrain name body =>
      show ∃ operations,
        ((Filter.constrain name fun site => runSteps body site).on f).state = f.after operations
      rcases Filter.constrain_cases name f with ⟨reason, -, h⟩ | ⟨c, -, -, -, h⟩
      · exact ⟨[], by rw [h, Filter.after]⟩
      · -- what the steps have added can be added by operations in order
        have hsite : c.site.Nests := Site.Plain.constraint.nests
        obtain ⟨operations, -, hstate⟩ := (runSteps_grows hsite body c.group).exists_operations
        refine ⟨[.constrain name operations], ?_⟩
        rw [Filter.after, Filter.Operation.work, h, h]
        simp only [Run.map, hstate, Filter.after]
  | set name value => exact ⟨[.set name value], rfl⟩
  | setConstraint name own body =>
      show ∃ operations, ((Work.aside {} (runSteps body (.constraint .all own)) >>= fun group =>
        Filter.setConstraint name ⟨own, group, .all⟩).on f).state = f.after operations
      rw [Work.aside_bind]
      split
      · exact ⟨[.setConstraint name ⟨own, _, .all⟩], rfl⟩
      · exact ⟨[], rfl⟩
  | attempt step => exact step.run_byOperations f

theorem runFilterSteps_byOperations (steps : List FilterStep) :
    Filter.ByOperations (runFilterSteps steps) := by
  intro f
  cases steps with
  | nil => exact ⟨[], rfl⟩
  | cons step rest =>
      obtain ⟨operations, hstep⟩ := step.run_byOperations f
      rw [runFilterSteps, Work.state_bind]
      split
      · obtain ⟨operations', hrest⟩ := runFilterSteps_byOperations rest (step.run.on f).state
        refine ⟨operations ++ operations', ?_⟩
        rw [hrest, hstep, Filter.after_append]
      · exact ⟨operations, hstep⟩

end

/-! ### What was built is allowed -/

/-- What it comes to if something nested is asked for: a refusal of its connector, before the
inside is built, or the refusal of the inside, or what the inside is added to. -/
def nestedRun {σ τ : Type} (s : σ) (checked : Except Refusal (Option Connector))
    (inside : Run τ Unit) (added : Option Connector → σ) : Run σ Unit :=
  match checked, inside.result with
  | .error reason, _ => ⟨s, .error reason, 0⟩
  | .ok _, .error reason => ⟨s, .error reason, inside.started⟩
  | .ok fixed, .ok () => ⟨added fixed, .ok (), inside.started⟩

/-- The same, seen as part of a whole. -/
theorem nestedRun_map {ρ σ τ : Type} (whole : σ → ρ) (s : σ)
    (checked : Except Refusal (Option Connector)) (inside : Run τ Unit)
    (added : Option Connector → σ) :
    (nestedRun s checked inside added).map whole =
      nestedRun (whole s) checked inside fun fixed => whole (added fixed) := by
  unfold nestedRun
  rcases checked with reason | fixed
  · rfl
  · rcases inside.result with reason | -
    · rfl
    · rfl

namespace Group

variable {site : Site} {g : Group}

theorem after_allows (site : Site) (operations : List Operation)
    (hg : ∀ name ∈ g.mentions, site.allowed.allows name) :
    ∀ name ∈ (g.after site operations).mentions, site.allowed.allows name := by
  induction operations generalizing g with
  | nil => exact hg
  | cons op rest ih => exact ih ((op.outcome site g).allows hg)

/-- What was built from nothing at a site may be added there. -/
theorem ByOperations.check_mentions {build : Work Group Unit} (h : ByOperations site build) :
    site.allowed.check (build.on {}).state.mentions = .ok () := by
  obtain ⟨operations, hstate⟩ := h {}
  rw [hstate]
  exact AllowList.check_eq_ok_iff.mpr
    (after_allows site operations (by simp [mentions_empty]))

/-- If what was built may be added then it is, unless its connector or its building was
refused. -/
theorem nest_of_allowed {α : Type} (k : Connector) {fresh : α} {node : α → Node}
    {build : Work α Unit}
    (h : site.allowed.check (node (build.on fresh).state).mentions = .ok ()) (g : Group) :
    (nest site k fresh node build).on g =
      nestedRun g (g.check (some k)) (build.on fresh) fun fixed =>
        ⟨fixed, g.members ++ [node (build.on fresh).state]⟩ := by
  rw [nest_on, append_on, h]
  unfold nestedRun
  -- the second look at the connector finds what the first one has found
  rcases g.check (some k) with reason | fixed
  · rfl
  · rcases (build.on fresh).result with reason | -
    · rfl
    · rfl

end Group

/-- What was built from a new filter may be added to a filter with its allow-list. -/
theorem Filter.ByOperations.check_mentions {build : Work Filter Unit} (h : ByOperations build)
    (allowed : AllowList) :
    allowed.check (Node.filter (build.on (.limited allowed)).state).mentions = .ok () := by
  obtain ⟨operations, hstate⟩ := h (limited allowed)
  rw [hstate]
  refine AllowList.check_eq_ok_iff.mpr fun name hname => ?_
  exact ((guarded_limited allowed).after operations).allows (Node.mem_mentions_iff.mp hname)

/-! ### Nested groups -/

/-- A body that works by operations of the builder that it is given builds a nested group
that may be added.  It is given a builder with the surroundings of the group around. -/
theorem Group.nestGroup_on {site : Site} (hsite : site.Plain) (k : Connector)
    {build : Site → Work Group Unit} (hbuild : ∀ inner, inner.Plain → ByOperations inner (build inner))
    (g : Group) :
    (nestGroup site k build).on g =
      nestedRun g (g.check (some k)) ((build site).on {}) fun fixed =>
        ⟨fixed, g.members ++ [.group ((build site).on {}).state]⟩ := by
  have hnested : site.nested = .group := by cases hsite <;> rfl
  rw [nestGroup, hnested, site.inner_eq]
  exact nest_of_allowed k (hbuild site hsite).check_mentions g

/-- A body that works by operations builds a nested filter that may be added. -/
theorem Filter.nestFilter_on (k : Connector) {build : Work Filter Unit}
    (hbuild : ByOperations build) (f : Filter) :
    (nestFilter k build).on f =
      nestedRun f (f.condition.check (some k)) (build.on (.limited f.allowed)) fun fixed =>
        f.withCondition
          ⟨fixed, f.condition.members ++ [.filter (build.on (.limited f.allowed)).state]⟩ := by
  have hallowed : f.site.allowed.check
      (Node.filter (build.on (.limited f.allowed)).state).mentions = .ok () :=
    hbuild.check_mentions f.allowed
  show ((Group.nest f.site k (Filter.limited f.allowed) .filter build).on f.condition).map
    f.withCondition = _
  -- a refusal leaves the condition, and so the filter, as it was
  rw [Group.nest_of_allowed k hallowed f.condition, nestedRun_map, withCondition_condition]

/-- A nested group in a condition or a constraint, and a nested filter in a filter, is
refused for its connector, and then its body is not run.  If not, the body is run once on a
new builder of the same kind: with the same allow-list, and on the same field in a
constraint, since it is told the site of the group around.  Then it is refused if the body
is, and if not then what the body has built is added.  This holds of any body that works by
operations of the builder that it is given, and so of the nested steps of all scripts, where
the step itself counts as well. -/
theorem nested_refused_or_added (k : Connector) :
    (∀ site : Site, site.Plain → ∀ build : Site → Work Group Unit,
      (∀ inner : Site, inner.Plain → Group.ByOperations inner (build inner)) → ∀ g : Group,
        let inside := (build site).on {}
        (Group.nestGroup site k build).on g =
          nestedRun g (g.check (some k)) inside fun fixed =>
            ⟨fixed, g.members ++ [.group inside.state]⟩) ∧
    (∀ build : Work Filter Unit, Filter.ByOperations build → ∀ f : Filter,
      let inside := build.on (.limited f.allowed)
      (Filter.nestFilter k build).on f =
        nestedRun f (f.condition.check (some k)) inside fun fixed =>
          f.withCondition ⟨fixed, f.condition.members ++ [.filter inside.state]⟩) ∧
    (∀ site : Site, site.Plain → ∀ (body : List Step) (g : Group),
      let inside := (runSteps body site).on {}
      let run := nestedRun g (g.check (some k)) inside fun fixed =>
        ⟨fixed, g.members ++ [.group inside.state]⟩
      ((Step.group k body).run site).on g = { run with started := 1 + run.started }) ∧
    ∀ (body : List FilterStep) (f : Filter),
      let inside := (runFilterSteps body).on (.limited f.allowed)
      let run := nestedRun f (f.condition.check (some k)) inside fun fixed =>
        f.withCondition ⟨fixed, f.condition.members ++ [.filter inside.state]⟩
      (FilterStep.group k body).run.on f = { run with started := 1 + run.started } := by
  refine ⟨fun site hsite build hbuild g => Group.nestGroup_on hsite k hbuild g,
    fun build hbuild f => Filter.nestFilter_on k hbuild f, ?_, ?_⟩
  · intro site hsite body g inside run
    have hbody : ∀ inner : Site, inner.Plain → Group.ByOperations inner (runSteps body inner) :=
      fun inner hinner => runSteps_byOperations hinner.nests body
    rw [Step.run, Work.count_bind, Group.nestGroup_on hsite k hbody g]
  · intro body f inside run
    rw [FilterStep.run, Work.count_bind, Filter.nestFilter_on k (runFilterSteps_byOperations body) f]

/-- In a constraint and in a filter that are limited to two fields: bodies that go on after a
refused step, whose groups are added. -/
theorem nested_refused_or_added_limited :
    let allowed := AllowList.ofList ["a", "b"]
    let site := Site.constraint allowed "a"
    let steps := [Step.attempt (.compare .and "a" (.known .equal) (.field "c")),
      .compare .and "a" (.known .less) (.field "b")]
    let g : Group := ⟨none, [.test (.on "a" .notNull (.of (0 : Int64)))]⟩
    let body := [FilterStep.constrain "b" steps, .attempt (.set "c" (.field "a")),
      .shared (.compare .and "a" (.known .equal) (.field "b"))]
    let f : Filter := ⟨allowed, [], g⟩
    (site.Plain ∧
      (∀ inner : Site, inner.Plain → Group.ByOperations inner (runSteps steps inner)) ∧
      (Group.nestGroup site .or (runSteps steps)).on g =
        ⟨⟨some .or, g.members ++ [.group ((runSteps steps site).on {}).state]⟩, .ok (), 2⟩ ∧
      ((Step.group .or steps).run site).on g =
        ⟨⟨some .or, g.members ++ [.group ((runSteps steps site).on {}).state]⟩, .ok (), 3⟩) ∧
    Filter.ByOperations (runFilterSteps body) ∧
      (Filter.nestFilter .or (runFilterSteps body)).on f =
        ⟨f.withCondition ⟨some .or,
          g.members ++ [.filter ((runFilterSteps body).on (.limited allowed)).state]⟩,
          .ok (), 5⟩ := by
  intro allowed site steps g body f
  obtain ⟨hgroup, hfilter, hstep, -⟩ := nested_refused_or_added .or
  have hsteps : ∀ inner : Site, inner.Plain → Group.ByOperations inner (runSteps steps inner) :=
    fun inner hinner => runSteps_byOperations hinner.nests steps
  have hbody := runFilterSteps_byOperations body
  refine ⟨⟨.constraint, hsteps, ?_, ?_⟩, hbody, ?_⟩
  · rw [hgroup site .constraint _ hsteps g]
    rfl
  · rw [hstep site .constraint steps g]
    rfl
  · rw [hfilter _ hbody f]
    rfl

end WhereClause

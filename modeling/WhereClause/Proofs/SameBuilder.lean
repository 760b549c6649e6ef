/-
WhereClause/Proofs/SameBuilder.lean

Conditions, constraints and filters without an allow-list are one and the same builder.

A `SharedStep` is a step that all three of them have.  It names no field: conditions and
filters are given the same name everywhere, and a constraint has a name of its own.  A
`Builder` is what the steps are made of, so that a program of steps is one and the same
for all builders (`SharedStep.work`), and so is what is seen of it (`SharedStep.seen`).
The three builders are `Builder.condition`, `Builder.constraint` and `Builder.filter`; the
first two are groups at a site (`Builder.ofGroup`).

They differ in what becomes of a nested group.  In a filter it is a filter of its own and
is built as one, and elsewhere it is a plain group.  So what they build is not equal, but
it is compiled alike (`Group.Like`), and this goes from one step to the next
(`Builder.Simulates`).  A program then comes to the same with both builders
(`Builder.Simulates.sameOn`).
-/
import Mathlib.Data.List.Forall2
import WhereClause.Filter
import WhereClause.Helper
import WhereClause.Proofs.Alike

namespace WhereClause

/-! ### Builders -/

/-- The name of a helper that constraints have. -/
def Helper.Shared : Type :=
  { name : String // (Helper.ofConstraint.lookup name).isSome }

namespace Helper.Shared

/-- What a shared helper is for a constraint. -/
def inConstraint (name : Shared) : Helper :=
  (ofConstraint.lookup name.1).get name.2

theorem isSome_ofCondition (name : Shared) : (ofCondition.lookup name.1).isSome := by
  rw [ofCondition_eq_ofConstraint name.2]
  exact name.2

/-- What a shared helper is for a condition or a filter. -/
def inCondition (name : Shared) : Helper :=
  (ofCondition.lookup name.1).get name.isSome_ofCondition

theorem inConstraint_eq (name : Shared) : name.inConstraint = name.inCondition := by
  simp only [inConstraint, inCondition, ofCondition_eq_ofConstraint name.2]

end Helper.Shared

/-- What a builder has, as far as no field is named. -/
structure Builder (σ : Type) where
  /-- A new builder. -/
  start : σ
  /-- The builder of a nested group, when it is handed out. -/
  fresh : σ → σ
  /-- The group that is built. -/
  view : σ → Group
  /-- What is built, as a node. -/
  node : σ → Node
  /-- What the shared helpers are short for. -/
  helper : Helper.Shared → Helper
  compare : Connector → OperatorName → Operand → Work σ Unit
  append : Option Connector → Node → Work σ Unit
  nest : Connector → Work σ Unit → Work σ Unit

namespace Builder

/-- A group at a site, given the same name everywhere.  What is nested in it is built at
the same site. -/
def ofGroup (site : Site) (name : String) (helper : Helper.Shared → Helper) : Builder Group where
  start := {}
  fresh _ := {}
  view g := g
  node := .group
  helper := helper
  compare connector operator value := Group.compare site connector name operator value
  append connector node := Group.append site node connector
  nest connector build := Group.nestGroup site connector fun _ => build

/-- A condition, given the same name everywhere. -/
def condition (field : String) : Builder Group :=
  ofGroup .condition field Helper.Shared.inCondition

/-- A constraint on a field.  It has no use for any name in a comparison. -/
def constraint (field any : String) : Builder Group :=
  ofGroup (.constraint .all field) any Helper.Shared.inConstraint

/-- A filter without an allow-list, given the same name everywhere. -/
def filter (field : String) : Builder Filter where
  start := .limited .all
  fresh f := .limited f.allowed
  view f := f.condition
  node := .filter
  helper := Helper.Shared.inCondition
  compare connector operator value := Filter.compare connector field operator value
  append connector node := Filter.append node connector
  nest connector build := Filter.nestFilter connector build

end Builder

/-! ### Programs -/

/-- A step that conditions, constraints and filters have.  What a helper is given is a list
for a membership test and a text for a pattern, and it does not matter for a null test. -/
inductive SharedStep where
  | helper (name : Helper.Shared) (value : Operand)
  | compare (connector : Connector) (operator : OperatorName) (value : Operand)
  | append (connector : Option Connector) (node : Node)
  | group (connector : Connector) (body : List SharedStep)
  | attempt (step : SharedStep)

/-- What is seen of a builder after a step. -/
structure Sight where
  result : Except Refusal Unit
  members : Nat
  connector : Option Connector

variable {σ τ : Type}

/-- What is seen of a builder after a run. -/
def Builder.sight (b : Builder σ) (r : Run σ Unit) : Sight :=
  ⟨r.result, (b.view r.state).members.length, (b.view r.state).connector⟩

mutual

/-- Take a step with a builder. -/
def SharedStep.work (b : Builder σ) : SharedStep → Work σ Unit
  | .helper name value =>
      b.compare (b.helper name).connector (.known (b.helper name).operator) value
  | .compare connector operator value => b.compare connector operator value
  | .append connector node => b.append connector node
  | .group connector body => b.nest connector (stepsWork b body)
  | .attempt step => (step.work b).tolerated

/-- Take steps in order until one is refused. -/
def stepsWork (b : Builder σ) : List SharedStep → Work σ Unit
  | [] => return
  | step :: rest => do
      step.work b
      stepsWork b rest

end

mutual

/-- What is seen of a step, after what is seen of the steps within it.  A refusal that is
gone on with is seen too. -/
def SharedStep.seen (b : Builder σ) : SharedStep → σ → List Sight
  | .helper name value, s => [b.sight (((SharedStep.helper name value).work b).on s)]
  | .compare connector operator value, s => [b.sight ((b.compare connector operator value).on s)]
  | .append connector node, s => [b.sight ((b.append connector node).on s)]
  | .group connector body, s =>
      -- the steps within are not begun if the connector is refused
      (match (b.view s).check (some connector) with
        | .ok _ => stepsSeen b body (b.fresh s)
        | .error _ => []) ++ [b.sight ((b.nest connector (stepsWork b body)).on s)]
  | .attempt step, s => step.seen b s

/-- What is seen of steps in order until one is refused. -/
def stepsSeen (b : Builder σ) : List SharedStep → σ → List Sight
  | [], _ => []
  | step :: rest, s =>
      step.seen b s ++
        match ((step.work b).on s).result with
        | .ok _ => stepsSeen b rest ((step.work b).on s).state
        | .error _ => []

end

/-- The run of a program with a new builder. -/
def Builder.run (b : Builder σ) (steps : List SharedStep) : Run σ Unit :=
  (stepsWork b steps).on b.start

/-- A program comes to the same with two builders. -/
structure Builder.SameOn (b : Builder σ) (c : Builder τ) (steps : List SharedStep) : Prop where
  seen_eq : stepsSeen b steps b.start = stepsSeen c steps c.start
  result_eq : (b.run steps).result = (c.run steps).result
  sameForm : (b.node (b.run steps).state).SameForm (c.node (c.run steps).state)

/-! ### Builders that go abreast -/

/-- Runs with the same result that leave related values. -/
structure Run.Abreast (R : σ → τ → Prop) (r : Run σ Unit) (r' : Run τ Unit) : Prop where
  result_eq : r.result = r'.result
  related : R r.state r'.state

/-- Work that goes on abreast after it has begun abreast is abreast. -/
theorem Run.Abreast.bind {R : σ → τ → Prop} {w next : Work σ Unit} {w' next' : Work τ Unit} {s : σ}
    {t : τ} (hfirst : (w.on s).Abreast R (w'.on t))
    (hnext : ∀ {s' t'}, R s' t' → (next.on s').Abreast R (next'.on t')) :
    ((w >>= fun _ => next).on s).Abreast R ((w' >>= fun _ => next').on t) := by
  rcases hs : w.on s with ⟨s', result, started⟩
  rcases ht : w'.on t with ⟨t', result', started'⟩
  rw [hs, ht] at hfirst
  obtain ⟨hresult, hrel⟩ := hfirst
  dsimp only at hresult hrel
  subst hresult
  rcases result with reason | found
  · rw [Work.bind_of_error hs, Work.bind_of_error ht]
    exact ⟨rfl, hrel⟩
  · rw [Work.bind_of_ok hs, Work.bind_of_ok ht]
    exact ⟨(hnext hrel).result_eq, (hnext hrel).related⟩

/-- Groups with the same connector and with members that are compiled alike. -/
structure Group.Like (g h : Group) : Prop where
  connector_eq : g.connector = h.connector
  members : List.Forall₂ (fun m n => Formula.Alike m.formula n.formula) g.members h.members

/-- Related builders are seen and compiled alike, and stay related. -/
structure Builder.Simulates (R : σ → τ → Prop) (b : Builder σ) (c : Builder τ) : Prop where
  start : R b.start c.start
  fresh : ∀ {s t}, R s t → R (b.fresh s) (c.fresh t)
  view : ∀ {s t}, R s t → (b.view s).Like (c.view t)
  alike : ∀ {s t}, R s t → Formula.Alike (b.node s).formula (c.node t).formula
  helper : b.helper = c.helper
  compare : ∀ connector operator value {s t}, R s t →
    ((b.compare connector operator value).on s).Abreast R
      ((c.compare connector operator value).on t)
  append : ∀ connector node {s t}, R s t →
    ((b.append connector node).on s).Abreast R ((c.append connector node).on t)
  nest : ∀ connector {build build' s t}, R s t →
    (build.on (b.fresh s)).Abreast R (build'.on (c.fresh t)) →
      ((b.nest connector build).on s).Abreast R ((c.nest connector build').on t)

namespace Group.Like

variable {g h : Group}

theorem length_eq (hlike : g.Like h) : g.members.length = h.members.length :=
  hlike.members.length_eq

theorem isEmpty_eq (hlike : g.Like h) : g.members.isEmpty = h.members.isEmpty := by
  rw [Bool.eq_iff_iff, List.isEmpty_iff_length_eq_zero, List.isEmpty_iff_length_eq_zero,
    hlike.length_eq]

theorem check_eq (hlike : g.Like h) (connector : Option Connector) :
    g.check connector = h.check connector := by
  simp only [check, hlike.isEmpty_eq, hlike.connector_eq]

/-- Such groups are compiled alike. -/
theorem alike (hlike : g.Like h) : Formula.Alike g.formula h.formula := by
  obtain ⟨connector, members⟩ := g
  obtain ⟨connector', members'⟩ := h
  obtain ⟨hconnector, hmembers⟩ := hlike
  dsimp only at hconnector hmembers
  subst hconnector
  refine Formula.SameTerms.alike ?_ connector
  induction hmembers with
  | nil => exact .refl _
  | cons hmember _ ih => exact ih.cons hmember

end Group.Like

namespace Builder.Simulates

variable {R : σ → τ → Prop} {b : Builder σ} {c : Builder τ}

theorem sight_eq (sim : b.Simulates R c) {r : Run σ Unit} {r' : Run τ Unit}
    (habreast : r.Abreast R r') : b.sight r = c.sight r' := by
  have hlike := sim.view habreast.related
  rw [sight, sight, habreast.result_eq, hlike.length_eq, hlike.connector_eq]

mutual

/-- A step with one builder is a step with the other. -/
theorem step (sim : b.Simulates R c) {s : σ} {t : τ} (hrel : R s t) :
    ∀ step : SharedStep, ((step.work b).on s).Abreast R ((step.work c).on t)
  | .helper name value => by
      rw [SharedStep.work, SharedStep.work, sim.helper]
      exact sim.compare _ _ value hrel
  | .compare connector operator value => sim.compare connector operator value hrel
  | .append connector node => sim.append connector node hrel
  | .group connector body => sim.nest connector hrel (steps sim (sim.fresh hrel) body)
  | .attempt inner => ⟨rfl, (step sim hrel inner).related⟩

/-- And so are steps in a row. -/
theorem steps (sim : b.Simulates R c) {s : σ} {t : τ} (hrel : R s t) :
    ∀ steps : List SharedStep, ((stepsWork b steps).on s).Abreast R ((stepsWork c steps).on t)
  | [] => ⟨rfl, hrel⟩
  | first :: rest => by
      rw [stepsWork, stepsWork]
      exact (step sim hrel first).bind fun hrel' => steps sim hrel' rest

end

mutual

/-- The same is seen of a step with both builders. -/
theorem seen_eq (sim : b.Simulates R c) {s : σ} {t : τ} (hrel : R s t) :
    ∀ step : SharedStep, step.seen b s = step.seen c t
  | .helper name value => by
      rw [SharedStep.seen, SharedStep.seen, sim.sight_eq (sim.step hrel (.helper name value))]
  | .compare connector operator value => by
      have hcompare := sim.compare connector operator value hrel
      rw [SharedStep.seen, SharedStep.seen, sim.sight_eq hcompare]
  | .append connector node => by
      rw [SharedStep.seen, SharedStep.seen, sim.sight_eq (sim.append connector node hrel)]
  | .group connector body => by
      have hbody := stepsSeen_eq sim (sim.fresh hrel) body
      have hgroup := sim.sight_eq (sim.nest connector hrel (sim.steps (sim.fresh hrel) body))
      rw [SharedStep.seen, SharedStep.seen, (sim.view hrel).check_eq, hbody, hgroup]
  | .attempt inner => by
      rw [SharedStep.seen, SharedStep.seen, seen_eq sim hrel inner]

/-- The same is seen of steps in a row. -/
theorem stepsSeen_eq (sim : b.Simulates R c) {s : σ} {t : τ} (hrel : R s t) :
    ∀ steps : List SharedStep, stepsSeen b steps s = stepsSeen c steps t
  | [] => rfl
  | first :: rest => by
      have hfirst := sim.step hrel first
      rw [stepsSeen, stepsSeen, seen_eq sim hrel first, hfirst.result_eq,
        stepsSeen_eq sim hfirst.related rest]

end

/-- A program comes to the same with both builders. -/
theorem sameOn (sim : b.Simulates R c) (steps : List SharedStep) : b.SameOn c steps := by
  have hrun := sim.steps sim.start steps
  exact ⟨sim.stepsSeen_eq sim.start steps, hrun.result_eq, .of_alike (sim.alike hrun.related)⟩

end Builder.Simulates

/-! ### The three builders -/

namespace Group

variable {site other : Site} {g h : Group}

/-- Members that are compiled alike are added alike where nothing is forbidden. -/
theorem append_abreast (hsite : site.allowed = .all) (hother : other.allowed = .all)
    (hlike : g.Like h) (connector : Option Connector) {m n : Node}
    (hmember : Formula.Alike m.formula n.formula) :
    ((append site m connector).on g).Abreast Like ((append other n connector).on h) := by
  rw [append_on, append_on, hsite, hother, AllowList.check_all, AllowList.check_all,
    hlike.check_eq]
  rcases h.check connector with reason | fixed
  · exact ⟨rfl, hlike⟩
  · exact ⟨rfl, rfl, List.rel_append hlike.members (.cons hmember .nil)⟩

/-- So are comparisons of the same field. -/
theorem compare_abreast (hsite : site.allowed = .all) (hother : other.allowed = .all)
    (hlike : g.Like h) (connector : Connector) {field field' : String}
    (hfield : site.subject.getD field = other.subject.getD field') (operator : OperatorName)
    (value : Operand) :
    ((compare site connector field operator value).on g).Abreast Like
      ((compare other connector field' operator value).on h) := by
  rw [compare_on, compare_on, hfield]
  rcases operator.operator with reason | operator
  · exact ⟨rfl, hlike⟩
  · exact append_abreast hsite hother hlike (some connector) (.refl _)

/-- So are members that are built on the spot. -/
theorem nest_abreast {α β : Type} (hsite : site.allowed = .all) (hother : other.allowed = .all)
    (hlike : g.Like h) (connector : Connector) {fresh : α} {fresh' : β} {node : α → Node}
    {node' : β → Node} {build : Work α Unit} {build' : Work β Unit}
    (hbuild : (build.on fresh).Abreast
      (fun a b => Formula.Alike (node a).formula (node' b).formula) (build'.on fresh')) :
    ((nest site connector fresh node build).on g).Abreast Like
      ((nest other connector fresh' node' build').on h) := by
  rw [nest_on, nest_on, hlike.check_eq, hbuild.result_eq]
  rcases h.check (some connector) with reason | fixed
  · exact ⟨rfl, hlike⟩
  · rcases (build'.on fresh').result with reason | -
    · exact ⟨rfl, hlike⟩
    · have hadd := append_abreast hsite hother hlike (some connector) hbuild.related
      exact ⟨hadd.result_eq, hadd.related⟩

end Group

namespace Builder

/-- A constraint is a condition. -/
theorem constraint_eq_condition (field any : String) : constraint field any = condition field := by
  have hhelper : Helper.Shared.inConstraint = Helper.Shared.inCondition :=
    funext Helper.Shared.inConstraint_eq
  rw [constraint, condition, hhelper]
  rfl

/-- A filter without an allow-list, without constraints, and with a condition that is
compiled like a group. -/
structure Freely (g : Group) (f : Filter) : Prop where
  allowed_eq : f.allowed = .all
  constraints_eq : f.constraints = []
  like : g.Like f.condition

namespace Freely

variable {g : Group} {f : Filter}

/-- Such a filter is compiled like the group, too. -/
theorem alike (h : Freely g f) : Formula.Alike (Node.group g).formula (Node.filter f).formula := by
  obtain ⟨allowed, constraints, condition⟩ := f
  obtain ⟨-, rfl, hlike⟩ := h
  exact hlike.alike.trans (Formula.alike_join_singleton (some .and) condition.formula).symm

/-- What is done alike to the group and to the condition of the filter is done alike to the
group and to the filter. -/
theorem onCondition (h : Freely g f) (work : Work Group Unit) (other : Site → Work Group Unit)
    (hwork : (work.on g).Abreast Group.Like ((other f.site).on f.condition)) :
    (work.on g).Abreast Freely ((Filter.onCondition other).on f) :=
  ⟨hwork.result_eq, h.allowed_eq, h.constraints_eq, hwork.related⟩

end Freely

theorem allowed_condition : Site.condition.allowed = .all := rfl

/-- A filter does what a condition does. -/
theorem condition_simulates_filter (field : String) :
    (condition field).Simulates Freely (filter field) where
  start := ⟨rfl, rfl, rfl, .nil⟩
  fresh h := ⟨h.allowed_eq, rfl, rfl, .nil⟩
  view h := h.like
  alike h := h.alike
  helper := rfl
  compare connector operator value g f h := by
    have hsubject : Site.condition.subject.getD field = f.site.subject.getD field := rfl
    exact h.onCondition (Group.compare .condition connector field operator value)
      (fun site => Group.compare site connector field operator value)
      (Group.compare_abreast allowed_condition h.allowed_eq h.like connector hsubject operator
        value)
  append connector node g f h :=
    h.onCondition (Group.append .condition node connector)
      (fun site => Group.append site node connector)
      (Group.append_abreast allowed_condition h.allowed_eq h.like connector (.refl node.formula))
  nest connector build build' g f h hbuild :=
    h.onCondition (Group.nestGroup .condition connector fun _ => build)
      (fun site => Group.nest site connector (Filter.limited site.allowed) Node.filter build')
      (Group.nest_abreast allowed_condition h.allowed_eq h.like connector
        ⟨hbuild.result_eq, hbuild.related.alike⟩)

end Builder

/-- A program of steps comes to the same with a condition, with a constraint, and with a
filter without an allow-list. -/
theorem same_builder (field any : String) (steps : List SharedStep) :
    (Builder.condition field).SameOn (Builder.constraint field any) steps ∧
      (Builder.condition field).SameOn (Builder.filter field) steps := by
  refine ⟨?_, (Builder.condition_simulates_filter field).sameOn steps⟩
  rw [Builder.constraint_eq_condition]
  exact ⟨rfl, rfl, .of_alike (.refl _)⟩

end WhereClause

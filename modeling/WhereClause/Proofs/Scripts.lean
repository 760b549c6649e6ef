/-
WhereClause/Proofs/Scripts.lean

Programs of steps as scripts.

A `SharedStep` names no field and is taken with any builder, and a `NamedStep` is taken with a
filter.  Both hold the nodes that they add.  A script is what is run (`runSteps`,
`runFilterSteps`), and holds recipes for them.  To write a program as a script is to fill in
the field names, to look up what the helpers are short for, and to take the recipe of each
node (`stepsScript`, `namedScript`).

The script then does what the program does.  Only the count of steps is left out, since a
program does not count.  Each kind of step has its case in `SharedStep.run_script` and
`NamedStep.run_script`, and programs go along by `Run.Abreast.bind`.  `programs_as_scripts`
says so of all builders.
-/
import WhereClause.Proofs.NamedSteps
import WhereClause.Proofs.Recipes

namespace WhereClause

/-! ### Writing a script -/

mutual

/-- The script of a step, for builders that are given a name and have some helpers. -/
def SharedStep.script (name : String) (helper : Helper.Shared → Helper) : SharedStep → Step
  | .helper short value =>
      .compare (helper short).connector name (.known (helper short).operator) value
  | .compare connector operator value => .compare connector name operator value
  | .append connector node => .append connector node.recipe
  | .group connector body => .group connector (stepsScript name helper body)
  | .attempt step => .attempt (step.script name helper)

/-- The script of some steps. -/
def stepsScript (name : String) (helper : Helper.Shared → Helper) : List SharedStep → List Step
  | [] => []
  | step :: rest => step.script name helper :: stepsScript name helper rest

end

mutual

/-- A step taken with a filter that is given the same name everywhere. -/
def SharedStep.named (field : String) : SharedStep → NamedStep
  | .helper short value =>
      .compare short.inCondition.connector field (.known short.inCondition.operator) value
  | .compare connector operator value => .compare connector field operator value
  | .append connector node => .append connector node
  | .group connector body => .group connector (stepsNamed field body)
  | .attempt step => .attempt (step.named field)

/-- Steps taken with a filter that is given the same name everywhere. -/
def stepsNamed (field : String) : List SharedStep → List NamedStep
  | [] => []
  | step :: rest => step.named field :: stepsNamed field rest

end

mutual

/-- The script of a step on a filter. -/
def NamedStep.script : NamedStep → FilterStep
  | .compare connector field operator value => .shared (.compare connector field operator value)
  | .append connector node => .shared (.append connector node.recipe)
  | .group connector body => .group connector (namedScript body)
  | .constrain name body => .constrain name (stepsScript "" Helper.Shared.inConstraint body)
  | .set name value => .set name value
  | .setConstraint name c => .setConstraint name c.name c.group.script
  | .attempt step => .attempt step.script

/-- The script of some steps on a filter. -/
def namedScript : List NamedStep → List FilterStep
  | [] => []
  | step :: rest => step.script :: namedScript rest

end

/-! ### The nodes in a program -/

mutual

/-- The nodes that a step adds, at any depth. -/
def SharedStep.nodes : SharedStep → List Node
  | .append _ node => [node]
  | .group _ body => stepsNodes body
  | .attempt step => step.nodes
  | _ => []

/-- The nodes that some steps add. -/
def stepsNodes : List SharedStep → List Node
  | [] => []
  | step :: rest => step.nodes ++ stepsNodes rest

end

mutual

/-- The nodes that a step on a filter adds or stores, at any depth. -/
def NamedStep.nodes : NamedStep → List Node
  | .append _ node => [node]
  | .group _ body => namedNodes body
  | .constrain _ body => stepsNodes body
  | .setConstraint _ c => [.group c.group]
  | .attempt step => step.nodes
  | _ => []

/-- The nodes that some steps on a filter add or store. -/
def namedNodes : List NamedStep → List Node
  | [] => []
  | step :: rest => step.nodes ++ namedNodes rest

end

/-! ### Runs that come to the same -/

section Runs

variable {σ τ α : Type}

/-- What comes to the same on a part comes to the same on the whole. -/
theorem Run.Abreast.map {r r' : Run σ Unit} (h : r.Abreast Eq r') (whole : σ → τ) :
    (r.map whole).Abreast Eq (r'.map whole) :=
  ⟨h.result_eq, congrArg whole h.related⟩

/-- A step that is counted comes to what it comes to without. -/
theorem Run.Abreast.counted {w : Work σ Unit} {s : σ} {r : Run σ Unit}
    (h : (w.on s).Abreast Eq r) : ((Work.count >>= fun _ => w).on s).Abreast Eq r :=
  ⟨h.result_eq, h.related⟩

/-- Work that begins with what is found comes to the rest of it. -/
theorem Work.Finds.abreast {w : Work σ α} {s t : σ} {a : α} (h : w.Finds s a t)
    (next : α → Work σ Unit) : ((w >>= next).on s).Abreast Eq ((next a).on t) :=
  ⟨h.result_bind next, h.state_bind next⟩

/-- What is built alike on the spot is added alike. -/
theorem Group.nest_abreast_eq {site : Site} {connector : Connector} {fresh : α} {node : α → Node}
    {build build' : Work α Unit} (h : (build.on fresh).Abreast Eq (build'.on fresh)) (g : Group) :
    ((nest site connector fresh node build).on g).Abreast Eq
      ((nest site connector fresh node build').on g) := by
  rw [nest_on, nest_on, h.result_eq, h.related]
  rcases g.check (some connector) with reason | fixed
  · exact ⟨rfl, rfl⟩
  · rcases (build'.on fresh).result with reason | -
    · exact ⟨rfl, rfl⟩
    · exact ⟨rfl, rfl⟩

end Runs

/-! ### Steps on a group -/

section Steps

variable (site : Site) (name : String) (helper : Helper.Shared → Helper)

mutual

/-- The script of a step does what the step does. -/
theorem SharedStep.run_script :
    ∀ step : SharedStep, (∀ n ∈ step.nodes, n.Reachable) → ∀ g : Group,
      (((step.script name helper).run site).on g).Abreast Eq
        ((step.work (.ofGroup site name helper)).on g)
  | .helper _ _, _, _ => ⟨rfl, rfl⟩
  | .compare _ _ _, _, _ => ⟨rfl, rfl⟩
  | .append connector node, hnodes, g => by
      have hmakes := (hnodes node (List.mem_singleton.mpr rfl)).makes g
      exact (hmakes.abreast fun node => Group.append site node connector).counted
  | .group _ body, hnodes, g => by
      -- the steps within are run at the same site
      have hbody := runSteps_script body hnodes {}
      exact (Group.nest_abreast_eq hbody g).counted
  | .attempt step, hnodes, g => ⟨rfl, (step.run_script hnodes g).related⟩

/-- And so does the script of steps in a row. -/
theorem runSteps_script :
    ∀ steps : List SharedStep, (∀ n ∈ stepsNodes steps, n.Reachable) → ∀ g : Group,
      ((runSteps (stepsScript name helper steps) site).on g).Abreast Eq
        ((stepsWork (.ofGroup site name helper) steps).on g)
  | [], _, _ => ⟨rfl, rfl⟩
  | step :: rest, hnodes, g => by
      rw [stepsNodes, List.forall_mem_append] at hnodes
      rw [stepsScript, runSteps, stepsWork]
      refine (step.run_script hnodes.1 g).bind ?_
      rintro h _ rfl
      exact runSteps_script rest hnodes.2 h

end

end Steps

/-! ### Steps on a filter -/

mutual

/-- A shared step is the same taken with a filter by name. -/
theorem SharedStep.work_named (field : String) :
    ∀ step : SharedStep, (step.named field).work = step.work (.filter field)
  | .helper _ _ => rfl
  | .compare _ _ _ => rfl
  | .append _ _ => rfl
  | .group connector body => by
      rw [SharedStep.named, NamedStep.work, SharedStep.work, namedWork_stepsNamed field body]
      rfl
  | .attempt step => by
      rw [SharedStep.named, NamedStep.work, SharedStep.work, step.work_named field]

theorem namedWork_stepsNamed (field : String) :
    ∀ steps : List SharedStep, namedWork (stepsNamed field steps) = stepsWork (.filter field) steps
  | [] => rfl
  | step :: rest => by
      rw [stepsNamed, namedWork, stepsWork, step.work_named field, namedWork_stepsNamed field rest]

end

mutual

theorem SharedStep.nodes_named (field : String) :
    ∀ step : SharedStep, (step.named field).nodes = step.nodes
  | .helper _ _ => rfl
  | .compare _ _ _ => rfl
  | .append _ _ => rfl
  | .group _ body => namedNodes_stepsNamed field body
  | .attempt step => step.nodes_named field

theorem namedNodes_stepsNamed (field : String) :
    ∀ steps : List SharedStep, namedNodes (stepsNamed field steps) = stepsNodes steps
  | [] => rfl
  | step :: rest => by
      rw [stepsNamed, namedNodes, stepsNodes, step.nodes_named field,
        namedNodes_stepsNamed field rest]

end

/-- What comes to the same on the constraint that is given out comes to the same on the filter. -/
theorem Filter.constrain_abreast {name : String} {work other : Site → Work Group Unit}
    (h : ∀ (site : Site) (g : Group), ((work site).on g).Abreast Eq ((other site).on g))
    (f : Filter) : ((constrain name work).on f).Abreast Eq ((constrain name other).on f) := by
  rcases constrain_cases name f with ⟨reason, -, hwork⟩ | ⟨c, -, -, -, hwork⟩
  · rw [hwork, hwork]
    exact ⟨rfl, rfl⟩
  · rw [hwork, hwork]
    exact (h c.site c.group).map fun group => f.store { c with group }

mutual

/-- The script of a step on a filter does what the step does. -/
theorem NamedStep.run_script :
    ∀ step : NamedStep, (∀ n ∈ step.nodes, n.Reachable) → ∀ f : Filter,
      (step.script.run.on f).Abreast Eq (step.work.on f)
  | .compare _ _ _ _, _, _ => ⟨rfl, rfl⟩
  | .append connector node, hnodes, f => by
      have hmakes := (hnodes node (List.mem_singleton.mpr rfl)).makes f.condition
      have happend := hmakes.abreast fun node => Group.append f.site node connector
      exact happend.counted.map f.withCondition
  | .group _ body, hnodes, f => by
      have hbody := runFilterSteps_script body hnodes (.limited f.allowed)
      exact ((Group.nest_abreast_eq hbody f.condition).map f.withCondition).counted
  | .constrain name body, hnodes, f => by
      have hbody := fun (site : Site) (g : Group) =>
        runSteps_script site "" Helper.Shared.inConstraint body hnodes g
      exact (Filter.constrain_abreast hbody f).counted
  | .set _ _, _, _ => ⟨rfl, rfl⟩
  | .setConstraint name c, hnodes, f => by
      -- it does not matter which allow-list the constraint had
      have hgroup : c.group.Scripted := (hnodes _ (List.mem_singleton.mpr rfl)).scripted
      have hmade := hgroup (.constraint .all c.name) fun x _ => AllowList.allows_all x
      exact ((hmade.aside f).abreast fun group =>
        Filter.setConstraint name ⟨c.name, group, .all⟩).counted
  | .attempt step, hnodes, f => ⟨rfl, (step.run_script hnodes f).related⟩

/-- And so does the script of steps in a row. -/
theorem runFilterSteps_script :
    ∀ steps : List NamedStep, (∀ n ∈ namedNodes steps, n.Reachable) → ∀ f : Filter,
      ((runFilterSteps (namedScript steps)).on f).Abreast Eq ((namedWork steps).on f)
  | [], _, _ => ⟨rfl, rfl⟩
  | step :: rest, hnodes, f => by
      rw [namedNodes, List.forall_mem_append] at hnodes
      rw [namedScript, runFilterSteps, namedWork]
      refine (step.run_script hnodes.1 f).bind ?_
      rintro h _ rfl
      exact runFilterSteps_script rest hnodes.2 h

end

/-! ### All programs -/

/-- Every program of steps that adds nodes which builders can make has a script with the same
result that leaves the same behind: with a condition, with a constraint, with a filter that is
given the same name everywhere, and with any filter if the steps name their fields. -/
theorem programs_as_scripts :
    (∀ (field any : String) (steps : List SharedStep), (∀ n ∈ stepsNodes steps, n.Reachable) →
      ((runSteps (stepsScript field Helper.Shared.inCondition steps) .condition).on {}).Abreast Eq
          ((Builder.condition field).run steps) ∧
        ((runSteps (stepsScript any Helper.Shared.inConstraint steps)
            (.constraint .all field)).on {}).Abreast Eq ((Builder.constraint field any).run steps) ∧
        ((runFilterSteps (namedScript (stepsNamed field steps))).on (.limited .all)).Abreast Eq
          ((Builder.filter field).run steps)) ∧
    ∀ steps : List NamedStep, (∀ n ∈ namedNodes steps, n.Reachable) → ∀ f : Filter,
      ((runFilterSteps (namedScript steps)).on f).Abreast Eq ((namedWork steps).on f) := by
  refine ⟨fun field any steps hnodes => ⟨?_, ?_, ?_⟩, runFilterSteps_script⟩
  · exact runSteps_script .condition field _ steps hnodes {}
  · exact runSteps_script (.constraint .all field) any _ steps hnodes {}
  · have hnamed := runFilterSteps_script (stepsNamed field steps)
    rw [namedNodes_stepsNamed, namedWork_stepsNamed] at hnamed
    exact hnamed hnodes (.limited .all)

end WhereClause

/-
WhereClause/Proofs/Operations.lean

The operations of builders, and all that they can do.

`Group.Operation` stands for a call of an operation that conditions, constraints
and plain groups have, and `Filter.Operation` for a call of one that filters have.
A call may be given anything: the member that is added is any node, and a nested
group or filter is built by any piece of work.  `after` makes calls one after the
other, whether they are refused or not.

An operation on a group either is refused, and then nothing has changed, or it adds
one member under the connector that it was given.  `Group.Outcome` has one rule for
each, and `Filter.Outcome` has one for each way in which an operation on a filter can
end; an operation on the condition adds its member under the connector that it was
given, too.  That these are all is proved once, in the two theorems `Operation.outcome`,
and nothing that comes later looks into an operation.
-/
import WhereClause.Filter

namespace WhereClause

/-- What an operation adds: the node that comes in with it, or a comparison if none does. -/
inductive Node.CameIn : List Node → Node → Prop
  | comparison {c} : CameIn [] (.test c)
  | brought {n} : CameIn [n] n

/-- What holds of comparisons and of all nodes that come in holds of what is added. -/
theorem Node.CameIn.elim {motive : Node → Prop} {brought : List Node} {node : Node}
    (h : node.CameIn brought) (test : ∀ c, motive (.test c)) (brings : ∀ n ∈ brought, motive n) :
    motive node := by
  cases h with
  | comparison => exact test _
  | brought => exact brings _ (List.mem_singleton.mpr rfl)

/-! ### Operations on a group -/

namespace Group

/-- A group with one member more, added at a site under a connector. -/
structure Adds (site : Site) (node : Node) (connector : Option Connector) (g h : Group) :
    Prop where
  allowed : site.allowed.check node.mentions = .ok ()
  check_eq : g.check connector = .ok h.connector
  members_eq : h.members = g.members ++ [node]

/-- A call of an operation that conditions, constraints and plain groups have. -/
inductive Operation where
  | append (connector : Option Connector) (node : Node)
  | compare (connector : Connector) (field : String) (operator : OperatorName) (value : Operand)
  | group (connector : Connector) (build : Site → Work Group Unit)

namespace Operation

/-- What an operation does to a group at a site. -/
def work (site : Site) : Operation → Work Group Unit
  | append connector node => Group.append site node connector
  | compare connector field operator value => Group.compare site connector field operator value
  | group connector build => Group.nestGroup site connector build

/-- The connector that an operation is given. -/
def connector : Operation → Option Connector
  | append connector _ => connector
  | compare connector _ _ _ => some connector
  | group connector _ => some connector

/-- The nodes that come in with an operation at a site. -/
def brings (site : Site) : Operation → List Node
  | append _ node => [node]
  | compare _ _ _ _ => []
  | group _ build => [site.nested ((build site.inner).on {}).state]

/-- Carry out operations in order until one is refused. -/
def inOrder (site : Site) : List Operation → Work Group Unit
  | [] => return
  | op :: rest => do
      op.work site
      inOrder site rest

end Operation

/-- The group after some operations, each of them carried out whether or not those
before were refused. -/
def after (site : Site) (g : Group) : List Operation → Group
  | [] => g
  | op :: rest => after site ((op.work site).on g).state rest

theorem after_append (site : Site) (g : Group) (operations operations' : List Operation) :
    g.after site (operations ++ operations') = (g.after site operations).after site operations' := by
  induction operations generalizing g with
  | nil => rfl
  | cons op rest ih => exact ih _

/-! ### How an operation on a group ends -/

/-- How an operation on a group may leave it, and with which result.  It is refused,
or it adds one member under the connector that it is given. -/
inductive Outcome (site : Site) (g : Group) (op : Operation) : Group → Except Refusal Unit → Prop
  | refused {reason} : Outcome site g op g (.error reason)
  | added {node h} : node.CameIn (op.brings site) → g.Adds site node op.connector h →
      Outcome site g op h (.ok ())

theorem append_cases (site : Site) (node : Node) (connector : Option Connector) (g : Group) :
    (∃ reason, (append site node connector).on g = ⟨g, .error reason, 0⟩) ∨
      ∃ h, g.Adds site node connector h ∧ (append site node connector).on g = ⟨h, .ok (), 0⟩ := by
  rw [append_on]
  cases hallowed : site.allowed.check node.mentions with
  | error reason => exact .inl ⟨reason, rfl⟩
  | ok _ =>
      cases hcheck : g.check connector with
      | error reason => exact .inl ⟨reason, rfl⟩
      | ok fixed => exact .inr ⟨⟨fixed, g.members ++ [node]⟩, ⟨hallowed, hcheck, rfl⟩, rfl⟩

/-- What is added at one site can be added at any other where it is allowed. -/
theorem Adds.append_on {site other : Site} {node : Node} {connector : Option Connector}
    {g h : Group} (hadds : g.Adds site node connector h)
    (hallowed : other.allowed.check node.mentions = .ok ()) :
    (append other node connector).on g = ⟨h, .ok (), 0⟩ := by
  obtain ⟨fixed, members⟩ := h
  obtain ⟨-, hcheck, rfl⟩ := hadds
  rw [Group.append_on, hallowed, hcheck]

/-- The first member of a group is added under no connector, if it is allowed. -/
theorem append_empty_on (site : Site) (node : Node) (connector : Option Connector) :
    (append site node connector).on {} =
      match site.allowed.check node.mentions with
      | .error reason => ⟨{}, .error reason, 0⟩
      | .ok () => ⟨⟨none, [node]⟩, .ok (), 0⟩ := by
  rw [append_on]
  rcases site.allowed.check node.mentions with reason | -
  · rfl
  · rfl

/-- To add a comparison is refused, or a comparison is added. -/
theorem compare_cases (site : Site) (k : Connector) (field : String) (operator : OperatorName)
    (value : Operand) (g : Group) :
    (∃ reason, (compare site k field operator value).on g = ⟨g, .error reason, 0⟩) ∨
      ∃ c h, g.Adds site (.test c) (some k) h ∧
        (compare site k field operator value).on g = ⟨h, .ok (), 0⟩ := by
  rw [compare_on]
  rcases operator.operator with reason | operator
  · exact .inl ⟨reason, rfl⟩
  · rcases append_cases site (.test (.on (site.subject.getD field) operator value)) (some k) g with
      h | ⟨h, hadds, heq⟩
    · exact .inl h
    · exact .inr ⟨_, h, hadds, heq⟩

/-- To add a member that is built on the spot is refused, or what was built is added. -/
theorem nest_cases {α : Type} (site : Site) (k : Connector) (fresh : α) (node : α → Node)
    (build : Work α Unit) (g : Group) :
    (∃ reason started, (nest site k fresh node build).on g = ⟨g, .error reason, started⟩) ∨
      ∃ h started, g.Adds site (node (build.on fresh).state) (some k) h ∧
        (nest site k fresh node build).on g = ⟨h, .ok (), started⟩ := by
  rw [nest_on]
  rcases g.check (some k) with reason | fixed
  · exact .inl ⟨reason, 0, rfl⟩
  · rcases (build.on fresh).result with reason | -
    · exact .inl ⟨reason, _, rfl⟩
    · -- what was built has to pass the checks of the site where it is added
      rcases append_cases site (node (build.on fresh).state) (some k) g with
        ⟨reason, h⟩ | ⟨h, hadds, heq⟩
      · simp only [h]
        exact .inl ⟨reason, _, rfl⟩
      · simp only [heq]
        exact .inr ⟨h, _, hadds, rfl⟩

/-- These are all the ways in which an operation can end. -/
theorem Operation.outcome (op : Operation) (site : Site) (g : Group) :
    g.Outcome site op ((op.work site).on g).state ((op.work site).on g).result := by
  cases op with
  | append connector node =>
      rcases append_cases site node connector g with ⟨reason, h⟩ | ⟨after, hadds, h⟩
      · rw [work, h]
        exact .refused
      · rw [work, h]
        exact .added .brought hadds
  | compare k field operator value =>
      rcases compare_cases site k field operator value g with ⟨reason, h⟩ | ⟨c, after, hadds, h⟩
      · rw [work, h]
        exact .refused
      · rw [work, h]
        exact .added .comparison hadds
  | group k build =>
      rcases nest_cases site k {} site.nested (build site.inner) g with
        ⟨reason, _, h⟩ | ⟨after, _, hadds, h⟩
      · rw [work, nestGroup, h]
        exact .refused
      · rw [work, nestGroup, h]
        exact .added .brought hadds

/-- What every one of some operations keeps is kept by all of them in order. -/
theorem Operation.inOrder_induct {motive : Group → Prop} {site : Site}
    {operations : List Operation}
    (step : ∀ op ∈ operations, ∀ g, motive g → motive ((op.work site).on g).state) {g : Group}
    (h : motive g) : motive ((inOrder site operations).on g).state := by
  induction operations generalizing g with
  | nil => exact h
  | cons op rest ih =>
      rw [List.forall_mem_cons] at step
      have hop := step.1 g h
      rw [inOrder, Work.state_bind]
      split
      · exact ih step.2 hop
      · exact hop

end Group

/-! ### Operations on a filter -/

namespace Filter

/-- The constraint on a field, or a new one if there is none. -/
def given (f : Filter) (name : String) : Constraint :=
  (f.constraint? name).getD ⟨name, {}, f.allowed⟩

/-- A call of an operation that filters have.  To `constrain` is to ask for the
constraint on a field and to go on with operations on what was given out. -/
inductive Operation where
  | append (connector : Option Connector) (node : Node)
  | compare (connector : Connector) (field : String) (operator : OperatorName) (value : Operand)
  | group (connector : Connector) (build : Work Filter Unit)
  | constrain (name : String) (operations : List Group.Operation)
  | set (name : String) (value : Operand)
  | setConstraint (name : String) (c : Constraint)

namespace Operation

/-- What an operation does to a filter. -/
def work : Operation → Work Filter Unit
  | append connector node => Filter.append node connector
  | compare connector field operator value => Filter.compare connector field operator value
  | group connector build => Filter.nestFilter connector build
  | constrain name operations =>
      Filter.constrain name fun site => Group.Operation.inOrder site operations
  | set name value => Filter.set name value
  | setConstraint name c => Filter.setConstraint name c

/-- The connector that an operation on the condition is given. -/
def connector? : Operation → Option (Option Connector)
  | append connector _ => some connector
  | compare connector _ _ _ => some (some connector)
  | group connector _ => some (some connector)
  | _ => none

/-- The field that an operation is about, unless it is about the condition. -/
def field? : Operation → Option String
  | constrain name _ => some name
  | set name _ => some name
  | setConstraint name _ => some name
  | _ => none

/-- The nodes that come in with an operation on a filter. -/
def brings (f : Filter) : Operation → List Node
  | append _ node => [node]
  | compare _ _ _ _ => []
  | group _ build => [.filter (build.on (.limited f.allowed)).state]
  | constrain name operations => operations.flatMap (Group.Operation.brings (f.given name).site)
  | set _ _ => []
  | setConstraint _ c => [.group c.group]

end Operation

/-- The filter after some operations, each of them carried out whether or not those
before were refused. -/
def after (f : Filter) : List Operation → Filter
  | [] => f
  | op :: rest => (op.work.on f).state.after rest

theorem after_append (f : Filter) (operations operations' : List Operation) :
    f.after (operations ++ operations') = (f.after operations).after operations' := by
  induction operations generalizing f with
  | nil => rfl
  | cons op rest ih => exact ih _

/-! ### How an operation on a filter ends -/

/-- The constraint that a filter gives out for a field. -/
inductive Gives (f : Filter) (name : String) : Constraint → Prop
  | found {c} : f.constraint? name = some c → Gives f name c
  | created : f.constraint? name = none → Gives f name ⟨name, {}, f.allowed⟩

/-- How an operation on a filter may leave it, and with which result. -/
inductive Outcome (f : Filter) : Operation → Filter → Except Refusal Unit → Prop
  | refused {op reason} : Outcome f op f (.error reason)
  | added {op node connector after} :
      op.connector? = some connector → node.CameIn (op.brings f) →
        f.condition.Adds f.site node connector after →
        Outcome f op (f.withCondition after) (.ok ())
  | constrained {name operations c run} :
      f.allowed.check [name] = .ok () → f.Gives name c →
        run = (Group.Operation.inOrder c.site operations).on c.group →
        Outcome f (.constrain name operations) (f.store { c with group := run.state }) run.result
  | equality {name value c after} :
      f.allowed.check [name] = .ok () →
        Group.Adds (.constraint f.allowed name) (.test c) (some .and) {} after →
        Outcome f (.set name value) (f.store ⟨name, after, f.allowed⟩) (.ok ())
  | prepared {name c} :
      c.name = name → f.allowed.check [name] = .ok () →
        f.allowed.check c.group.mentions = .ok () →
        Outcome f (.setConstraint name c) (f.store { c with allowed := f.allowed }) (.ok ())

theorem putConstraint_of_find?_eq_none {c : Constraint} {constraints : List Constraint}
    (h : constraints.find? (fun d => d.name == c.name) = none) :
    putConstraint c constraints = constraints ++ [c] := by
  induction constraints with
  | nil => rfl
  | cons d rest ih =>
      rw [List.find?_cons] at h
      split at h
      · cases h
      · next hd => simp [putConstraint, ih h, by simpa using hd]

/-- A constraint on a new field is stored behind the others. -/
theorem store_of_new {f : Filter} {c : Constraint} (h : f.constraint? c.name = none) :
    f.store c = { f with constraints := f.constraints ++ [c] } := by
  rw [store, putConstraint_of_find?_eq_none h]

/-- Of two constraints on one field that are stored one after the other, the second
one is left. -/
theorem putConstraint_putConstraint {c d : Constraint} (h : c.name = d.name)
    (constraints : List Constraint) :
    putConstraint c (putConstraint d constraints) = putConstraint c constraints := by
  induction constraints with
  | nil => simp [putConstraint, h]
  | cons e rest ih =>
      by_cases he : e.name = d.name
      · simp [putConstraint, he, h]
      · simp [putConstraint, he, h, ih]

theorem store_store {c d : Constraint} (h : c.name = d.name) (f : Filter) :
    (f.store d).store c = f.store c := by
  simp only [store, putConstraint_putConstraint h]

/-- What is in a filter after a constraint was stored was there before, or is the
constraint. -/
theorem mem_of_mem_putConstraint {c d : Constraint} {constraints : List Constraint}
    (h : d ∈ putConstraint c constraints) : d = c ∨ d ∈ constraints := by
  induction constraints with
  | nil => exact .inl (List.mem_singleton.mp h)
  | cons e rest ih =>
      rw [putConstraint] at h
      split at h
      · exact (List.mem_cons.mp h).imp_right (List.mem_cons_of_mem e)
      · rcases List.mem_cons.mp h with rfl | h
        · exact .inr List.mem_cons_self
        · exact (ih h).imp_right (List.mem_cons_of_mem e)

/-- A constraint under a new name comes last, and the names stay as they are otherwise. -/
theorem map_name_putConstraint (c : Constraint) (constraints : List Constraint) :
    (putConstraint c constraints).map Constraint.name =
      if c.name ∈ constraints.map Constraint.name then constraints.map Constraint.name
      else constraints.map Constraint.name ++ [c.name] := by
  induction constraints with
  | nil => simp [putConstraint]
  | cons d rest ih =>
      by_cases h : d.name = c.name
      · simp [putConstraint, h]
      · have h' : ¬c.name = d.name := fun heq => h heq.symm
        simp only [putConstraint, if_neg h, List.map_cons, ih, List.mem_cons, h', false_or]
        split
        · rfl
        · rfl

/-- The names of the constraints of a filter. -/
def names (f : Filter) : List String :=
  f.constraints.map Constraint.name

/-- There is no constraint on a field under whose name there is none. -/
theorem constraint?_eq_none_iff {f : Filter} {name : String} :
    f.constraint? name = none ↔ name ∉ f.names := by
  simp [constraint?, names, List.find?_eq_none]

theorem names_store (f : Filter) (c : Constraint) :
    (f.store c).names = if c.name ∈ f.names then f.names else f.names ++ [c.name] :=
  map_name_putConstraint c f.constraints

theorem nodup_names_store {f : Filter} (h : f.names.Nodup) (c : Constraint) :
    (f.store c).names.Nodup := by
  rw [names_store]
  split
  · exact h
  · next hnew =>
      refine List.nodup_append.mpr ⟨h, List.pairwise_singleton _ c.name, ?_⟩
      rintro x hx y hy rfl
      exact hnew (List.mem_singleton.mp hy ▸ hx)

/-- If the names differ then no other constraint under the name of a stored one is left. -/
theorem mem_putConstraint_of_nodup {c d : Constraint} {constraints : List Constraint}
    (hnames : (constraints.map Constraint.name).Nodup) (h : d ∈ putConstraint c constraints) :
    d = c ∨ d ∈ constraints ∧ d.name ≠ c.name := by
  induction constraints with
  | nil => exact .inl (List.mem_singleton.mp h)
  | cons e rest ih =>
      obtain ⟨hfresh, hrest⟩ := List.nodup_cons.mp hnames
      rw [putConstraint] at h
      split at h
      · next he =>
          -- the rest has no constraint under this name
          refine (List.mem_cons.mp h).imp_right fun hd => ⟨List.mem_cons_of_mem e hd, ?_⟩
          exact fun heq => hfresh (he.trans heq.symm ▸ List.mem_map_of_mem hd)
      · next he =>
          rcases List.mem_cons.mp h with rfl | h
          · exact .inr ⟨List.mem_cons_self, he⟩
          · exact (ih hrest h).imp_right fun hd => ⟨List.mem_cons_of_mem e hd.1, hd.2⟩

theorem Gives.name_eq {f : Filter} {name : String} {c : Constraint} (h : f.Gives name c) :
    c.name = name := by
  rcases h with h | h
  · simpa using List.find?_some h
  · rfl

theorem Gives.eq_given {f : Filter} {name : String} {c : Constraint} (h : f.Gives name c) :
    c = f.given name := by
  rcases h with h | h
  · rw [given, h, Option.getD_some]
  · rw [given, h, Option.getD_none]

/-- To ask for a constraint is refused, or the constraint that is given out is there,
and to store one in its place is the same as before. -/
theorem field_cases (name : String) (f : Filter) :
    (∃ reason, (field name).on f = ⟨f, .error reason, 0⟩) ∨
      ∃ c after, f.allowed.check [name] = .ok () ∧ f.Gives name c ∧
        (∀ d, d.name = name → after.store d = f.store d) ∧
        (field name).on f = ⟨after, .ok c, 0⟩ := by
  rw [field_on]
  cases hallowed : f.allowed.check [name] with
  | error reason => exact .inl ⟨reason, rfl⟩
  | ok _ =>
      cases hfound : f.constraint? name with
      | none =>
          -- a new constraint comes last, which is where storing puts it
          refine .inr ⟨⟨name, {}, f.allowed⟩, f.store ⟨name, {}, f.allowed⟩, rfl,
            .created hfound, fun d hd => store_store hd f, ?_⟩
          rw [store_of_new (c := ⟨name, {}, f.allowed⟩) hfound]
      | some c => exact .inr ⟨c, f, rfl, .found hfound, fun _ _ => rfl, rfl⟩

/-- To ask for a constraint is refused, or all work on it is done on the constraint that
is given out, and what the work leaves is stored in its place. -/
theorem constrain_cases (name : String) (f : Filter) :
    (∃ reason, (field name).on f = ⟨f, .error reason, 0⟩ ∧
        ∀ work, (constrain name work).on f = ⟨f, .error reason, 0⟩) ∨
      ∃ c, f.allowed.check [name] = .ok () ∧ f.Gives name c ∧ ((field name).on f).result = .ok c ∧
        ∀ work : Site → Work Group Unit, (constrain name work).on f =
          ((work c.site).on c.group).map fun group => f.store { c with group } := by
  rcases field_cases name f with ⟨reason, h⟩ | ⟨c, after, hallowed, hgives, hstore, h⟩
  · exact .inl ⟨reason, h, fun work => by rw [constrain, Work.bind_of_error h]⟩
  · refine .inr ⟨c, hallowed, hgives, by rw [h], ?_⟩
    intro work
    rw [constrain, Work.bind_of_ok h, Nat.zero_add]
    -- the work starts from a filter that may hold a new constraint, and stores over it
    have hgroup : ∀ group, after.store { c with group } = f.store { c with group } :=
      fun group => hstore _ hgives.name_eq
    simp only [onConstraint, Run.map, hgroup]

/-- For a field that is allowed a constraint is given out, and work goes on with it. -/
theorem exists_constrain_of_allowed {f : Filter} {name : String}
    (h : f.allowed.check [name] = .ok ()) :
    ∃ c, f.Gives name c ∧ ((field name).on f).result = .ok c ∧
      ∀ work : Site → Work Group Unit, (constrain name work).on f =
        ((work c.site).on c.group).map fun group => f.store { c with group } := by
  rcases constrain_cases name f with ⟨reason, hfield, -⟩ | ⟨c, -, hgives, hresult, hwork⟩
  · have hresult := congrArg Run.result hfield
    rw [field_on, h] at hresult
    split at hresult
    · next heq => cases heq
    · cases hresult
    · cases hresult
  · exact ⟨c, hgives, hresult, hwork⟩

/-- To set a field is refused, or an equality is stored and nothing else. -/
theorem set_cases (name : String) (value : Operand) (f : Filter) :
    (∃ reason, (set name value).on f = ⟨f, .error reason, 0⟩) ∨
      (set name value).on f =
        ⟨f.store ⟨name, ⟨none, [.test (.on name .equal value)]⟩, f.allowed⟩, .ok (), 0⟩ := by
  have hmade : (Group.compare (.constraint f.allowed name) .and name (.known .equal) value).on {} =
      match f.allowed.check (Node.test (.on name .equal value)).mentions with
      | .error reason => ⟨{}, .error reason, 0⟩
      | .ok () => ⟨⟨none, [.test (.on name .equal value)]⟩, .ok (), 0⟩ := by
    rw [Group.compare_on]
    exact Group.append_empty_on (.constraint f.allowed name) (.test (.on name .equal value))
      (some .and)
  rw [set_on, hmade]
  rcases f.allowed.check [name] with reason | -
  · exact .inl ⟨reason, rfl⟩
  · rcases f.allowed.check (Node.test (.on name .equal value)).mentions with reason | -
    · exact .inl ⟨reason, rfl⟩
    · exact .inr rfl

/-- To store a prepared constraint is refused, or it is stored under its own name. -/
theorem setConstraint_cases (name : String) (c : Constraint) (f : Filter) :
    (∃ reason, (setConstraint name c).on f = ⟨f, .error reason, 0⟩) ∨
      c.name = name ∧
        (setConstraint name c).on f = ⟨f.store { c with allowed := f.allowed }, .ok (), 0⟩ := by
  rw [setConstraint_on]
  by_cases hname : c.name = name
  · rw [if_pos hname]
    rcases f.allowed.check [name] with reason | -
    · exact .inl ⟨reason, rfl⟩
    · rcases f.allowed.check c.group.mentions with reason | -
      · exact .inl ⟨reason, rfl⟩
      · exact .inr ⟨hname, rfl⟩
  · rw [if_neg hname]
    exact .inl ⟨_, rfl⟩

theorem withCondition_condition (f : Filter) : f.withCondition f.condition = f := by
  rcases f with ⟨allowed, constraints, condition⟩
  rfl

/-- What happens to a filter if an operation on its condition is carried out. -/
theorem Outcome.of_condition {f : Filter} {op : Operation} {connector : Option Connector}
    (hconnector : op.connector? = some connector) {r : Run Group Unit}
    (h : (∃ reason started, r = ⟨f.condition, .error reason, started⟩) ∨
      ∃ node after started, node.CameIn (op.brings f) ∧
        f.condition.Adds f.site node connector after ∧ r = ⟨after, .ok (), started⟩) :
    f.Outcome op (f.withCondition r.state) r.result := by
  rcases h with ⟨reason, started, rfl⟩ | ⟨node, after, started, hnode, hadds, rfl⟩
  · rw [withCondition_condition]
    exact .refused
  · exact .added hconnector hnode hadds

/-- These are all the ways in which an operation can end. -/
theorem Operation.outcome (op : Operation) (f : Filter) :
    f.Outcome op (op.work.on f).state (op.work.on f).result := by
  cases op with
  | append connector node =>
      refine .of_condition rfl ?_
      rcases Group.append_cases f.site node connector f.condition with ⟨reason, h⟩ | ⟨g, hadds, h⟩
      · exact .inl ⟨reason, 0, h⟩
      · exact .inr ⟨node, g, 0, .brought, hadds, h⟩
  | compare k field operator value =>
      refine .of_condition rfl ?_
      rcases Group.compare_cases f.site k field operator value f.condition with
        ⟨reason, h⟩ | ⟨c, g, hadds, h⟩
      · exact .inl ⟨reason, 0, h⟩
      · exact .inr ⟨.test c, g, 0, .comparison, hadds, h⟩
  | group k build =>
      refine .of_condition rfl ?_
      rcases Group.nest_cases f.site k (limited f.allowed) .filter build f.condition with
        ⟨reason, started, h⟩ | ⟨g, started, hadds, h⟩
      · exact .inl ⟨reason, started, h⟩
      · exact .inr ⟨_, g, started, .brought, hadds, h⟩
  | constrain name operations =>
      rcases constrain_cases name f with ⟨reason, -, h⟩ | ⟨c, hallowed, hgives, -, h⟩
      · rw [work, h]
        exact .refused
      · rw [work, h]
        exact .constrained hallowed hgives rfl
  | set name value =>
      rw [work, set_on]
      cases hallowed : f.allowed.check [name] with
      | error reason => exact .refused
      | ok _ =>
          rcases Group.compare_cases (.constraint f.allowed name) .and name (.known .equal) value {}
            with ⟨reason, h⟩ | ⟨c, g, hadds, h⟩
          · simp only [h]
            exact .refused
          · simp only [h]
            exact .equality hallowed hadds
  | setConstraint name c =>
      rw [work, setConstraint_on]
      split
      · next hname =>
          cases hallowed : f.allowed.check [name] with
          | error reason => exact .refused
          | ok _ =>
              cases hmentions : f.allowed.check c.group.mentions with
              | error reason => exact .refused
              | ok _ => exact .prepared hname hallowed hmentions
      · exact .refused

/-- An operation on the condition is refused, or it adds its member under the connector
that it is given. -/
theorem Operation.cases_of_connector {op : Operation} {connector : Option Connector}
    (hconnector : op.connector? = some connector) (f : Filter) :
    (∃ reason, (op.work.on f).result = .error reason ∧ (op.work.on f).state = f) ∨
      ∃ node after, node.CameIn (op.brings f) ∧ f.condition.Adds f.site node connector after ∧
        (op.work.on f).result = .ok () ∧ (op.work.on f).state = f.withCondition after := by
  have houtcome := op.outcome f
  generalize (op.work.on f).state = h at houtcome ⊢
  generalize (op.work.on f).result = result at houtcome ⊢
  cases houtcome with
  | refused => exact .inl ⟨_, rfl, rfl⟩
  | added hgiven hnode hadds =>
      obtain rfl := Option.some.inj (hgiven.symm.trans hconnector)
      exact .inr ⟨_, _, hnode, hadds, rfl, rfl⟩
  | constrained _ _ _ => cases hconnector
  | equality _ _ => cases hconnector
  | prepared _ _ _ => cases hconnector

end Filter

end WhereClause

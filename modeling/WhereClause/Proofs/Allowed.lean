/-
WhereClause/Proofs/Allowed.lean

A filter that is limited to some fields mentions no other field, whatever is done
to it, and a plan for it refers to no other column than theirs.

Each way into a filter has a check of its own.  Work on a constraint asks only the
allow-list of the constraint, so the invariant `Filter.Guarded` has to cover the
allow-lists of the constraints too: a prepared constraint that kept its own one
would let any field in later.  `Filter.Outcome.guarded` is the step of the
invariant and `Filter.Guarded.after` its run.

What a plan asks for is traced back to the comparisons by `Node.traced_items`, and a
column in a call to a field in its comparison by `mem_fields_of_call`.
`limited_after_allowed` puts the two halves together.
-/
import WhereClause.Proofs.Calls
import WhereClause.Proofs.Operations

namespace WhereClause

variable {allowed : AllowList}

/-! ### Groups -/

theorem Group.Adds.mentions_eq {site : Site} {node : Node} {connector : Option Connector}
    {g h : Group} (hadds : g.Adds site node connector h) :
    h.mentions = g.mentions ++ node.mentions := by
  simp [Group.mentions_eq_flatMap, hadds.members_eq]

/-- What is added is allowed at the site. -/
theorem Group.Adds.allows {site : Site} {node : Node} {connector : Option Connector} {g h : Group}
    (hadds : g.Adds site node connector h) (hg : ∀ name ∈ g.mentions, site.allowed.allows name) :
    ∀ name ∈ h.mentions, site.allowed.allows name := by
  intro name hname
  rw [hadds.mentions_eq] at hname
  rcases List.mem_append.mp hname with hname | hname
  · exact hg name hname
  · exact AllowList.check_eq_ok_iff.mp hadds.allowed name hname

theorem Group.Outcome.allows {site : Site} {op : Operation} {g h : Group}
    {result : Except Refusal Unit} (houtcome : g.Outcome site op h result)
    (hg : ∀ name ∈ g.mentions, site.allowed.allows name) :
    ∀ name ∈ h.mentions, site.allowed.allows name := by
  cases houtcome with
  | refused => exact hg
  | added _ hadds => exact hadds.allows hg

theorem Group.Operation.inOrder_allows (site : Site) (operations : List Operation) {g : Group}
    (hg : ∀ name ∈ g.mentions, site.allowed.allows name) :
    ∀ name ∈ ((inOrder site operations).on g).state.mentions, site.allowed.allows name :=
  inOrder_induct (motive := fun g => ∀ name ∈ g.mentions, site.allowed.allows name)
    (fun op _ g hg => (op.outcome site g).allows hg) hg

theorem Group.mentions_empty : ({} : Group).mentions = [] := rfl

/-! ### The invariant -/

/-- A constraint with the given allow-list, which mentions nothing else. -/
structure Constraint.Guarded (allowed : AllowList) (c : Constraint) : Prop where
  allowed_eq : c.allowed = allowed
  name : allowed.allows c.name
  group : ∀ name ∈ c.group.mentions, allowed.allows name

/-- A filter with the given allow-list, which mentions nothing else, and all of whose
constraints have the same allow-list. -/
structure Filter.Guarded (allowed : AllowList) (f : Filter) : Prop where
  allowed_eq : f.allowed = allowed
  constraints : ∀ c ∈ f.constraints, c.Guarded allowed
  condition : ∀ name ∈ f.condition.mentions, allowed.allows name

theorem Constraint.guarded_empty {name : String} (h : allowed.allows name) :
    Constraint.Guarded allowed ⟨name, {}, allowed⟩ :=
  ⟨rfl, h, by simp [Group.mentions_empty]⟩

/-- Operations on a constraint are kept to the fields of its own allow-list. -/
theorem Constraint.Guarded.inOrder {c : Constraint} (hc : c.Guarded allowed)
    (operations : List Group.Operation) :
    Guarded allowed
      { c with group := ((Group.Operation.inOrder c.site operations).on c.group).state } := by
  obtain ⟨rfl, hname, hgroup⟩ := hc
  exact ⟨rfl, hname, Group.Operation.inOrder_allows c.site operations hgroup⟩

namespace Filter

variable {f : Filter}

theorem guarded_limited (allowed : AllowList) : Guarded allowed (limited allowed) :=
  ⟨rfl, by simp [limited], by simp [limited, Group.mentions_empty]⟩

theorem Guarded.allows_of_check (hf : f.Guarded allowed) {name : String}
    (h : f.allowed.check [name] = .ok ()) : allowed.allows name :=
  hf.allowed_eq ▸ AllowList.check_eq_ok_iff.mp h name (List.mem_singleton.mpr rfl)

theorem Guarded.store (hf : f.Guarded allowed) {c : Constraint} (hc : c.Guarded allowed) :
    (f.store c).Guarded allowed := by
  refine ⟨hf.allowed_eq, ?_, hf.condition⟩
  intro d hd
  rcases mem_of_mem_putConstraint hd with rfl | hd
  · exact hc
  · exact hf.constraints d hd

/-- The constraint that a filter gives out has the allow-list of the filter. -/
theorem Guarded.gives (hf : f.Guarded allowed) {name : String} {c : Constraint}
    (hallowed : f.allowed.check [name] = .ok ()) (hgives : f.Gives name c) :
    c.Guarded allowed := by
  cases hgives with
  | found h => exact hf.constraints c (List.mem_of_find?_eq_some h)
  | created _ =>
      rw [hf.allowed_eq]
      exact Constraint.guarded_empty (hf.allows_of_check hallowed)

/-- An operation keeps a filter to its fields. -/
theorem Outcome.guarded {op : Operation} {h : Filter} {result : Except Refusal Unit}
    (houtcome : f.Outcome op h result) (hf : f.Guarded allowed) : h.Guarded allowed := by
  obtain rfl := hf.allowed_eq
  cases houtcome with
  | refused => exact hf
  | added _ _ hadds => exact ⟨rfl, hf.constraints, hadds.allows hf.condition⟩
  | @constrained name operations c run hallowed hgives hrun =>
      -- the constraint asks its own allow-list, which is that of the filter
      subst hrun
      exact hf.store ((hf.gives hallowed hgives).inOrder operations)
  | equality hallowed hadds =>
      exact hf.store ⟨rfl, hf.allows_of_check hallowed,
        hadds.allows (by simp [Group.mentions_empty])⟩
  | prepared hname hallowed hmentions =>
      -- whatever allow-list the constraint had, it now has that of the filter
      exact hf.store ⟨rfl, hname ▸ hf.allows_of_check hallowed,
        AllowList.check_eq_ok_iff.mp hmentions⟩

/-- So do any operations, whether they are refused or not. -/
theorem Guarded.after (hf : f.Guarded allowed) (operations : List Operation) :
    (f.after operations).Guarded allowed := by
  induction operations generalizing f with
  | nil => exact hf
  | cons op rest ih => exact ih ((op.outcome f).guarded hf)

/-- Whatever a guarded filter mentions is allowed. -/
theorem Guarded.allows (hf : f.Guarded allowed) {name : String}
    (h : (Node.filter f).Mentions name) : allowed.allows name := by
  rcases Node.mentions_filter_iff.mp h with ⟨c, hc, rfl | h⟩ | h
  · exact (hf.constraints c hc).name
  · exact (hf.constraints c hc).group name (Node.mem_mentions_iff.mpr h)
  · exact hf.condition name (Node.mem_mentions_iff.mpr h)

end Filter

/-! ### Filters that are limited to some fields -/

/-- A filter that was made for some fields mentions no other after any operations, and
everything that a plan for it asks for is about the columns of these fields. -/
theorem Filter.limited_after_allowed (fields : List String) (operations : List Operation) :
    let f := (limited (.ofList fields)).after operations
    (∀ name, (Node.filter f).Mentions name → name ∈ fields) ∧
      ∀ (m : Mapping) (call : Call), (∃ item ∈ f.formula.items m, item.Asks call) →
        ∀ column, .field column ∈ call.operands →
          ∃ name ∈ fields, column = m.rename.getD id name := by
  intro f
  have hmentions : ∀ name, (Node.filter f).Mentions name → name ∈ fields := fun name h =>
    AllowList.allows_ofList.mp (((guarded_limited _).after operations).allows h)
  refine ⟨hmentions, ?_⟩
  rintro m call ⟨item, hitem, hasks⟩ column hcolumn
  obtain ⟨c, hc, hcall⟩ := Node.traced_items (.filter f) m item hitem call hasks
  obtain ⟨name, hname, rfl⟩ := mem_fields_of_call hcall hcolumn
  have hbeneath : (Node.test c).Beneath (.filter f) := Node.mem_comparisons_iff.mp hc
  exact ⟨name, hmentions name (.inl ⟨c, hbeneath, Comparison.mem_fields_iff.mp hname⟩), rfl⟩

/-- A prepared constraint that could name any field is held to those of the filter from
the moment when it is stored. -/
example :
    ((Filter.limited (.ofList ["foo"])).after
      [.setConstraint "foo" ⟨"foo", {}, .all⟩,
        .constrain "foo" [.compare .and "foo" (.known .equal) (.field "secret")],
        .constrain "foo" [.compare .and "foo" (.known .less) (.field "foo")]]).mentions =
      ["foo", "foo", "foo"] := by rfl

end WhereClause

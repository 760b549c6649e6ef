/-
WhereClause/Proofs/EveryNameAllowed.lean

An allow-list that has every name of a program makes no difference to it.

A program of `NamedStep`s is run twice, on a filter that is limited to some fields and on
one that is not.  `Alongside` says of two runs, and of what is seen of them, that they agree
in every step and that no step is refused for a field.  It is proved for steps and for
programs by induction on them (`SharedStep.alongside`, `NamedStep.alongside`), where
`Filter.InStep` is what one step leaves for the next.
-/
import WhereClause.Config
import WhereClause.Proofs.InStep
import WhereClause.Proofs.NamedSteps

namespace WhereClause

/-! ### Runs that go alongside -/

variable {σ τ : Type}

/-- Runs that agree, and of which the same is seen, which is no refusal of a field either. -/
structure Alongside (R : σ → τ → Prop) (r : Run σ Unit) (r' : Run τ Unit)
    (seen seen' : List Sight) : Prop extends r.Agrees R r' where
  seen_eq : seen = seen'
  seen_permitted : ∀ sight ∈ seen, Permitted sight.result

namespace Alongside

variable {R : σ → τ → Prop} {r : Run σ Unit} {r' : Run τ Unit} {seen seen' : List Sight}

/-- What is seen of an operation after what is seen of the steps within it. -/
theorem of_agrees (h : r.Agrees R r') (hseen : seen = seen')
    (hpermitted : ∀ sight ∈ seen, Permitted sight.result) {sight sight' : Sight}
    (hsight : sight = sight') (hresult : sight.result = r.result) :
    Alongside R r r' (seen ++ [sight]) (seen' ++ [sight']) := by
  refine ⟨h, by rw [hseen, hsight], ?_⟩
  intro s hs
  rcases List.mem_append.mp hs with hs | hs
  · exact hpermitted s hs
  · rw [List.mem_singleton.mp hs, hresult]
    exact h.permitted

/-- What is seen of an operation without any steps within it. -/
theorem of_agrees_alone (h : r.Agrees R r') {sight sight' : Sight} (hsight : sight = sight')
    (hresult : sight.result = r.result) : Alongside R r r' [sight] [sight'] :=
  of_agrees h rfl (fun _ hs => absurd hs List.not_mem_nil) hsight hresult

/-- The same as for steps within an operation, if they are taken behind a check. -/
theorem of_agrees_behind {α : Type} (h : r.Agrees R r') {checked checked' : Except Refusal α}
    (hchecked : checked = checked') (hseen : seen = seen')
    (hpermitted : ∀ sight ∈ seen, Permitted sight.result) {sight sight' : Sight}
    (hsight : sight = sight') (hresult : sight.result = r.result) :
    Alongside R r r' (seenBehind checked seen ++ [sight])
      (seenBehind checked' seen' ++ [sight']) := by
  subst hchecked
  cases checked with
  | error reason => exact of_agrees_alone h hsight hresult
  | ok _ => exact of_agrees h hseen hpermitted hsight hresult

/-- Where nothing is done nothing is seen. -/
theorem nothing {s : σ} {t : τ} (h : R s t) :
    Alongside R ((pure () : Work σ Unit).on s) ((pure () : Work τ Unit).on t) [] [] :=
  ⟨⟨⟨rfl, h⟩, permitted_ok⟩, rfl, fun _ hs => absurd hs List.not_mem_nil⟩

/-- To go on in spite of a refusal shows nothing more. -/
theorem tolerated {w : Work σ Unit} {w' : Work τ Unit} {s : σ} {t : τ}
    (h : Alongside R (w.on s) (w'.on t) seen seen') :
    Alongside R (w.tolerated.on s) (w'.tolerated.on t) seen seen' :=
  ⟨⟨⟨rfl, h.related⟩, permitted_ok⟩, h.seen_eq, h.seen_permitted⟩

/-- What goes on alongside after it has begun alongside is alongside. -/
theorem bind {w next : Work σ Unit} {w' next' : Work τ Unit} {s : σ} {t : τ}
    {rest : σ → List Sight} {rest' : τ → List Sight}
    (hfirst : Alongside R (w.on s) (w'.on t) seen seen')
    (hnext : ∀ {s' t'}, R s' t' → Alongside R (next.on s') (next'.on t') (rest s') (rest' t')) :
    Alongside R ((w >>= fun _ => next).on s) ((w' >>= fun _ => next').on t)
      (seen ++ match (w.on s).result with
        | .ok _ => rest (w.on s).state
        | .error _ => [])
      (seen' ++ match (w'.on t).result with
        | .ok _ => rest' (w'.on t).state
        | .error _ => []) := by
  have habreast := hfirst.toAbreast.bind fun hrel => (hnext hrel).toAbreast
  have hrest := hnext hfirst.related
  rcases hs : w.on s with ⟨s', result, started⟩
  rcases ht : w'.on t with ⟨t', result', started'⟩
  rw [hs, ht] at hfirst hrest
  obtain rfl : result = result' := hfirst.result_eq
  rcases result with reason | found
  · have hpermitted : Permitted ((w >>= fun _ => next).on s).result := by
      rw [Work.bind_of_error hs]
      exact hfirst.permitted
    refine ⟨⟨habreast, hpermitted⟩, by rw [hfirst.seen_eq], ?_⟩
    simpa using hfirst.seen_permitted
  · have hpermitted : Permitted ((w >>= fun _ => next).on s).result := by
      rw [Work.bind_of_ok hs]
      exact hrest.permitted
    refine ⟨⟨habreast, hpermitted⟩, by rw [hfirst.seen_eq, hrest.seen_eq], ?_⟩
    intro sight hsight
    rcases List.mem_append.mp hsight with hsight | hsight
    · exact hfirst.seen_permitted sight hsight
    · exact hrest.seen_permitted sight hsight

end Alongside

/-! ### Steps on a constraint -/

section

variable {allowed : AllowList} {name : String}

/-- The same is seen of groups that are in step. -/
theorem Group.InStep.sight_eq (site other : Site) {r r' : Run Group Unit}
    (h : r.Agrees (Group.InStep allowed) r') :
    (Builder.atSite site).sight r = (Builder.atSite other).sight r' := by
  show Sight.mk r.result r.state.members.length r.state.connector =
    Sight.mk r'.result r'.state.members.length r'.state.connector
  rw [h.result_eq, h.related.length_eq, h.related.connector_eq]

/-- An operation of which nothing is seen but itself. -/
theorem Group.alongside_of_agrees {site other : Site} {r r' : Run Group Unit}
    (h : r.Agrees (Group.InStep allowed) r') :
    Alongside (Group.InStep allowed) r r' [(Builder.atSite site).sight r]
      [(Builder.atSite other).sight r'] :=
  .of_agrees_alone h (Group.InStep.sight_eq site other h) rfl

mutual

/-- A step on a limited constraint goes alongside the same step on a free one. -/
theorem SharedStep.alongside (hname : allowed.allows name) {g h : Group}
    (hrel : Group.InStep allowed g h) :
    ∀ step : SharedStep, (∀ x ∈ step.mentions, allowed.allows x) →
      let b := Builder.atSite (.constraint allowed name)
      let c := Builder.atSite (.constraint .all name)
      Alongside (Group.InStep allowed) ((step.work b).on g) ((step.work c).on h) (step.seen b g)
        (step.seen c h)
  | .helper helper value, hnames =>
      Group.alongside_of_agrees
        (Group.compare_agrees (.constraint allowed name) (.constraint .all name) rfl hrel _ _ _ rfl
          hname hnames)
  | .compare connector operator value, hnames =>
      Group.alongside_of_agrees
        (Group.compare_agrees (.constraint allowed name) (.constraint .all name) rfl hrel connector
          "" operator rfl hname hnames)
  | .append connector node, hnames =>
      Group.alongside_of_agrees
        (Group.append_agrees (.constraint allowed name) (.constraint .all name) rfl hrel connector
          rfl hnames)
  | .group connector body, hnames => by
      intro b c
      have hbody := stepsAlongside hname (Group.inStep_empty allowed) body hnames
      have hnest := Group.nest_agrees (.constraint allowed name) (.constraint .all name) .group
        .group rfl hrel connector (fun hab => ⟨hab.formula_eq, hab.allows⟩) hbody.toAgrees
      rw [SharedStep.seen_group, SharedStep.seen_group]
      exact .of_agrees_behind hnest (hrel.check_eq (some connector)) hbody.seen_eq
        hbody.seen_permitted
        (Group.InStep.sight_eq (.constraint allowed name) (.constraint .all name) hnest) rfl
  | .attempt step, hnames => (SharedStep.alongside hname hrel step hnames).tolerated

/-- And so do steps in a row. -/
theorem stepsAlongside (hname : allowed.allows name) {g h : Group}
    (hrel : Group.InStep allowed g h) :
    ∀ steps : List SharedStep, (∀ x ∈ stepsMentions steps, allowed.allows x) →
      let b := Builder.atSite (.constraint allowed name)
      let c := Builder.atSite (.constraint .all name)
      Alongside (Group.InStep allowed) ((stepsWork b steps).on g) ((stepsWork c steps).on h)
        (stepsSeen b steps g) (stepsSeen c steps h)
  | [], _ => .nothing hrel
  | step :: rest, hnames => by
      rw [stepsMentions, List.forall_mem_append] at hnames
      have hstep := SharedStep.alongside hname hrel step hnames.1
      exact hstep.bind fun hrel' => stepsAlongside hname hrel' rest hnames.2

end

end

/-! ### Steps on a filter -/

section

variable {allowed : AllowList}

/-- The same is seen of filters that are in step. -/
theorem Filter.InStep.sight_eq {r r' : Run Filter Unit}
    (h : r.Agrees (Filter.InStep allowed) r') : Filter.sight r = Filter.sight r' := by
  rw [Filter.sight, Filter.sight, h.result_eq, h.related.condition.length_eq,
    h.related.condition.connector_eq]

/-- An operation of which nothing is seen but itself. -/
theorem Filter.alongside_of_agrees {r r' : Run Filter Unit}
    (h : r.Agrees (Filter.InStep allowed) r') :
    Alongside (Filter.InStep allowed) r r' [Filter.sight r] [Filter.sight r'] :=
  .of_agrees_alone h (Filter.InStep.sight_eq h) rfl

/-- Steps on the constraint on a field go alongside in two filters that are in step. -/
theorem NamedStep.alongside_constrain {f f' : Filter} (hrel : Filter.InStep allowed f f')
    {name : String} {body : List SharedStep} (hname : allowed.allows name)
    (hnames : ∀ x ∈ stepsMentions body, allowed.allows x) :
    Alongside (Filter.InStep allowed) ((NamedStep.constrain name body).work.on f)
      ((NamedStep.constrain name body).work.on f') ((NamedStep.constrain name body).seen f)
      ((NamedStep.constrain name body).seen f') := by
  have hcheck := hrel.check_eq_ok (List.forall_mem_singleton.mpr hname)
  obtain ⟨c, hgives, hresult, hwork⟩ := Filter.exists_constrain_of_allowed hcheck.1
  obtain ⟨d, hgives', hresult', hwork'⟩ := Filter.exists_constrain_of_allowed hcheck.2
  have hc := hrel.guarded.gives hcheck.1 hgives
  have hd := hrel.free.gives hcheck.2 hgives'
  have hcsite : c.site = .constraint allowed name := by
    rw [Constraint.site, hc.allowed_eq, hgives.name_eq]
  have hdsite : d.site = .constraint .all name := by
    rw [Constraint.site, hd.allowed_eq, hgives'.name_eq]
  have hentry := hrel.entry_eq_of_gives hgives hgives'
  have hgroup : Group.InStep allowed c.group d.group := ⟨congrArg Prod.snd hentry, hc.group⟩
  have hbody := stepsAlongside hname hgroup body hnames
  have hstored := hrel.store_agrees hc hd (congrArg Prod.fst hentry) hbody.toAgrees
  rw [NamedStep.seen, NamedStep.seen, hresult, hresult']
  dsimp only
  rw [NamedStep.work, hwork, hwork', hcsite, hdsite]
  exact .of_agrees hstored hbody.seen_eq hbody.seen_permitted (Filter.InStep.sight_eq hstored) rfl

mutual

/-- A step on a limited filter goes alongside the same step on a free one. -/
theorem NamedStep.alongside {f f' : Filter} (hrel : Filter.InStep allowed f f') :
    ∀ step : NamedStep, (∀ x ∈ step.mentions, allowed.allows x) →
      Alongside (Filter.InStep allowed) (step.work.on f) (step.work.on f') (step.seen f)
        (step.seen f')
  | .compare connector field operator value, hnames => by
      rw [NamedStep.mentions, List.forall_mem_cons] at hnames
      obtain rfl := hrel.guarded.allowed_eq
      exact Filter.alongside_of_agrees (hrel.onCondition_agrees
        (fun site => Group.compare site connector field operator value)
        (Group.compare_agrees f.site f'.site hrel.free.allowed_eq hrel.condition connector field
          operator rfl hnames.1 hnames.2))
  | .append connector node, hnames => by
      obtain rfl := hrel.guarded.allowed_eq
      exact Filter.alongside_of_agrees (hrel.onCondition_agrees
        (fun site => Group.append site node connector)
        (Group.append_agrees f.site f'.site hrel.free.allowed_eq hrel.condition connector rfl
          hnames))
  | .group connector body, hnames => by
      have hbody := namedAlongside (Filter.inStep_limited allowed) body hnames
      obtain rfl := hrel.guarded.allowed_eq
      rw [← hrel.free.allowed_eq] at hbody
      have hnest := hrel.onCondition_agrees
        (fun site =>
          Group.nest site connector (Filter.limited site.allowed) .filter (namedWork body))
        (Group.nest_agrees f.site f'.site .filter .filter hrel.free.allowed_eq hrel.condition
          connector (fun hab => ⟨hab.formula_eq, hab.mentions_allowed⟩) hbody.toAgrees)
      exact .of_agrees_behind hnest (hrel.condition.check_eq (some connector)) hbody.seen_eq
        hbody.seen_permitted (Filter.InStep.sight_eq hnest) rfl
  | .constrain name body, hnames => by
      rw [NamedStep.mentions, List.forall_mem_cons] at hnames
      exact NamedStep.alongside_constrain hrel hnames.1 hnames.2
  | .set name value, hnames => by
      rw [NamedStep.mentions, List.forall_mem_cons] at hnames
      exact Filter.alongside_of_agrees (hrel.set_agrees hnames.1 hnames.2)
  | .setConstraint name c, hnames => by
      rw [NamedStep.mentions, List.forall_mem_cons] at hnames
      exact Filter.alongside_of_agrees (hrel.setConstraint_agrees hnames.1 hnames.2)
  | .attempt step, hnames => (NamedStep.alongside hrel step hnames).tolerated

/-- And so do steps in a row. -/
theorem namedAlongside {f f' : Filter} (hrel : Filter.InStep allowed f f') :
    ∀ steps : List NamedStep, (∀ x ∈ namedMentions steps, allowed.allows x) →
      Alongside (Filter.InStep allowed) ((namedWork steps).on f) ((namedWork steps).on f')
        (namedSeen steps f) (namedSeen steps f')
  | [], _ => .nothing hrel
  | step :: rest, hnames => by
      rw [namedMentions, List.forall_mem_append] at hnames
      have hstep := NamedStep.alongside hrel step hnames.1
      exact hstep.bind fun hrel' => namedAlongside hrel' rest hnames.2

end

end

/-! ### Limited and free filters -/

/-- Filters of which the same is written and compiled, whatever their allow-lists. -/
structure Filter.ShowsSame (f f' : Filter) : Prop where
  constraints : List.Forall₂ (fun c d : Constraint => c.name = d.name ∧
    c.group.connector = d.group.connector ∧ c.group.explain = d.group.explain)
    f.constraints f'.constraints
  connector_eq : f.condition.connector = f'.condition.connector
  formula_eq : f.formula = f'.formula
  sameForm : (Node.filter f).SameForm (.filter f')
  compile_eq : ∀ config : Config, config.compile f.formula = config.compile f'.formula

theorem Filter.InStep.showsSame {allowed : AllowList} {f f' : Filter}
    (hrel : InStep allowed f f') : f.ShowsSame f' := by
  have hformula := hrel.formula_eq
  refine ⟨?_, hrel.condition.connector_eq, hformula, ?_, fun config => by rw [hformula]⟩
  · have hentries : List.Forall₂ (fun c d : Constraint => c.entry = d.entry)
        f.constraints f'.constraints := by
      have heq : List.Forall₂ Eq (f.constraints.map Constraint.entry)
          (f'.constraints.map Constraint.entry) := by
        rw [List.forall₂_eq_eq_eq]
        exact hrel.constraints_eq
      rwa [List.forall₂_map_left_iff, List.forall₂_map_right_iff] at heq
    refine hentries.imp fun c d hentry => ?_
    have hgroup : c.group.formula = d.group.formula := congrArg Prod.snd hentry
    exact ⟨congrArg Prod.fst hentry, (Group.connector_eq_and_map_eq hgroup).1,
      congrArg Formula.explain hgroup⟩
  · refine .of_alike ?_
    rw [Node.formula, Node.formula, hformula]
    exact .refl _

/-- A program in which every name is one of some fields comes to the same with a filter that
is limited to these fields and with one that is not limited.  It is refused in the same
steps for the same reasons, none of which is a field that is not allowed, and afterwards
the same is written and compiled. -/
theorem limited_run_eq_free_run (fields : List String) (steps : List NamedStep)
    (h : ∀ name ∈ namedMentions steps, name ∈ fields) :
    let limited := Filter.limited (.ofList fields)
    let free := Filter.limited .all
    namedSeen steps limited = namedSeen steps free ∧
      (∀ sight ∈ namedSeen steps free, ∀ name, sight.result ≠ .error (.notAllowed name)) ∧
      ((namedWork steps).on limited).result = ((namedWork steps).on free).result ∧
      ((namedWork steps).on limited).state.ShowsSame ((namedWork steps).on free).state := by
  intro limited free
  have hallowed : ∀ name ∈ namedMentions steps, (AllowList.ofList fields).allows name :=
    fun name hname => AllowList.allows_ofList.mpr (h name hname)
  have halong := namedAlongside (Filter.inStep_limited (.ofList fields)) steps hallowed
  have hpermitted := halong.seen_permitted
  rw [halong.seen_eq] at hpermitted
  exact ⟨halong.seen_eq, hpermitted, halong.result_eq, halong.related.showsSame⟩

/-- Steps of all kinds on a filter for two fields, of which three are refused. -/
theorem limited_run_eq_free_run_steps :
    let prepared : Node :=
      .filter ⟨.all, [⟨"b", {}, .all⟩], ⟨none, [.test (.on "a" .equal (.field "b"))]⟩⟩
    let steps := [NamedStep.constrain "b" [.helper ⟨"or_equal", rfl⟩ (.field "a"),
        .attempt (.compare .and (.spelled "like") (.field "b"))],
      .group .or [.append none prepared, .set "a" (.field "b")],
      .attempt (.append none prepared), .attempt (.setConstraint "a" ⟨"b", {}, .all⟩),
      .compare .and "a" (.known .less) (.field "b")]
    let limited := Filter.limited (.ofList ["a", "b"])
    (∀ name ∈ namedMentions steps, name ∈ ["a", "b"]) ∧
      (namedSeen steps limited).length = 9 ∧ ((namedWork steps).on limited).result = .ok () ∧
      ((namedWork steps).on limited).state.ShowsSame
        ((namedWork steps).on (.limited .all)).state := by
  intro prepared steps limited
  have hnames : ∀ name ∈ namedMentions steps, name ∈ ["a", "b"] := by
    show ∀ name ∈ ["b", "a", "b", "b", "a", "b", "a", "b", "b", "a", "b", "a", "a", "b"],
      name ∈ ["a", "b"]
    simp
  obtain ⟨-, -, -, hshows⟩ := limited_run_eq_free_run ["a", "b"] steps hnames
  exact ⟨hnames, by decide +kernel, by decide +kernel, hshows⟩

end WhereClause

/-
WhereClause/Proofs/SingleConnector.lean

One connector for each group.

`Group.JoinedBy` relates a group to the connectors that its members were added under.
The connector is unset as long as there are fewer than two members; it is the one that
came with the second member, and every later member came with the same one.  The step
of this invariant is `Group.JoinedBy.adds`.

`Node.JoinedBy` has the invariant for all groups at any depth of a node, and takes the
connectors from the history of the node: those that were given to operations that were not
refused, on a group, on the condition of a filter or on a constraint.  Each kind of operation
keeps it (`Node.JoinedBy.after`, `Node.JoinedBy.onFilter`), so it holds of every node that is
recorded with its history (`Node.Recorded.joinedBy`), and every reachable node has one.
So no reachable node holds a join of several terms without a connector, and each has an
explained form.

What is once in a group stays there, in the same order and under the same connector
(`Group.Extends`).  In a filter this holds of the condition and of each constraint,
except where a constraint is replaced as a whole (`Filter.Keeps`).

`single_connector` has all of this.
-/
import WhereClause.Proofs.Explained
import WhereClause.Proofs.History

namespace WhereClause

namespace Group

variable {g h : Group} {site : Site} {node : Node} {connector fixed : Option Connector}

/-! ### Groups that grow -/

/-- What the check of a connector can find: nothing to be joined yet, or the given
connector, which is then the one that the group has if it has one. -/
theorem check_cases (hcheck : g.check connector = .ok fixed) :
    (g.members = [] ∧ fixed = g.connector) ∨
      (g.members ≠ [] ∧ fixed = connector ∧ connector.isSome ∧
        ∀ k, g.connector = some k → fixed = some k) := by
  unfold check at hcheck
  split at hcheck
  · next hempty =>
      cases hcheck
      exact .inl ⟨List.isEmpty_iff.mp hempty, rfl⟩
  · next hne =>
      have hmembers : g.members ≠ [] := fun h => hne (List.isEmpty_iff.mpr h)
      refine .inr ⟨hmembers, ?_⟩
      split at hcheck
      · cases hcheck
      · next given hnone =>
          cases hcheck
          exact ⟨rfl, rfl, fun k hk => by rw [hnone] at hk; cases hk⟩
      · next given k hk =>
          split at hcheck
          · next heq =>
              cases hcheck
              exact ⟨by rw [heq], rfl, fun l hl => hk.symm.trans hl⟩
          · cases hcheck

/-- A group that has grown out of another one: nothing is gone or moved, and a connector
stays as it was. -/
structure Extends (g h : Group) : Prop where
  members : g.members <+: h.members
  connector : ∀ k, g.connector = some k → h.connector = some k

theorem Extends.refl (g : Group) : g.Extends g :=
  ⟨List.prefix_refl _, fun _ hk => hk⟩

theorem Extends.trans {i : Group} (hgh : g.Extends h) (hhi : h.Extends i) : g.Extends i :=
  ⟨hgh.members.trans hhi.members, fun k hk => hhi.connector k (hgh.connector k hk)⟩

theorem Adds.extends (hadds : g.Adds site node connector h) : g.Extends h := by
  refine ⟨?_, ?_⟩
  · rw [hadds.members_eq]
    exact List.prefix_append _ _
  · intro k hk
    rcases check_cases hadds.check_eq with ⟨-, hfixed⟩ | ⟨-, -, -, hfixed⟩
    · rw [hfixed, hk]
    · exact hfixed k hk

/-- The first member is added whatever its connector. -/
theorem adds_empty (node : Node) (connector : Option Connector) :
    Adds .condition node connector {} ⟨none, [node]⟩ :=
  ⟨AllowList.check_all _, rfl, rfl⟩

theorem Outcome.extends {op : Operation} {result : Except Refusal Unit}
    (houtcome : g.Outcome site op h result) : g.Extends h := by
  cases houtcome with
  | refused => exact .refl g
  | added _ hadds => exact hadds.extends

theorem Operation.inOrder_extends (site : Site) (operations : List Operation) (g : Group) :
    g.Extends ((inOrder site operations).on g).state :=
  inOrder_induct (motive := g.Extends) (fun op _ h hgh => hgh.trans (op.outcome site h).extends)
    (.refl g)

/-! ### The connectors of members -/

/-- A group whose members were added under the given connectors: it has none of them as
long as there is nothing to be joined, and then the second one and every later one. -/
structure JoinedBy (given : List (Option Connector)) (g : Group) : Prop where
  length_eq : given.length = g.members.length
  unset_iff : g.connector = none ↔ g.members.length < 2
  later : ∀ connector ∈ given.tail, connector = g.connector

theorem joinedBy_empty : JoinedBy [] {} :=
  ⟨rfl, by simp, fun _ hk => absurd hk List.not_mem_nil⟩

theorem JoinedBy.adds {given : List (Option Connector)} (hg : g.JoinedBy given)
    (hadds : g.Adds site node connector h) : h.JoinedBy (given ++ [connector]) := by
  obtain ⟨hlength, hunset, hlater⟩ := hg
  have hmembers : h.members.length = g.members.length + 1 := by
    rw [hadds.members_eq, List.length_append, List.length_singleton]
  rcases check_cases hadds.check_eq with ⟨hempty, hfixed⟩ | ⟨hne, hfixed, hsome, hkeeps⟩
  · -- the connector of the first member is ignored
    have hgiven : given = [] := List.eq_nil_of_length_eq_zero (by rw [hlength, hempty]; rfl)
    have hnone : g.connector = none := hunset.mpr (by simp [hempty])
    subst hgiven
    refine ⟨by simp [hmembers, hempty], ?_, fun _ hk => absurd hk List.not_mem_nil⟩
    simp [hfixed, hnone, hmembers, hempty]
  · have hpos : 0 < g.members.length := List.length_pos_iff.mpr hne
    have hgiven : given ≠ [] := List.ne_nil_of_length_pos (hlength ▸ hpos)
    refine ⟨by simp [hlength, hmembers], ?_, ?_⟩
    · refine iff_of_false ?_ (by omega)
      rw [hfixed]
      exact Option.isSome_iff_ne_none.mp hsome
    · intro k hk
      rw [List.tail_append_of_ne_nil hgiven] at hk
      rcases List.mem_append.mp hk with hk | hk
      · -- a later member came before, so the connector was set already
        have htwo : ¬g.members.length < 2 := by
          have := List.length_pos_iff.mpr (List.ne_nil_of_mem hk)
          rw [List.length_tail] at this
          omega
        obtain ⟨l, hl⟩ := Option.ne_none_iff_exists'.mp (mt hunset.mp htwo)
        rw [hlater k hk, hl, hkeeps l hl]
      · rw [List.mem_singleton.mp hk, hfixed]

/-- There is one addition for each member. -/
theorem JoinedBy.length_additions {additions : History.Additions}
    (hg : g.JoinedBy (additions.map Prod.fst)) : additions.length = g.members.length := by
  rw [← hg.length_eq, List.length_map]

theorem JoinedBy.exists_addition {additions : History.Additions}
    (hg : g.JoinedBy (additions.map Prod.fst)) (hnode : node ∈ g.members) :
    ∃ addition, (addition, node) ∈ additions.zip g.members := by
  rw [← List.map_snd_zip (Nat.le_of_eq hg.length_additions.symm)] at hnode
  obtain ⟨⟨addition, _⟩, hzip, rfl⟩ := List.mem_map.mp hnode
  exact ⟨addition, hzip⟩

/-- What operations keep that are not refused holds of those of some operations, and of the
group that they all leave. -/
theorem accepted_induct {motive : List Operation → Group → Prop} {operations : List Operation}
    (step : ∀ op ∈ operations, ∀ {done node g h}, motive done g → node.CameIn (op.brings site) →
      g.Adds site node op.connector h → motive (done ++ [op]) h)
    {done : List Operation} (hg : motive done g) :
    motive (done ++ g.accepted site operations) (g.after site operations) := by
  induction operations generalizing g done with
  | nil => rwa [accepted, List.append_nil]
  | cons op rest ih =>
      rw [List.forall_mem_cons] at step
      have houtcome := op.outcome site g
      rw [Group.after, accepted]
      rcases hrun : (op.work site).on g with ⟨h, result, started⟩
      rw [hrun] at houtcome
      cases result with
      | error reason =>
          -- what is refused is not counted and changes nothing
          have hstate : h = g := houtcome.eq_of_error
          subst hstate
          exact ih step.2 hg
      | ok _ =>
          cases houtcome with
          | added hnode hadds => simpa using ih step.2 (step.1 hg hnode hadds)

theorem after_joinedBy (site : Site) (operations : List Operation) :
    (after site {} operations).JoinedBy ((accepted site {} operations).map Operation.connector) := by
  have hnew : JoinedBy (([] : List Operation).map Operation.connector) {} := joinedBy_empty
  refine accepted_induct (motive := fun done g => g.JoinedBy (done.map Operation.connector)) ?_ hnew
  intro op _ done node g h hg _ hadds
  rw [List.map_append]
  exact hg.adds hadds

/-- Of those operations that are carried out in a row none is refused. -/
theorem accepted_carriedOut (site : Site) (operations : List Operation) (g : Group) :
    g.accepted site (Operation.carriedOut site g operations) =
      Operation.carriedOut site g operations := by
  induction operations generalizing g with
  | nil => rfl
  | cons op rest ih =>
      rw [Operation.carriedOut]
      cases hresult : ((op.work site).on g).result with
      | error reason => rfl
      | ok _ => simp only [accepted, hresult, ih]

theorem mem_of_mem_carriedOut {operations : List Operation} {op : Operation}
    (hop : op ∈ Operation.carriedOut site g operations) : op ∈ operations := by
  induction operations generalizing g with
  | nil => exact hop
  | cons first rest ih =>
      rw [Operation.carriedOut] at hop
      split at hop
      · exact (List.mem_cons.mp hop).elim (fun heq => heq ▸ List.mem_cons_self)
          fun hrest => List.mem_cons_of_mem first (ih hrest)
      · cases hop

end Group

/-! ### All groups in a node -/

/-- A node all of whose groups are joined by the connectors that their members came with, at
any depth.  In a filter these are the condition and all constraints, of which there is at most
one on each field. -/
inductive Node.JoinedBy : History → Node → Prop
  | test {c} : JoinedBy .test (.test c)
  | group {additions g} : g.JoinedBy (additions.map Prod.fst) →
      (∀ p ∈ additions.zip g.members, JoinedBy p.1.2 p.2) → JoinedBy (.group additions) (.group g)
  | filter {parts f} : f.names.Nodup → (∀ name, name ∉ f.names → parts (some name) = []) →
      (∀ c ∈ f.constraints, JoinedBy (.group (parts (some c.name))) (.group c.group)) →
      JoinedBy (.group (parts none)) (.group f.condition) → JoinedBy (.filter parts) (.filter f)

namespace Node

variable {g h : Group} {site : Site} {node n : Node} {connector : Option Connector}
  {additions : History.Additions} {past : Node → History}

theorem joinedBy_newGroup : JoinedBy (.group []) (.group {}) :=
  .group Group.joinedBy_empty fun _ hp => absurd hp List.not_mem_nil

/-- A member that is joined by its history is added to a group with one. -/
theorem JoinedBy.added (hg : JoinedBy (.group additions) (.group g)) {history : History}
    (hnode : JoinedBy history node) (hadds : g.Adds site node connector h) :
    JoinedBy (.group (additions ++ [(connector, history)])) (.group h) := by
  cases hg with
  | group hjoined hmembers =>
      refine .group ?_ ?_
      · rw [List.map_append]
        exact hjoined.adds hadds
      · intro p hp
        rw [hadds.members_eq, List.zip_append hjoined.length_additions] at hp
        rcases List.mem_append.mp hp with hp | hp
        · exact hmembers p hp
        · rw [List.mem_singleton.mp hp]
          exact hnode

theorem JoinedBy.ofBrought {brought : List Node} (hnode : node.CameIn brought)
    (hbrought : ∀ n ∈ brought, JoinedBy (past n) n) :
    JoinedBy (.ofBrought past brought) node := by
  cases hnode with
  | comparison => exact .test
  | brought => exact hbrought node (List.mem_singleton.mpr rfl)

/-- Operations on a group, refused or not, go on with its history. -/
theorem JoinedBy.after (hg : JoinedBy (.group additions) (.group g))
    {operations : List Group.Operation}
    (hbrought : ∀ op ∈ operations, ∀ n ∈ op.brings site, JoinedBy (past n) n) :
    JoinedBy
      (.group (additions ++ (g.accepted site operations).map (Group.Operation.addition past site)))
      (.group (g.after site operations)) := by
  refine Group.accepted_induct (motive := fun done g =>
    JoinedBy (.group (additions ++ done.map (Group.Operation.addition past site))) (.group g))
    ?_ (by rwa [List.map_nil, List.append_nil])
  intro op hop done node g h hg hnode hadds
  rw [List.map_append, ← List.append_assoc]
  exact hg.added (.ofBrought hnode (hbrought op hop)) hadds

/-- So do operations in a row, as far as they are carried out. -/
theorem JoinedBy.inOrder (hg : JoinedBy (.group additions) (.group g))
    {operations : List Group.Operation}
    (hbrought : ∀ op ∈ operations, ∀ n ∈ op.brings site, JoinedBy (past n) n) :
    let carriedOut := Group.Operation.carriedOut site g operations
    JoinedBy (.group (additions ++ carriedOut.map (Group.Operation.addition past site)))
      (.group ((Group.Operation.inOrder site operations).on g).state) := by
  intro carriedOut
  have hpast : ∀ op ∈ carriedOut, ∀ n ∈ op.brings site, JoinedBy (past n) n :=
    fun op hop => hbrought op (Group.mem_of_mem_carriedOut hop)
  have hafter := hg.after hpast
  rwa [Group.accepted_carriedOut, ← Group.Operation.state_inOrder] at hafter

variable {f : Filter} {parts : Option String → History.Additions}

theorem joinedBy_newFilter (allowed : AllowList) :
    JoinedBy (.filter fun _ => []) (.filter (.limited allowed)) :=
  .filter List.nodup_nil (fun _ _ => rfl) (fun _ hc => absurd hc List.not_mem_nil)
    joinedBy_newGroup

/-- To store a constraint with its history replaces the history of the one before. -/
theorem JoinedBy.store (hf : JoinedBy (.filter parts) (.filter f)) {c : Constraint}
    (hc : JoinedBy (.group additions) (.group c.group)) :
    JoinedBy (.filter (Function.update parts (some c.name) additions)) (.filter (f.store c)) := by
  cases hf with
  | filter hnames hnew hconstraints hcondition =>
      refine .filter (Filter.nodup_names_store hnames c) ?_ ?_ ?_
      · intro name hname
        have hne : name ≠ c.name ∧ name ∉ f.names := by
          rw [Filter.names_store] at hname
          split at hname
          · next hold => exact ⟨fun heq => hname (heq ▸ hold), hname⟩
          · exact ⟨fun heq => hname (by simp [heq]), fun hold => hname (by simp [hold])⟩
        rw [Function.update_of_ne fun heq => hne.1 (Option.some.inj heq)]
        exact hnew name hne.2
      · intro d hd
        rcases Filter.mem_putConstraint_of_nodup hnames hd with rfl | ⟨hd, hne⟩
        · rwa [Function.update_self]
        · rw [Function.update_of_ne fun heq => hne (Option.some.inj heq)]
          exact hconstraints d hd
      · rwa [Function.update_of_ne (Option.some_ne_none c.name).symm]

/-- Another condition comes with a history of its own. -/
theorem JoinedBy.withCondition (hf : JoinedBy (.filter parts) (.filter f))
    (hh : JoinedBy (.group additions) (.group h)) :
    JoinedBy (.filter (Function.update parts none additions)) (.filter (f.withCondition h)) := by
  cases hf with
  | filter hnames hnew hconstraints hcondition =>
      refine .filter hnames ?_ ?_ ?_
      · intro name hname
        rw [Function.update_of_ne (Option.some_ne_none name)]
        exact hnew name hname
      · intro c hc
        rw [Function.update_of_ne (Option.some_ne_none c.name)]
        exact hconstraints c hc
      · rwa [Function.update_self]

theorem JoinedBy.condition (hf : JoinedBy (.filter parts) (.filter f)) :
    JoinedBy (.group (parts none)) (.group f.condition) := by
  cases hf with
  | filter _ _ _ hcondition => exact hcondition

/-- The constraint that is given out has a part of the history. -/
theorem JoinedBy.gives (hf : JoinedBy (.filter parts) (.filter f)) {name : String}
    {c : Constraint} (hgives : f.Gives name c) :
    JoinedBy (.group (parts (some name))) (.group c.group) := by
  cases hf with
  | filter _ hnew hconstraints _ =>
      cases hgives with
      | found hfound =>
          rw [← (Filter.Gives.found hfound).name_eq]
          exact hconstraints c (List.mem_of_find?_eq_some hfound)
      | created hnone =>
          -- nothing was done to a constraint that is not there
          rw [hnew name (Filter.constraint?_eq_none_iff.mp hnone)]
          exact joinedBy_newGroup

theorem JoinedBy.ofGroup {history : History} (hg : JoinedBy history (.group g)) :
    JoinedBy (.group history.additions) (.group g) := by
  cases hg with
  | group hjoined hmembers => exact .group hjoined hmembers

/-- An operation on a filter, refused or not, goes on with its history. -/
theorem JoinedBy.onFilter (hf : JoinedBy (.filter parts) (.filter f)) {op : Filter.Operation}
    (hbrought : ∀ n ∈ op.brings f, JoinedBy (past n) n) :
    JoinedBy (.filter (op.record past f parts)) (.filter (op.work.on f).state) := by
  have hsame : ∀ part, JoinedBy (.filter (Function.update parts part (parts part))) (.filter f) := by
    intro part
    rwa [Function.update_eq_self]
  rw [Filter.Operation.record]
  rcases hconnector : op.connector? with - | connector
  · cases op with
    | append | compare | group => cases hconnector
    | constrain name operations =>
        rcases Filter.constrain_cases name f with
          ⟨reason, hfield, hwork⟩ | ⟨c, -, hgives, hfield, hwork⟩
        · rw [Filter.Operation.work, hwork, Filter.Operation.additions, hfield]
          exact hsame (some name)
        · rw [Filter.Operation.brings, ← hgives.eq_given] at hbrought
          obtain rfl := hgives.name_eq
          rw [Filter.Operation.work, hwork, Filter.Operation.additions, hfield]
          have hgroup := (hf.gives hgives).inOrder fun op hop n hn =>
            hbrought n (List.mem_flatMap.mpr ⟨op, hop, hn⟩)
          let group := ((Group.Operation.inOrder c.site operations).on c.group).state
          exact JoinedBy.store hf (c := { c with group }) hgroup
    | set name value =>
        rcases Filter.set_cases name value f with ⟨reason, h⟩ | h
        · rw [Filter.Operation.work, Filter.Operation.additions, h]
          exact hsame (some name)
        · rw [Filter.Operation.work, Filter.Operation.additions, h]
          have hgroup := joinedBy_newGroup.added .test
            (Group.adds_empty (.test (.on name .equal value)) (some .and))
          exact JoinedBy.store hf
            (c := ⟨name, ⟨none, [.test (.on name .equal value)]⟩, f.allowed⟩) hgroup
    | setConstraint name c =>
        rcases Filter.setConstraint_cases name c f with ⟨reason, h⟩ | ⟨rfl, h⟩
        · rw [Filter.Operation.work, Filter.Operation.additions, h]
          exact hsame (some name)
        · rw [Filter.Operation.work, Filter.Operation.additions, h]
          have hgroup := (hbrought _ (List.mem_singleton.mpr rfl)).ofGroup
          exact JoinedBy.store hf (c := { c with allowed := f.allowed }) hgroup
  · rw [Filter.Operation.additions_of_connector hconnector,
      Filter.Operation.field?_of_connector hconnector]
    rcases Filter.Operation.cases_of_connector hconnector f with
      ⟨reason, hresult, hstate⟩ | ⟨node, h, hnode, hadds, hresult, hstate⟩
    · rw [hresult, hstate]
      exact hsame none
    · rw [hresult, hstate]
      exact hf.withCondition (hf.condition.added (.ofBrought hnode hbrought) hadds)

/-- A node that is recorded with its history is joined by it. -/
theorem Recorded.joinedBy {history : History} (hn : n.Recorded history) : JoinedBy history n := by
  induction hn with
  | test => exact .test
  | newGroup => exact joinedBy_newGroup
  | newFilter => exact joinedBy_newFilter _
  | onGroup op past _ _ _ ih ihBrought =>
      exact ih.after fun op' hop' => List.mem_singleton.mp hop' ▸ ihBrought
  | onFilter op past _ _ ih ihBrought => exact ih.onFilter ihBrought
  | member _ hmem ih =>
      cases ih with
      | group _ hmembers => exact hmembers _ hmem
  | constraint _ hc ih =>
      cases ih with
      | filter _ _ hconstraints _ => exact hconstraints _ hc
  | condition _ ih => exact ih.condition

/-- Builders can make what is recorded with some history, and nothing else. -/
theorem reachable_iff_exists_recorded : n.Reachable ↔ ∃ history, n.Recorded history := by
  constructor
  · intro hn
    induction hn with
    | test => exact ⟨_, .test⟩
    | newGroup => exact ⟨_, .newGroup⟩
    | newFilter => exact ⟨_, .newFilter⟩
    | onGroup op _ hsite _ ih ihBrings =>
        obtain ⟨history, hg⟩ := ih
        choose! past hpast using ihBrings
        cases hg.joinedBy with
        | group _ _ => exact ⟨_, hg.onGroup op past hsite hpast⟩
    | onFilter op _ _ ih ihBrings =>
        obtain ⟨history, hf⟩ := ih
        choose! past hpast using ihBrings
        cases hf.joinedBy with
        | filter _ _ _ _ => exact ⟨_, hf.onFilter op past hpast⟩
    | @member g n _ hmem ih =>
        obtain ⟨history, hg⟩ := ih
        cases hg.joinedBy with
        | group hjoined _ =>
            obtain ⟨⟨connector, past⟩, hzip⟩ := hjoined.exists_addition hmem
            exact ⟨past, hg.member hzip⟩
    | constraint _ hc ih =>
        obtain ⟨history, hf⟩ := ih
        cases hf.joinedBy with
        | filter _ _ _ _ => exact ⟨_, hf.constraint hc⟩
    | condition _ ih =>
        obtain ⟨history, hf⟩ := ih
        cases hf.joinedBy with
        | filter _ _ _ _ => exact ⟨_, hf.condition⟩
  · rintro ⟨history, hn⟩
    exact hn.reachable

/-- Every group in a node that is joined by its history is joined by some connectors. -/
theorem JoinedBy.beneath {history : History} (hn : JoinedBy history n)
    (hg : (Node.group g).Beneath n) : ∃ given, g.JoinedBy given := by
  induction hn with
  | test => cases beneath_test_iff.mp hg
  | group hjoined hmembers ih =>
      rcases beneath_group_iff.mp hg with heq | ⟨m, hm, hbeneath⟩
      · cases heq
        exact ⟨_, hjoined⟩
      · obtain ⟨addition, hzip⟩ := hjoined.exists_addition hm
        exact ih _ hzip hbeneath
  | filter _ _ _ _ ihConstraints ihCondition =>
      rcases beneath_filter_iff.mp hg with heq | ⟨c, hc, hbeneath⟩ | hbeneath
      · cases heq
      · exact ihConstraints c hc hbeneath
      · exact ihCondition hbeneath

/-- In a reachable node a group is without a connector as long as there is nothing to join. -/
theorem Reachable.connector_eq_none_iff (hn : n.Reachable) (hg : (Node.group g).Beneath n) :
    g.connector = none ↔ g.members.length < 2 := by
  obtain ⟨history, hrecorded⟩ := reachable_iff_exists_recorded.mp hn
  obtain ⟨given, hjoined⟩ := hrecorded.joinedBy.beneath hg
  exact hjoined.unset_iff

theorem Reachable.isSome_connector (hn : n.Reachable) (hg : (Node.group g).Beneath n)
    (htwo : 2 ≤ g.members.length) : g.connector.isSome := by
  refine Option.isSome_iff_ne_none.mpr fun hnone => ?_
  have hlt := (hn.connector_eq_none_iff hg).mp hnone
  omega

/-- A node has an explained form if all groups of several members in it have a connector. -/
theorem joined_formula (n : Node)
    (hn : ∀ g, (Node.group g).Beneath n → 2 ≤ g.members.length → g.connector.isSome) :
    n.formula.Joined := by
  induction n using Node.induct with
  | test c => exact .test
  | group connector members ih =>
      rw [formula, Group.formula_eq]
      refine .join ?_ ?_
      · intro hterms
        have hlength : Formula.terms (members.map formula) ≤ members.length := by
          simpa [Formula.terms] using List.countP_le_length (l := members.map formula)
        exact hn ⟨connector, members⟩ .refl (Nat.le_trans hterms hlength)
      · intro part hpart
        obtain ⟨m, hm, rfl⟩ := List.mem_map.mp hpart
        exact ih m hm fun g hg => hn g (.member hm hg)
  | filter allowed constraints condition ihConstraints ihCondition =>
      rw [formula, Filter.formula_eq]
      refine .join (fun _ => rfl) ?_
      intro part hpart
      rcases List.mem_append.mp hpart with hpart | hpart
      · obtain ⟨c, hc, rfl⟩ := List.mem_map.mp hpart
        exact ihConstraints c hc fun g hg => hn g (.constraint hc hg)
      · rw [List.mem_singleton.mp hpart]
        exact ihCondition fun g hg => hn g (.condition hg)

/-- In a reachable node every join of several terms has its connector. -/
theorem Reachable.joined (hn : n.Reachable) : n.formula.Joined :=
  n.joined_formula fun _ hg htwo => hn.isSome_connector hg htwo

end Node

/-! ### Every operation on a filter -/

namespace Filter

/-- Whether an operation may replace the constraint on a field as a whole. -/
def Operation.Replaces (name : String) : Operation → Prop
  | set field _ => field = name
  | setConstraint field _ => field = name
  | _ => False

/-- What an operation may do to the groups of a filter: they grow, or are replaced. -/
structure Keeps (f : Filter) (op : Operation) (h : Filter) : Prop where
  condition : f.condition.Extends h.condition
  constraints : ∀ name c, f.constraint? name = some c →
    op.Replaces name ∨ ∃ d, h.constraint? name = some d ∧ c.group.Extends d.group

variable {f : Filter} {op : Operation}

theorem keeps_of_constraints_eq {h : Filter} (hcondition : f.condition.Extends h.condition)
    (hconstraints : h.constraints = f.constraints) : f.Keeps op h := by
  refine ⟨hcondition, fun name c hc => .inr ⟨c, ?_, .refl _⟩⟩
  rwa [constraint?, hconstraints]

/-- To store a constraint keeps the others. -/
theorem keeps_store {c : Constraint}
    (hc : ∀ d, f.constraint? c.name = some d → op.Replaces c.name ∨ d.group.Extends c.group) :
    f.Keeps op (f.store c) := by
  refine ⟨.refl _, ?_⟩
  intro name d hd
  rw [constraint?_store]
  split
  · next hname =>
      subst hname
      exact (hc d hd).imp_right fun hextends => ⟨c, rfl, hextends⟩
  · exact .inr ⟨d, hd, .refl _⟩

theorem Outcome.keeps {h : Filter} {result : Except Refusal Unit}
    (houtcome : f.Outcome op h result) : f.Keeps op h := by
  cases houtcome with
  | refused => exact keeps_of_constraints_eq (.refl _) rfl
  | added _ _ hadds => exact keeps_of_constraints_eq hadds.extends rfl
  | @constrained name operations c run _ hgives hrun =>
      subst hrun
      refine keeps_store fun d hd => .inr ?_
      have hname : f.constraint? name = some d := hgives.name_eq ▸ hd
      cases hgives with
      | found hfound =>
          -- the constraint that was given out is the one that was there
          obtain rfl : c = d := Option.some.inj (hfound.symm.trans hname)
          exact Group.Operation.inOrder_extends c.site operations c.group
      | created hnone =>
          rw [hnone] at hname
          cases hname
  | equality _ _ => exact keeps_store fun _ _ => .inl rfl
  | prepared hname _ _ => exact keeps_store fun _ _ => .inl hname.symm

end Filter

/-! ### The single connector -/

/-- Whatever operations, refused or not, are carried out on a new group, it is joined by the
connectors that those were given which are not refused.  So is every group at any depth of a
node that builders make, be it a condition, a constraint or a nested group: by those given to
the operations on it, as the history of the node has them, and every node that builders can
make has a history.  In particular this holds of a new filter after any operations.

So in a reachable node a group has no connector as long as it has fewer than two members, and
it has one if two members say something, and the node has an explained form.  No operation
changes a connector that is set, or removes or moves what is in a group. -/
theorem single_connector :
    (∀ (site : Site) (operations : List Group.Operation),
      (Group.after site {} operations).JoinedBy
        ((Group.accepted site {} operations).map Group.Operation.connector)) ∧
    (∀ (allowed : AllowList) (operations : List Filter.Operation) (past : Node → History),
      let f := Filter.limited allowed
      (∀ n ∈ f.brought operations, n.Recorded (past n)) →
        Node.JoinedBy (.filter (f.record past (fun _ => []) operations))
          (.filter (f.after operations))) ∧
    (∀ (n : Node) (history : History), n.Recorded history → n.JoinedBy history) ∧
    (∀ n : Node, n.Reachable ↔ ∃ history, n.Recorded history) ∧
    (∀ n : Node, n.Reachable →
      (∀ g : Group, (Node.group g).Beneath n →
        (g.connector = none ↔ g.members.length < 2) ∧
          (2 ≤ g.members.countP (fun m => !m.formula.isEmpty) → g.connector.isSome)) ∧
      ∃ text, n.explain = .ok text) ∧
    (∀ (op : Group.Operation) (site : Site) (g : Group),
      g.Extends ((op.work site).on g).state) ∧
    ∀ (op : Filter.Operation) (f : Filter), f.Keeps op (op.work.on f).state := by
  refine ⟨Group.after_joinedBy, ?_, fun n history hn => hn.joinedBy,
    fun n => Node.reachable_iff_exists_recorded, ?_, fun op site g => (op.outcome site g).extends,
    fun op f => (op.outcome f).keeps⟩
  · intro allowed operations past f hbrought
    exact (Node.Recorded.newFilter.after hbrought).joinedBy
  · refine fun n hn => ⟨fun g hg => ⟨hn.connector_eq_none_iff hg, fun hterms => ?_⟩,
      hn.joined.exists_explain⟩
    exact hn.isSome_connector hg (Nat.le_trans hterms List.countP_le_length)

/-- A condition with a nested filter and a constraint, where the third call on each of them is
refused: they are joined by the connectors of the second calls. -/
theorem single_connector_steps :
    let within := Filter.Operation.compare .and "d" (.known .isNull) (.of (0 : Int64))
    let less := Group.Operation.compare .and "" (.known .less) (.of (9 : Int64))
    let operations := [Filter.Operation.compare .or "a" (.known .less) (.field "b"),
      .group .and within.work, .compare .or "a" (.known .less) (.field "b"),
      .constrain "s" [less, .compare .or "" (.known .isNull) (.of (0 : Int64)), less]]
    let past := fun _ =>
      History.filter (within.record (fun _ => .test) (.limited .all) fun _ => [])
    let new := Filter.limited .all
    let parts := new.record past (fun _ => []) operations
    let f := new.after operations
    (∀ n ∈ new.brought operations, n.Recorded (past n)) ∧
      Node.JoinedBy (.filter parts) (.filter f) ∧
      (parts none).map Prod.fst = [some .or, some .and] ∧ f.condition.connector = some .and ∧
      (parts (some "s")).map Prod.fst = [some .and, some .or] ∧
      (f.constraint? "s").map (fun c => c.group.connector) = some (some .or) ∧
      (Node.filter mixedFilter).Reachable ∧ ∃ text, (Node.filter mixedFilter).explain = .ok text := by
  intro within less operations past new parts f
  obtain ⟨-, hafter, -, -, hreachable, -, -⟩ := single_connector
  have hwithin : (Node.filter (within.work.on new).state).Recorded (past (.group {})) :=
    Node.Recorded.newFilter.onFilter within (fun _ => .test) fun _ hn => absurd hn List.not_mem_nil
  have hbrought : ∀ n ∈ new.brought operations, n.Recorded (past n) :=
    fun n hn => List.mem_singleton.mp hn ▸ hwithin
  refine ⟨hbrought, hafter .all operations past hbrought, ?_, ?_, ?_, ?_, mixedFilter_reachable,
    (hreachable _ mixedFilter_reachable).2⟩
  · decide +kernel
  · decide +kernel
  · decide +kernel
  · decide +kernel

end WhereClause

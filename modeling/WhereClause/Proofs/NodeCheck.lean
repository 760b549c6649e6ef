/-
WhereClause/Proofs/NodeCheck.lean

What the check of a node against an allow-list finds.

A node is checked part by part: a comparison from left to right, a group member by
member, a filter constraint by constraint, each with its name first, and then its
condition.  The check ends at the first refusal (`check_test`, `check_group`,
`check_filter`, `forM_eq_error`).

`Node.FirstOutside` says which field is the first one outside of a list, by one rule for
each place where a name can stand.  Its rules ask of all that comes before that it is
within the list, which is said by `Node.Mentions` and hence without any order.  A field
found in this way is the one that is refused (`FirstOutside.check_eq`, by induction on the
rules), and in a node that is not within the list there is one
(`within_or_exists_firstOutside`, by induction on the node).

`first_outside_refused` puts the two together.
-/
import WhereClause.Proofs.Planned

namespace WhereClause

/-! ### Checks in a row -/

section Checks

variable {ε α : Type} {check : α → Except ε Unit} {before after xs : List α} {a : α} {e : ε}

theorem forM_eq_ok (h : ∀ x ∈ xs, check x = .ok ()) : xs.forM check = .ok () := by
  induction xs with
  | nil => rfl
  | cons x xs ih =>
      obtain ⟨hx, hxs⟩ := List.forall_mem_cons.mp h
      show (check x >>= fun _ => xs.forM check) = .ok ()
      rw [hx]
      exact ih hxs

/-- Checks in a row end at the first refusal. -/
theorem forM_eq_error (hbefore : ∀ b ∈ before, check b = .ok ()) (ha : check a = .error e) :
    (before ++ a :: after).forM check = .error e := by
  induction before with
  | nil =>
      show (check a >>= fun _ => after.forM check) = .error e
      rw [ha]
      rfl
  | cons b before ih =>
      obtain ⟨hb, hbefore⟩ := List.forall_mem_cons.mp hbefore
      show (check b >>= fun _ => (before ++ a :: after).forM check) = .error e
      rw [hb]
      exact ih hbefore

end Checks

/-! ### The order of a check -/

namespace AllowList

variable (allowed : AllowList)

theorem check_append (names names' : List String) :
    allowed.check (names ++ names') =
      (do
        allowed.check names
        allowed.check names') := by
  unfold check
  rw [List.find?_append]
  rcases names.find? fun name => !allowed.allows name with - | name
  · rfl
  · rfl

theorem check_flatMap {α : Type} (mentions : α → List String) (xs : List α) :
    allowed.check (xs.flatMap mentions) = xs.forM fun x => allowed.check (mentions x) := by
  induction xs with
  | nil => rfl
  | cons x xs ih =>
      rw [List.flatMap_cons, check_append, ih]
      rfl

theorem check_test (c : Comparison) :
    allowed.check (Node.test c).mentions =
      (do
        allowed.check c.left.field?.toList
        allowed.check (c.right.bind Operand.field?).toList) :=
  check_append allowed _ _

theorem check_group (g : Group) :
    allowed.check (Node.group g).mentions =
      g.members.forM fun n => allowed.check n.mentions := by
  rw [Node.mentions, Group.mentions_eq_flatMap, check_flatMap]

theorem check_filter (f : Filter) :
    allowed.check (Node.filter f).mentions =
      (do
        f.constraints.forM fun c => do
          allowed.check [c.name]
          allowed.check (Node.group c.group).mentions
        allowed.check (Node.group f.condition).mentions) := by
  have hconstraint : ∀ c : Constraint, allowed.check (c.name :: c.group.mentions) =
      (do
        allowed.check [c.name]
        allowed.check (Node.group c.group).mentions) :=
    fun c => check_append allowed [c.name] c.group.mentions
  show allowed.check f.mentions = _
  rw [Filter.mentions_eq, check_append, check_flatMap, funext hconstraint]
  rfl

end AllowList

/-! ### The first field outside of a list -/

variable {fields : List String} {n : Node} {name : String}

/-- A node mentions no field outside of a list. -/
def Node.Within (fields : List String) (n : Node) : Prop :=
  ∀ name, n.Mentions name → name ∈ fields

/-- A constraint is on a field of a list, and mentions no field outside of it. -/
def Constraint.Within (fields : List String) (c : Constraint) : Prop :=
  c.name ∈ fields ∧ (Node.group c.group).Within fields

/-- A field is the first one outside of a list that a node mentions: left before right, the
members of a group in order, and in a filter each constraint's name before what is in it, then
the condition. -/
inductive Node.FirstOutside (fields : List String) : Node → String → Prop
  | left {c name} : c.left = .field name → name ∉ fields → FirstOutside fields (.test c) name
  | right {c name} : (∀ other, c.left = .field other → other ∈ fields) →
      c.right = some (.field name) → name ∉ fields → FirstOutside fields (.test c) name
  | member {g before n after name} : g.members = before ++ n :: after →
      (∀ m ∈ before, m.Within fields) → FirstOutside fields n name →
      FirstOutside fields (.group g) name
  | constraintName {f before c after} : f.constraints = before ++ c :: after →
      (∀ d ∈ before, d.Within fields) → c.name ∉ fields → FirstOutside fields (.filter f) c.name
  | constraint {f before c after name} : f.constraints = before ++ c :: after →
      (∀ d ∈ before, d.Within fields) → c.name ∈ fields →
      FirstOutside fields (.group c.group) name → FirstOutside fields (.filter f) name
  | condition {f name} : (∀ c ∈ f.constraints, c.Within fields) →
      FirstOutside fields (.group f.condition) name → FirstOutside fields (.filter f) name

/-- A node is within a list, or there is a first field outside of it. -/
theorem Node.within_or_exists_firstOutside (fields : List String) (n : Node) :
    n.Within fields ∨ ∃ name, n.FirstOutside fields name := by
  induction n using Node.induct with
  | test c =>
      by_cases hleft : ∀ name, c.left = .field name → name ∈ fields
      · by_cases hright : ∀ name, c.right = some (.field name) → name ∈ fields
        · refine .inl fun name hname => ?_
          rcases Comparison.mem_fields_iff.mp (mentions_test_iff.mp hname) with h | h
          · exact hleft name h
          · exact hright name h
        · obtain ⟨name, hname, hnot⟩ := not_forall₂.mp hright
          exact .inr ⟨name, .right hleft hname hnot⟩
      · obtain ⟨name, hname, hnot⟩ := not_forall₂.mp hleft
        exact .inr ⟨name, .left hname hnot⟩
  | group connector members ih =>
      rcases forall_mem_or_exists_first (Within fields) members with
        hall | ⟨before, m, after, hsplit, hbefore, hm⟩
      · refine .inl fun name hname => ?_
        obtain ⟨m, hm, hname⟩ := mentions_group_iff.mp hname
        exact hall m hm name hname
      · have hmem : m ∈ members := by simp [hsplit]
        obtain ⟨name, hfirst⟩ := (ih m hmem).resolve_left hm
        exact .inr ⟨name, .member hsplit hbefore hfirst⟩
  | filter allowed constraints condition ihConstraints ihCondition =>
      rcases forall_mem_or_exists_first (Constraint.Within fields) constraints with
        hall | ⟨before, c, after, hsplit, hbefore, hc⟩
      · rcases ihCondition with hcondition | ⟨name, hfirst⟩
        · refine .inl fun name hname => ?_
          rcases mentions_filter_iff.mp hname with ⟨c, hc, rfl | hname⟩ | hname
          · exact (hall c hc).1
          · exact (hall c hc).2 name hname
          · exact hcondition name hname
        · exact .inr ⟨name, .condition hall hfirst⟩
      · -- the first constraint that is not within the list fails by its name or in its group
        by_cases hname : c.name ∈ fields
        · have hmem : c ∈ constraints := by simp [hsplit]
          have hgroup : ¬(Node.group c.group).Within fields := fun h => hc ⟨hname, h⟩
          obtain ⟨name, hfirst⟩ := (ihConstraints c hmem).resolve_left hgroup
          exact .inr ⟨name, .constraint hsplit hbefore hname hfirst⟩
        · exact .inr ⟨c.name, .constraintName hsplit hbefore hname⟩

/-! ### The field that is refused -/

namespace AllowList

theorem check_eq_ok_iff_within :
    (ofList fields).check n.mentions = .ok () ↔ n.Within fields := by
  simp only [check_eq_ok_iff, allows_ofList, Node.mem_mentions_iff, Node.Within]

theorem check_singleton_of_mem (h : name ∈ fields) : (ofList fields).check [name] = .ok () := by
  rw [check_singleton, if_pos (allows_ofList.mpr h)]

theorem check_singleton_of_not_mem (h : name ∉ fields) :
    (ofList fields).check [name] = .error (.notAllowed name) := by
  rw [check_singleton, if_neg (mt allows_ofList.mp h)]

theorem check_constraint_of_within {c : Constraint} (h : c.Within fields) :
    (do
      (ofList fields).check [c.name]
      (ofList fields).check (Node.group c.group).mentions) = .ok () := by
  rw [check_singleton_of_mem h.1, check_eq_ok_iff_within.mpr h.2]
  rfl

end AllowList

open AllowList

/-- The check of a node refuses the first field outside of the list. -/
theorem Node.FirstOutside.check_eq (h : n.FirstOutside fields name) :
    (ofList fields).check n.mentions = .error (.notAllowed name) := by
  induction h with
  | left hleft hname =>
      rw [check_test, hleft, Operand.field?, Option.toList_some, check_singleton_of_not_mem hname]
      rfl
  | @right c name hleft hright hname =>
      have hok : (ofList fields).check c.left.field?.toList = .ok () := by
        refine check_eq_ok_iff.mpr fun other hother => allows_ofList.mpr (hleft other ?_)
        exact Operand.field?_eq_some_iff.mp (Option.mem_toList.mp hother)
      rw [check_test, hok, hright]
      exact check_singleton_of_not_mem hname
  | member hmembers hbefore _ ih =>
      rw [check_group, hmembers]
      exact forM_eq_error (fun m hm => check_eq_ok_iff_within.mpr (hbefore m hm)) ih
  | @constraintName f before c after hconstraints hbefore hname =>
      rw [check_filter, hconstraints, forM_eq_error (e := .notAllowed c.name)
        fun d hd => check_constraint_of_within (hbefore d hd)]
      · rfl
      · rw [check_singleton_of_not_mem hname]
        rfl
  | @constraint f before c after name hconstraints hbefore hname _ ih =>
      rw [check_filter, hconstraints, forM_eq_error (e := .notAllowed name)
        fun d hd => check_constraint_of_within (hbefore d hd)]
      · rfl
      · rw [check_singleton_of_mem hname]
        exact ih
  | condition hconstraints _ ih =>
      rw [check_filter, forM_eq_ok fun c hc => check_constraint_of_within (hconstraints c hc)]
      exact ih

/-- The check of a node against a list of fields succeeds exactly if the node mentions no
other field, be it in a comparison or as the name of a constraint.  Otherwise it refuses the
first one outside of the list.  Without a list there is nothing to refuse. -/
theorem first_outside_refused (fields : List String) (n : Node) :
    ((ofList fields).check n.mentions = .ok () ↔ ∀ name, n.Mentions name → name ∈ fields) ∧
    (∀ reason, (ofList fields).check n.mentions = .error reason ↔
      ∃ name, n.FirstOutside fields name ∧ reason = .notAllowed name) ∧
    AllowList.all.check n.mentions = .ok () := by
  refine ⟨check_eq_ok_iff_within, fun reason => ⟨fun h => ?_, ?_⟩, check_all _⟩
  · rcases n.within_or_exists_firstOutside fields with hwithin | ⟨name, hfirst⟩
    · rw [check_eq_ok_iff_within.mpr hwithin] at h
      cases h
    · rw [hfirst.check_eq] at h
      cases h
      exact ⟨name, hfirst, rfl⟩
  · rintro ⟨name, hfirst, rfl⟩
    exact hfirst.check_eq

/-- The name of a constraint is refused although there is nothing in the constraint. -/
theorem first_outside_refused_mixedFilter :
    (ofList ["s"]).check (Node.filter mixedFilter).mentions = .error (.notAllowed "t") ∧
      (Node.filter mixedFilter).FirstOutside ["s"] "t" := by
  have hcheck : (ofList ["s"]).check (Node.filter mixedFilter).mentions =
      .error (.notAllowed "t") := rfl
  obtain ⟨-, hrefused, -⟩ := first_outside_refused ["s"] (.filter mixedFilter)
  obtain ⟨name, hfirst, heq⟩ := (hrefused (.notAllowed "t")).mp hcheck
  cases heq
  exact ⟨hcheck, hfirst⟩

end WhereClause

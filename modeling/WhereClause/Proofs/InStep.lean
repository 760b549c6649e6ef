/-
WhereClause/Proofs/InStep.lean

What a limited builder and a free one have in common.

A builder that is limited to some fields never becomes equal to one that is not, since the
allow-lists stay in it and in the filters that are nested in it.  So the relations that are
carried along, `Group.InStep` and `Filter.InStep`, say that the two have the same formulas
under the same names, and that the limited one keeps to its fields.

The latter is what the checks of the limited builder ask, so they find nothing to refuse, and
no other check looks at a field name.  Hence every operation with allowed names agrees on
both (`Group.append_agrees`, on which the other operations on groups rest, and for filters
`Filter.InStep.onCondition_agrees` and `Filter.InStep.store_agrees`).
-/
import WhereClause.Proofs.Allowed
import WhereClause.Proofs.SameBuilder

namespace WhereClause

/-! ### Runs that agree -/

/-- A result that is no refusal of a field. -/
def Permitted (result : Except Refusal Unit) : Prop :=
  ∀ name, result ≠ .error (.notAllowed name)

theorem permitted_ok : Permitted (.ok ()) := nofun

/-- A text that spells no operator is no field. -/
theorem permitted_of_operator {operator : OperatorName} {reason : Refusal}
    (h : operator.operator = .error reason) : Permitted (.error reason) := by
  rintro name hname
  cases hname
  cases operator with
  | known operator => cases h
  | spelled text =>
      rw [OperatorName.operator] at h
      split at h
      · cases h
      · cases h

variable {σ τ : Type}

/-- Runs that come to the same, which is no refusal of a field. -/
structure Run.Agrees (R : σ → τ → Prop) (r : Run σ Unit) (r' : Run τ Unit) : Prop
    extends r.Abreast R r' where
  permitted : Permitted r.result

theorem Run.Agrees.permitted_of_error {R : σ → τ → Prop} {r : Run σ Unit} {r' : Run τ Unit}
    (h : r.Agrees R r') {reason : Refusal} (hresult : r.result = .error reason) :
    Permitted (.error reason) :=
  hresult ▸ h.permitted

/-! ### Groups -/

/-- A comparison of a field mentions the field and the operand. -/
theorem Comparison.mem_fields_on {field : String} {operator : Operator} {value : Operand}
    {name : String} (h : name ∈ (Comparison.on field operator value).fields) :
    name = field ∨ name ∈ value.field?.toList := by
  rcases List.mem_append.mp h with h | h
  · exact .inl (List.mem_singleton.mp h)
  · -- the operand is dropped if the operator takes none
    simp only [Comparison.on, Comparison.of] at h
    split at h
    · exact .inr h
    · exact absurd h List.not_mem_nil

namespace Group

/-- A group that keeps to an allow-list, and a group with the same formula. -/
structure InStep (allowed : AllowList) (g h : Group) : Prop where
  formula_eq : g.formula = h.formula
  allows : ∀ name ∈ g.mentions, allowed.allows name

theorem inStep_empty (allowed : AllowList) : InStep allowed {} {} :=
  ⟨rfl, by simp [mentions_empty]⟩

/-- The check of a connector refuses no field. -/
theorem permitted_of_check {g : Group} {connector : Option Connector} {reason : Refusal}
    (hcheck : g.check connector = .error reason) : Permitted (.error reason) := by
  rintro name hname
  cases hname
  unfold check at hcheck
  split at hcheck
  · cases hcheck
  · split at hcheck
    · cases hcheck
    · cases hcheck
    · split at hcheck
      · cases hcheck
      · cases hcheck

/-- A formula of a group shows its connector and the formulas of its members. -/
theorem connector_eq_and_map_eq {g h : Group} (heq : g.formula = h.formula) :
    g.connector = h.connector ∧ g.members.map Node.formula = h.members.map Node.formula := by
  rw [formula_eq, formula_eq] at heq
  exact Formula.join.inj heq

namespace InStep

variable {allowed : AllowList} {g h : Group}

theorem connector_eq (hrel : InStep allowed g h) : g.connector = h.connector :=
  (connector_eq_and_map_eq hrel.formula_eq).1

theorem map_formula_eq (hrel : InStep allowed g h) :
    g.members.map Node.formula = h.members.map Node.formula :=
  (connector_eq_and_map_eq hrel.formula_eq).2

theorem length_eq (hrel : InStep allowed g h) : g.members.length = h.members.length := by
  simpa using congrArg List.length hrel.map_formula_eq

theorem check_eq (hrel : InStep allowed g h) (connector : Option Connector) :
    g.check connector = h.check connector := by
  have hempty : g.members.isEmpty = h.members.isEmpty := by
    rw [Bool.eq_iff_iff, List.isEmpty_iff_length_eq_zero, List.isEmpty_iff_length_eq_zero,
      hrel.length_eq]
  simp only [check, hempty, hrel.connector_eq]

end InStep

variable (site other : Site) {g h : Group}

/-- A member that is allowed is added to both groups. -/
theorem append_agrees (hother : other.allowed = .all) (hrel : InStep site.allowed g h)
    (connector : Option Connector) {node node' : Node} (hformula : node.formula = node'.formula)
    (hnode : ∀ name ∈ node.mentions, site.allowed.allows name) :
    ((append site node connector).on g).Agrees (InStep site.allowed)
      ((append other node' connector).on h) := by
  rw [append_on, append_on, hother, AllowList.check_all, AllowList.check_eq_ok_iff.mpr hnode,
    ← hrel.check_eq]
  cases hcheck : g.check connector with
  | error reason => exact ⟨⟨rfl, hrel⟩, permitted_of_check hcheck⟩
  | ok fixed =>
      have hadds : g.Adds site node connector ⟨fixed, g.members ++ [node]⟩ :=
        ⟨AllowList.check_eq_ok_iff.mpr hnode, hcheck, rfl⟩
      refine ⟨⟨rfl, ?_, hadds.allows hrel.allows⟩, permitted_ok⟩
      simp only [Group.formula_eq, List.map_append, List.map_cons, List.map_nil, hformula,
        hrel.map_formula_eq]

/-- So is a comparison of fields that are allowed. -/
theorem compare_agrees (hother : other.allowed = .all) (hrel : InStep site.allowed g h)
    (connector : Connector) (field : String) (operator : OperatorName) {value : Operand}
    (hsubject : site.subject.getD field = other.subject.getD field)
    (hfield : site.allowed.allows (site.subject.getD field))
    (hvalue : ∀ name ∈ value.field?.toList, site.allowed.allows name) :
    ((compare site connector field operator value).on g).Agrees (InStep site.allowed)
      ((compare other connector field operator value).on h) := by
  rw [compare_on, compare_on, ← hsubject]
  cases hoperator : operator.operator with
  | error reason => exact ⟨⟨rfl, hrel⟩, permitted_of_operator hoperator⟩
  | ok operator =>
      refine append_agrees site other hother hrel (some connector) rfl ?_
      intro name hname
      rcases Comparison.mem_fields_on hname with rfl | hname
      · exact hfield
      · exact hvalue name hname

/-- So is what was built on the spot. -/
theorem nest_agrees {α β : Type} {Q : α → β → Prop} (node : α → Node) (node' : β → Node)
    (hother : other.allowed = .all) (hrel : InStep site.allowed g h) (connector : Connector)
    {fresh : α} {fresh' : β} {build : Work α Unit} {build' : Work β Unit}
    (hnode : ∀ {a b}, Q a b → (node a).formula = (node' b).formula ∧
      ∀ name ∈ (node a).mentions, site.allowed.allows name)
    (hbuild : (build.on fresh).Agrees Q (build'.on fresh')) :
    ((nest site connector fresh node build).on g).Agrees (InStep site.allowed)
      ((nest other connector fresh' node' build').on h) := by
  have hadd := append_agrees site other hother hrel (some connector) (hnode hbuild.related).1
    (hnode hbuild.related).2
  rw [nest_on, nest_on, ← hrel.check_eq, ← hbuild.result_eq]
  cases hcheck : g.check (some connector) with
  | error reason => exact ⟨⟨rfl, hrel⟩, permitted_of_check hcheck⟩
  | ok fixed =>
      cases hresult : (build.on fresh).result with
      | error reason => exact ⟨⟨rfl, hrel⟩, hbuild.permitted_of_error hresult⟩
      | ok _ => exact ⟨⟨hadd.result_eq, hadd.related⟩, hadd.permitted⟩

end Group

/-! ### Filters -/

/-- What of a constraint does not depend on an allow-list. -/
def Constraint.entry (c : Constraint) : String × Formula :=
  (c.name, c.group.formula)

namespace Filter

/-- A filter that keeps to an allow-list, and one without an allow-list that has the same
formulas under the same names. -/
structure InStep (allowed : AllowList) (f f' : Filter) : Prop where
  guarded : f.Guarded allowed
  free : f'.Guarded .all
  constraints_eq : f.constraints.map Constraint.entry = f'.constraints.map Constraint.entry
  condition_eq : f.condition.formula = f'.condition.formula

theorem inStep_limited (allowed : AllowList) : InStep allowed (limited allowed) (limited .all) :=
  ⟨guarded_limited allowed, guarded_limited .all, rfl, rfl⟩

/-- Constraints with the same entries are put in the same place. -/
theorem map_entry_putConstraint {c d : Constraint} (hentry : c.entry = d.entry) :
    ∀ {cs ds : List Constraint}, cs.map Constraint.entry = ds.map Constraint.entry →
      (putConstraint c cs).map Constraint.entry = (putConstraint d ds).map Constraint.entry := by
  intro cs
  induction cs with
  | nil =>
      intro ds h
      obtain rfl := List.map_eq_nil_iff.mp h.symm
      simp [putConstraint, hentry]
  | cons c' cs ih =>
      intro ds h
      obtain ⟨d', ds, rfl, hhead, hrest⟩ := List.map_eq_cons_iff.mp h.symm
      have hname : c.name = d.name := congrArg Prod.fst hentry
      have hname' : d'.name = c'.name := congrArg Prod.fst hhead
      simp only [putConstraint, hname, hname']
      split
      · simp [hentry, hrest]
      · simp [hhead, ih hrest.symm]

theorem find?_entry {name : String} :
    ∀ {cs ds : List Constraint}, cs.map Constraint.entry = ds.map Constraint.entry →
      (cs.find? fun c => c.name == name).map Constraint.entry =
        (ds.find? fun d => d.name == name).map Constraint.entry := by
  intro cs
  induction cs with
  | nil =>
      intro ds h
      obtain rfl := List.map_eq_nil_iff.mp h.symm
      rfl
  | cons c cs ih =>
      intro ds h
      obtain ⟨d, ds, rfl, hhead, hrest⟩ := List.map_eq_cons_iff.mp h.symm
      have hname : d.name = c.name := congrArg Prod.fst hhead
      simp only [List.find?_cons, hname]
      split
      · simp [hhead]
      · exact ih hrest.symm

namespace InStep

variable {allowed : AllowList} {f f' : Filter}

theorem formula_eq (hrel : InStep allowed f f') : f.formula = f'.formula := by
  have hsnd := congrArg (List.map Prod.snd) hrel.constraints_eq
  rw [List.map_map, List.map_map] at hsnd
  rw [Filter.formula_eq, Filter.formula_eq, hrel.condition_eq]
  exact congrArg (fun parts => Formula.join _ (parts ++ _)) hsnd

/-- The conditions of such filters are in step. -/
theorem condition (hrel : InStep allowed f f') :
    Group.InStep allowed f.condition f'.condition :=
  ⟨hrel.condition_eq, hrel.guarded.condition⟩

theorem mentions_allowed (hrel : InStep allowed f f') :
    ∀ name ∈ (Node.filter f).mentions, allowed.allows name :=
  fun _ hname => hrel.guarded.allows (Node.mem_mentions_iff.mp hname)

theorem check_eq_ok (hrel : InStep allowed f f') {names : List String}
    (h : ∀ name ∈ names, allowed.allows name) :
    f.allowed.check names = .ok () ∧ f'.allowed.check names = .ok () := by
  rw [hrel.guarded.allowed_eq, hrel.free.allowed_eq]
  exact ⟨AllowList.check_eq_ok_iff.mpr h, AllowList.check_all names⟩

/-- Constraints with the same entry are stored in both filters. -/
theorem store (hrel : InStep allowed f f') {c d : Constraint} (hc : c.Guarded allowed)
    (hd : d.Guarded .all) (hentry : c.entry = d.entry) : InStep allowed (f.store c) (f'.store d) :=
  ⟨hrel.guarded.store hc, hrel.free.store hd,
    map_entry_putConstraint hentry hrel.constraints_eq, hrel.condition_eq⟩

/-- What is done alike to the conditions is done alike to the filters. -/
theorem onCondition_agrees (hrel : InStep allowed f f') (work : Site → Work Group Unit)
    (h : ((work f.site).on f.condition).Agrees (Group.InStep allowed)
      ((work f'.site).on f'.condition)) :
    ((onCondition work).on f).Agrees (InStep allowed) ((onCondition work).on f') := by
  refine ⟨⟨h.result_eq, ?_, ?_, hrel.constraints_eq, h.related.formula_eq⟩, h.permitted⟩
  · exact ⟨hrel.guarded.allowed_eq, hrel.guarded.constraints, h.related.allows⟩
  · exact ⟨hrel.free.allowed_eq, hrel.free.constraints, fun _ _ => rfl⟩

/-- Both filters give out a constraint with the same entry. -/
theorem entry_eq_of_gives (hrel : InStep allowed f f') {name : String} {c d : Constraint}
    (hc : f.Gives name c) (hd : f'.Gives name d) : c.entry = d.entry := by
  have hfind : (f.constraint? name).map Constraint.entry =
      (f'.constraint? name).map Constraint.entry := find?_entry hrel.constraints_eq
  cases hc with
  | found hc =>
      cases hd with
      | found hd =>
          rw [hc, hd] at hfind
          exact Option.some.inj hfind
      | created hd =>
          rw [hc, hd] at hfind
          cases hfind
  | created hc =>
      cases hd with
      | found hd =>
          rw [hc, hd] at hfind
          cases hfind
      | created _ => rfl

/-- What is done alike to the constraints that are given out is done alike to the filters. -/
theorem store_agrees (hrel : InStep allowed f f') {c d : Constraint} (hc : c.Guarded allowed)
    (hd : d.Guarded .all) (hname : c.name = d.name) {r r' : Run Group Unit}
    (h : r.Agrees (Group.InStep allowed) r') :
    (r.map fun group => f.store { c with group }).Agrees (InStep allowed)
      (r'.map fun group => f'.store { d with group }) := by
  refine ⟨⟨h.result_eq, ?_⟩, h.permitted⟩
  refine hrel.store ⟨hc.allowed_eq, hc.name, h.related.allows⟩
    ⟨hd.allowed_eq, rfl, fun _ _ => rfl⟩ ?_
  rw [Constraint.entry, Constraint.entry, hname, h.related.formula_eq]

theorem set_agrees (hrel : InStep allowed f f') {name : String} {value : Operand}
    (hname : allowed.allows name) (hvalue : ∀ x ∈ value.field?.toList, allowed.allows x) :
    ((set name value).on f).Agrees (InStep allowed) ((set name value).on f') := by
  have hcheck := hrel.check_eq_ok (List.forall_mem_singleton.mpr hname)
  have hmade := Group.compare_agrees (.constraint allowed name) (.constraint .all name) rfl
    (Group.inStep_empty allowed) .and name (.known .equal) rfl hname hvalue
  rw [set_on, set_on, hcheck.1, hcheck.2, hrel.guarded.allowed_eq, hrel.free.allowed_eq]
  dsimp only
  rw [← hmade.result_eq]
  have hstored := hrel.store_agrees (Constraint.guarded_empty hname)
    (Constraint.guarded_empty (AllowList.allows_all name)) rfl hmade
  cases hresult : ((Group.compare (.constraint allowed name) .and name (.known .equal) value).on
    {}).result with
  | error reason => exact ⟨⟨rfl, hrel⟩, hmade.permitted_of_error hresult⟩
  | ok _ => exact ⟨⟨rfl, hstored.related⟩, permitted_ok⟩

theorem setConstraint_agrees (hrel : InStep allowed f f') {name : String} {c : Constraint}
    (hname : allowed.allows name) (hmentions : ∀ x ∈ c.group.mentions, allowed.allows x) :
    ((setConstraint name c).on f).Agrees (InStep allowed) ((setConstraint name c).on f') := by
  have hcheck := hrel.check_eq_ok (List.forall_mem_singleton.mpr hname)
  have hgroup := hrel.check_eq_ok hmentions
  rw [setConstraint_on, setConstraint_on, hcheck.1, hcheck.2, hgroup.1, hgroup.2]
  split
  · next heq =>
      refine ⟨⟨rfl, hrel.store ⟨hrel.guarded.allowed_eq, heq ▸ hname, hmentions⟩
        ⟨hrel.free.allowed_eq, rfl, fun _ _ => rfl⟩ rfl⟩, permitted_ok⟩
  · exact ⟨⟨rfl, hrel⟩, nofun⟩

end InStep

end Filter

end WhereClause

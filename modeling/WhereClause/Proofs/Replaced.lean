/-
WhereClause/Proofs/Replaced.lean

A mapping may as well be applied before.

A plan is made under a mapping, which renames fields and replaces values while the
comparisons are turned into calls.  `Node.replaced` does the same to the node itself: every
field of every comparison gets its new name, and every value on the other side of a field
gives way to what is put in its place for the name that the field had (`Comparison.replaced`).
Nothing else of the node is touched.

`Comparison.call_replaced` is where the two ways meet.  The rest is that a plan looks at
comparisons through their calls only (`Formula.itemsWithin_mapTests`), since neither what is
empty nor what stands at the top depends on them.
-/
import WhereClause.Config
import WhereClause.Plan
import WhereClause.Proofs.Beneath

namespace WhereClause

/-! ### Comparisons with other fields and values -/

/-- The operand with fields renamed by `f`, and with a value replaced by `g` if it faces a
field. -/
def Operand.replaced (f : String → String) (g : String → Literal → Literal)
    (opposite : Option Operand) : Operand → Operand
  | .field name => .field (f name)
  | .value literal =>
      match opposite with
      | some (.field name) => .value (g name literal)
      | _ => .value literal

/-- The comparison with fields renamed by `f` and with values that face a field replaced
by `g`. -/
def Comparison.replaced (f : String → String) (g : String → Literal → Literal) (c : Comparison) :
    Comparison where
  left := c.left.replaced f g c.right
  operator := c.operator
  right := c.right.map (Operand.replaced f g (some c.left))
  right_eq_none h := by rw [c.right_eq_none h, Option.map_none]

namespace Mapping

/-- The new name of a field, which is the old one if there is no renaming. -/
def newName (m : Mapping) : String → String :=
  m.rename.getD id

/-- What becomes of a value that is compared with a field; nothing does if no values are
replaced. -/
def newValue (m : Mapping) : String → Literal → Literal :=
  m.replace.getD fun _ literal => literal

/-- A mapping that leaves every operand as it is. -/
def Idle (m : Mapping) : Prop :=
  ∀ opposite operand, m.operand opposite operand = operand

theorem idle_empty : Idle {} := by
  rintro opposite (name | literal) <;> rfl

theorem operand_eq_replaced (m : Mapping) (opposite : Option Operand) (operand : Operand) :
    m.operand (opposite.bind Operand.field?) operand =
      operand.replaced m.newName m.newValue opposite := by
  obtain ⟨rename, replace⟩ := m
  rcases operand with name | literal
  · rfl
  · rcases replace with - | replace
    · rcases opposite with - | (_ | _) <;> rfl
    · rcases opposite with - | (_ | _) <;> rfl

end Mapping

namespace Comparison

/-- A comparison is called under a mapping as it is called once the mapping is applied. -/
theorem call_replaced (m : Mapping) {idle : Mapping} (hidle : idle.Idle) (c : Comparison) :
    (c.replaced m.newName m.newValue).call idle = c.call m := by
  have hleft : idle.left (c.replaced m.newName m.newValue) = m.left c := by
    rw [Mapping.left, hidle, Mapping.left, Mapping.operand_eq_replaced]
    rfl
  have hright : idle.right (c.replaced m.newName m.newValue) = m.right c := by
    have hsame : idle.operand (c.replaced m.newName m.newValue).left.field? = id :=
      funext (hidle _)
    have hmap : m.operand c.left.field? = Operand.replaced m.newName m.newValue (some c.left) :=
      funext (m.operand_eq_replaced (some c.left))
    rw [Mapping.right, Mapping.right, hsame, hmap, Option.map_id]
    rfl
  rw [call, call, hleft, hright]
  rfl

/-- Every field of a comparison is renamed, and renamed once. -/
theorem fields_replaced (f : String → String) (g : String → Literal → Literal) (c : Comparison) :
    (c.replaced f g).fields = c.fields.map f := by
  have hfield : ∀ opposite operand, (Operand.replaced f g opposite operand).field? =
      operand.field?.map f := by
    rintro opposite (name | literal)
    · rfl
    · rcases opposite with - | (_ | _) <;> rfl
  rcases c with ⟨left, operator, - | right, hright⟩
  · simp [fields, replaced, hfield, Option.toList_map]
  · simp [fields, replaced, hfield, Option.toList_map]

/-- Values may be replaced first, by the names that the fields have then, and fields be renamed
afterwards. -/
theorem replaced_replaced (f : String → String) (g : String → Literal → Literal) (c : Comparison) :
    (c.replaced id g).replaced f (fun _ literal => literal) = c.replaced f g := by
  have hoperand : ∀ opposite opposite' (operand : Operand),
      (operand.replaced id g opposite').replaced f (fun _ literal => literal) opposite =
        operand.replaced f g opposite' := by
    rintro opposite opposite' (name | literal)
    · rfl
    · rcases opposite with - | (_ | _) <;> rcases opposite' with - | (_ | _) <;> rfl
  rcases c with ⟨left, operator, - | right, hright⟩
  · simp [replaced, hoperand]
  · simp [replaced, hoperand]

end Comparison

/-! ### Nodes with other comparisons -/

mutual

/-- A node with other comparisons in the same places. -/
def Node.mapTests (r : Comparison → Comparison) : Node → Node
  | .test c => .test (r c)
  | .group g => .group (g.mapTests r)
  | .filter f => .filter (f.mapTests r)

/-- A group with other comparisons in the same places. -/
def Group.mapTests (r : Comparison → Comparison) : Group → Group
  | ⟨connector, members⟩ => ⟨connector, membersMapTests r members⟩

/-- Members with other comparisons in the same places. -/
def membersMapTests (r : Comparison → Comparison) : List Node → List Node
  | [] => []
  | node :: rest => node.mapTests r :: membersMapTests r rest

/-- A filter with other comparisons in the same places. -/
def Filter.mapTests (r : Comparison → Comparison) : Filter → Filter
  | ⟨allowed, constraints, condition⟩ =>
      ⟨allowed, constraintsMapTests r constraints, condition.mapTests r⟩

/-- Constraints with other comparisons in the same places. -/
def constraintsMapTests (r : Comparison → Comparison) : List Constraint → List Constraint
  | [] => []
  | ⟨name, group, allowed⟩ :: rest =>
      ⟨name, group.mapTests r, allowed⟩ :: constraintsMapTests r rest

end

/-- The node with fields renamed by `f` and with values that face a field replaced by `g`. -/
def Node.replaced (f : String → String) (g : String → Literal → Literal) (n : Node) : Node :=
  n.mapTests (Comparison.replaced f g)

mutual

/-- A formula with other comparisons in the same places. -/
def Formula.mapTests (r : Comparison → Comparison) : Formula → Formula
  | .test c => .test (r c)
  | .join connector parts => .join connector (partsMapTests r parts)

/-- Formulas with other comparisons in the same places. -/
def partsMapTests (r : Comparison → Comparison) : List Formula → List Formula
  | [] => []
  | part :: rest => part.mapTests r :: partsMapTests r rest

end

/-! ### Items with other calls -/

mutual

/-- An item with other calls in the same places. -/
def Item.mapCalls (o : Call → Call) : Item → Item
  | .call connector call => .call connector (o call)
  | .scope connector body => .scope connector (itemsMapCalls o body)
  | .refuse reason => .refuse reason

/-- Items with other calls in the same places. -/
def itemsMapCalls (o : Call → Call) : List Item → List Item
  | [] => []
  | item :: rest => item.mapCalls o :: itemsMapCalls o rest

end

theorem itemsMapCalls_append (o : Call → Call) (items items' : List Item) :
    itemsMapCalls o (items ++ items') = itemsMapCalls o items ++ itemsMapCalls o items' := by
  induction items with
  | nil => rfl
  | cons item rest ih => rw [List.cons_append, itemsMapCalls, ih, itemsMapCalls, List.cons_append]

mutual

theorem Item.mapCalls_id : ∀ item : Item, item.mapCalls id = item
  | .call _ _ => rfl
  | .scope connector body => congrArg (Item.scope connector) (itemsMapCalls_id body)
  | .refuse _ => rfl

theorem itemsMapCalls_id : ∀ items : List Item, itemsMapCalls id items = items
  | [] => rfl
  | item :: rest => by rw [itemsMapCalls, item.mapCalls_id, itemsMapCalls_id rest]

end

/-- Comparisons that are called alike are alike as items. -/
theorem Comparison.item_mapCalls {c c' : Comparison} {m m' : Mapping} {o : Call → Call}
    (h : (c'.call m').map o = (c.call m).map o) (k : Connector) :
    (c'.item m' k).mapCalls o = (c.item m k).mapCalls o := by
  rw [item, item]
  generalize c'.call m' = made' at h ⊢
  generalize c.call m = made at h ⊢
  rcases made with reason | call
  · rcases made' with reason' | call'
    · cases h
      rfl
    · cases h
  · rcases made' with reason' | call'
    · cases h
    · exact congrArg (Item.call k) (Except.ok.inj h)

section MapTests

variable (r : Comparison → Comparison)

theorem membersMapTests_eq_map (members : List Node) :
    membersMapTests r members = members.map (Node.mapTests r) := by
  induction members with
  | nil => rfl
  | cons node rest ih => simp [membersMapTests, ih]

theorem constraintsMapTests_eq_map (constraints : List Constraint) :
    constraintsMapTests r constraints =
      constraints.map fun c => { c with group := c.group.mapTests r } := by
  induction constraints with
  | nil => rfl
  | cons c rest ih =>
      obtain ⟨name, group, allowed⟩ := c
      simp [constraintsMapTests, ih]

theorem partsMapTests_eq_map (parts : List Formula) :
    partsMapTests r parts = parts.map (Formula.mapTests r) := by
  induction parts with
  | nil => rfl
  | cons part rest ih => simp [partsMapTests, ih]

/-- The formula of a node with other comparisons is the formula with these comparisons. -/
theorem Node.formula_mapTests (n : Node) : (n.mapTests r).formula = n.formula.mapTests r := by
  induction n using Node.induct with
  | test c => rfl
  | group connector members ih =>
      simp only [mapTests, Group.mapTests, formula, Group.formula_eq, Formula.mapTests,
        membersMapTests_eq_map, partsMapTests_eq_map, List.map_map]
      congr 1
      exact List.map_congr_left ih
  | filter allowed constraints condition ihConstraints ihCondition =>
      have hconstraints : constraints.map (fun c => (c.group.mapTests r).formula) =
          constraints.map fun c => c.group.formula.mapTests r :=
        List.map_congr_left ihConstraints
      have hcondition : (condition.mapTests r).formula = condition.formula.mapTests r := ihCondition
      simp only [mapTests, Filter.mapTests, formula, Filter.formula_eq, Formula.mapTests,
        constraintsMapTests_eq_map, partsMapTests_eq_map, List.map_append, List.map_map,
        List.map_cons, List.map_nil, hcondition]
      congr 2

/-- The comparisons of a node are exchanged one for one. -/
theorem Node.comparisons_mapTests (n : Node) :
    (n.mapTests r).comparisons = n.comparisons.map r := by
  induction n using Node.induct with
  | test c => rfl
  | group connector members ih =>
      simp only [mapTests, Group.mapTests, comparisons, Group.comparisons,
        membersComparisons_eq_flatMap, membersMapTests_eq_map, List.flatMap_map, List.map_flatMap]
      exact List.flatMap_congr ih
  | filter allowed constraints condition ihConstraints ihCondition =>
      have hcondition : (condition.mapTests r).comparisons = condition.comparisons.map r :=
        ihCondition
      simp only [mapTests, Filter.mapTests, comparisons, Filter.comparisons,
        constraintsComparisons_eq_flatMap, constraintsMapTests_eq_map, List.flatMap_map,
        List.map_append, List.map_flatMap, hcondition]
      congr 1
      exact List.flatMap_congr ihConstraints

/-- Comparisons that are exchanged twice may be exchanged at once. -/
theorem Node.mapTests_mapTests (q : Comparison → Comparison) (n : Node) :
    (n.mapTests r).mapTests q = n.mapTests fun c => q (r c) := by
  induction n using Node.induct with
  | test c => rfl
  | group connector members ih =>
      simp only [mapTests, Group.mapTests, membersMapTests_eq_map, List.map_map]
      congr 2
      exact List.map_congr_left ih
  | filter allowed constraints condition ihConstraints ihCondition =>
      have hconstraints : ∀ c ∈ constraints,
          (c.group.mapTests r).mapTests q = c.group.mapTests fun c => q (r c) :=
        fun c hc => Node.group.inj (ihConstraints c hc)
      have hcondition := Node.group.inj ihCondition
      simp only [mapTests, Filter.mapTests, constraintsMapTests_eq_map, List.map_map, hcondition]
      congr 2
      refine List.map_congr_left fun c hc => ?_
      simp only [Function.comp_apply, hconstraints c hc]

namespace Formula

mutual

theorem isEmpty_mapTests : ∀ f : Formula, (f.mapTests r).isEmpty = f.isEmpty
  | .test _ => rfl
  | .join _ parts => allEmpty_mapTests parts

theorem allEmpty_mapTests : ∀ parts : List Formula,
    allEmpty (partsMapTests r parts) = allEmpty parts
  | [] => rfl
  | part :: rest => by
      rw [partsMapTests, allEmpty, allEmpty, isEmpty_mapTests part, allEmpty_mapTests rest]

end

theorem terms_mapTests (parts : List Formula) : terms (partsMapTests r parts) = terms parts := by
  rw [terms, terms, partsMapTests_eq_map, List.countP_map]
  exact List.countP_congr fun part _ => by simp [isEmpty_mapTests]

mutual

theorem outer_mapTests : ∀ f : Formula, (f.mapTests r).outer = f.outer
  | .test _ => rfl
  | .join connector parts => by
      rw [mapTests, outer, outer, terms_mapTests, outerOfFirst_mapTests parts]

theorem outerOfFirst_mapTests : ∀ parts : List Formula,
    outerOfFirst (partsMapTests r parts) = outerOfFirst parts
  | [] => rfl
  | part :: rest => by
      rw [partsMapTests, outerOfFirst, outerOfFirst, isEmpty_mapTests, outer_mapTests part,
        outerOfFirst_mapTests rest]

end

section Items

variable {r} {m m' : Mapping}

mutual

/-- A formula is planned as the formula with other comparisons, as far as these are called
alike. -/
theorem itemsWithin_mapTests {o : Call → Call}
    (hcall : ∀ c, ((r c).call m').map o = (c.call m).map o) :
    ∀ (f : Formula) (around lead : Connector),
      itemsMapCalls o ((f.mapTests r).itemsWithin m' around lead) =
        itemsMapCalls o (f.itemsWithin m around lead)
  | .test c, around, lead => congrArg (fun item => [item]) (Comparison.item_mapCalls (hcall c) lead)
  | .join connector parts, around, lead => by
      have hparts := termItems_mapTests hcall parts
      simp only [mapTests, itemsWithin, terms_mapTests]
      split
      · cases connector with
        | none => rfl
        | some connector => exact hparts connector lead
      · exact hparts around lead

theorem termItems_mapTests {o : Call → Call}
    (hcall : ∀ c, ((r c).call m').map o = (c.call m).map o) :
    ∀ (parts : List Formula) (around lead : Connector),
      itemsMapCalls o (termItems m' around lead (partsMapTests r parts)) =
        itemsMapCalls o (termItems m around lead parts)
  | [], around, lead => rfl
  | part :: rest, around, lead => by
      have hpart := itemsWithin_mapTests hcall part (part.outer.getD around) lead
      rw [partsMapTests, termItems, termItems, isEmpty_mapTests, outer_mapTests]
      split
      · exact termItems_mapTests hcall rest around lead
      · rw [itemsMapCalls_append, itemsMapCalls_append, termItems_mapTests hcall rest]
        congr 1
        split
        · exact congrArg (fun body => [Item.scope lead body]) hpart
        · exact hpart

end

theorem mapCalls_items_mapTests {o : Call → Call}
    (hcall : ∀ c, ((r c).call m').map o = (c.call m).map o) (f : Formula) :
    itemsMapCalls o ((f.mapTests r).items m') = itemsMapCalls o (f.items m) := by
  rw [items, items, outer_mapTests, itemsWithin_mapTests hcall]

theorem items_mapTests (hcall : ∀ c, (r c).call m' = c.call m) (f : Formula) :
    (f.mapTests r).items m' = f.items m := by
  have hitems := mapCalls_items_mapTests (fun c => congrArg (Except.map id) (hcall c)) f
  rwa [itemsMapCalls_id, itemsMapCalls_id] at hitems

end Items

end Formula

end MapTests

/-! ### Plans and statements -/

/-- A node is planned under a mapping as it is planned once the mapping is applied. -/
theorem Node.items_replaced (n : Node) (m : Mapping) {idle : Mapping} (hidle : idle.Idle) :
    (n.replaced m.newName m.newValue).formula.items idle = n.formula.items m := by
  rw [replaced, Node.formula_mapTests]
  exact Formula.items_mapTests (Comparison.call_replaced m hidle) n.formula

/-- Without other columns a configuration has no use for a mapping. -/
theorem Config.idle_mapping {config : Config} (h : config.columns = Table.empty) :
    config.mapping.Idle := by
  have hname : ∀ field, config.columnName field = field := by
    intro field
    rw [columnName, h]
    rfl
  rintro opposite (name | literal)
  · exact congrArg Operand.field (hname name)
  · rfl

/-- The statement for a node is that for the node with its fields renamed, made without
other columns. -/
theorem Config.compile_replaced (config : Config) (n : Node) :
    { config with columns := Table.empty }.compile
        (n.replaced config.columnName fun _ literal => literal).formula =
      config.compile n.formula := by
  -- a configuration renames to its columns, and replaces nothing
  have hname : config.mapping.newName = config.columnName := rfl
  have hvalue : config.mapping.newValue = fun _ literal => literal := rfl
  have hitems := n.items_replaced config.mapping
    (idle_mapping (rfl : { config with columns := Table.empty }.columns = Table.empty))
  rw [hname, hvalue] at hitems
  rw [compile, compile, select, select, hitems]

/-- Values may be replaced first, by the names that the fields have then, and fields be renamed
afterwards. -/
theorem Node.replaced_replaced (f : String → String) (g : String → Literal → Literal) (n : Node) :
    (n.replaced id g).replaced f (fun _ literal => literal) = n.replaced f g := by
  rw [replaced, replaced, mapTests_mapTests, replaced]
  exact congrArg n.mapTests (funext (Comparison.replaced_replaced f g))

/-- Every field of every comparison is renamed, and renamed once. -/
theorem Node.fields_replaced (f : String → String) (g : String → Literal → Literal) (n : Node) :
    (n.replaced f g).comparisons.flatMap Comparison.fields =
      (n.comparisons.flatMap Comparison.fields).map f := by
  rw [replaced, comparisons_mapTests, List.flatMap_map, List.map_flatMap]
  exact List.flatMap_congr fun c _ => c.fields_replaced f g

/-- Mapping commutes with planning.  What a node asks of a query under a mapping is what the
node asks without one after the mapping was applied to it, the refusal that ends it included.
Every field has been renamed once then, and every value that was replaced was replaced by the
name that the field had before.  With columns for the renaming, the statement is the same
too, or refused alike. -/
theorem mapping_commutes (n : Node) (m : Mapping) (config : Config) :
    n.formula.items m = (n.replaced m.newName m.newValue).formula.items {} ∧
      n.formula.record m = (n.replaced m.newName m.newValue).formula.record {} ∧
      (n.replaced m.newName m.newValue).comparisons.flatMap Comparison.fields =
        (n.comparisons.flatMap Comparison.fields).map m.newName ∧
      n.formula.items m = (n.replaced id m.newValue).formula.items { rename := m.rename } ∧
      config.compile n.formula =
        { config with columns := Table.empty }.compile
          (n.replaced config.columnName fun _ literal => literal).formula := by
  have hitems := n.items_replaced m Mapping.idle_empty
  refine ⟨hitems.symm, congrArg recordItems hitems.symm, n.fields_replaced _ _, ?_,
    (config.compile_replaced n).symm⟩
  -- the renaming alone is applied to the node with its values replaced
  have hrename := (n.replaced id m.newValue).items_replaced { rename := m.rename }
    Mapping.idle_empty
  rw [← hrename, ← hitems, ← n.replaced_replaced m.newName]
  rfl

/-- A table that sends `a` to `b` and `b` to `c` sends `a` to `b` only. -/
example :
    let config : Config := { columns := Table.ofList [("a", "b"), ("b", "c")] }
    (Comparison.on "a" .equal (.field "b")).replaced config.columnName (fun _ literal => literal)
      |>.fields = ["b", "c"] := by
  decide

end WhereClause

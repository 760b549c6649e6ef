/-
WhereClause/Proofs/Alternation.lean

The shape of a plan.

In every scope of a plan all items after the first carry one connector, the one
that joins the scope.  The items of a nested scope are joined by the opposite
connector, there are at least two of them, and the first of them repeats the
connector with which the scope was opened.  A scope is never alone in the scope
around it.  `alternating_items` states this for the plan of any node.

Nothing checks this shape when a plan is made.  It rests on `Formula.outer`, which
has to foresee the connector under which the items of a part will stand.  The
invariant `LaidOut` relates the two: it says how many items there are, and of
which kind, by the outer connector of a join of the parts.
-/
import WhereClause.Proofs.Planned

namespace WhereClause

/-! ### Connectors -/

/-- The opposite connector. -/
def Connector.other : Connector → Connector
  | and => or
  | or => and

theorem Connector.eq_other_of_ne {k l : Connector} (h : k ≠ l) : k = l.other := by
  cases k <;> cases l <;> first | rfl | exact absurd rfl h

theorem Connector.ne_other (k : Connector) : k ≠ k.other := by
  cases k <;> exact nofun

/-- The connector of an item. -/
def Item.connector? : Item → Option Connector
  | .call k _ => some k
  | .scope k _ => some k
  | .refuse _ => none

/-- Whether an item is a nested scope. -/
def Item.isScope : Item → Bool
  | .scope _ _ => true
  | _ => false

/-! ### The shape of a scope -/

/-- The first of some items carries `lead`, and all others carry `around`. -/
def TiedBy (around lead : Connector) : List Item → Prop
  | [] => True
  | item :: rest =>
      item.connector? = some lead ∧ ∀ item ∈ rest, item.connector? = some around

/-- An item of a scope joined by `around`: a call, or a nested scope of two items
or more, which are joined by the opposite connector and are of this kind
themselves. -/
inductive Item.Alternates : Connector → Item → Prop
  | call {around k c} : Alternates around (.call k c)
  | scope {around k body} : 2 ≤ body.length → TiedBy around.other k body →
      (∀ item ∈ body, Alternates around.other item) → Alternates around (.scope k body)

/-- The items of a plan, joined by `around` at the root. -/
structure Alternating (around : Connector) (items : List Item) : Prop where
  tiedBy : TiedBy around .and items
  alternates : ∀ item ∈ items, item.Alternates around
  two_le_of_scope : ∀ item ∈ items, item.isScope = true → 2 ≤ items.length

theorem tiedBy_self_iff {around : Connector} {items : List Item} :
    TiedBy around around items ↔ ∀ item ∈ items, item.connector? = some around := by
  rcases items with - | ⟨item, rest⟩ <;> simp [TiedBy]

theorem TiedBy.append {around lead : Connector} {items items' : List Item} (hne : items ≠ [])
    (h : TiedBy around lead items) (h' : TiedBy around around items') :
    TiedBy around lead (items ++ items') := by
  rcases items with - | ⟨item, rest⟩
  · exact absurd rfl hne
  · obtain ⟨hlead, hrest⟩ := h
    refine ⟨hlead, ?_⟩
    intro item hitem
    rcases List.mem_append.mp hitem with hitem | hitem
    · exact hrest item hitem
    · exact tiedBy_self_iff.mp h' item hitem

/-! ### The shape of a plan -/

open Formula

/-- The shape of a plan for some parts among terms joined by `around`. -/
structure LaidOut (around lead : Connector) (parts : List Formula) (items : List Item) :
    Prop where
  tiedBy : TiedBy around lead items
  alternates : ∀ item ∈ items, item.Alternates around
  terms_le : terms parts ≤ items.length
  /-- Parts that are joined by `around` take two items or more. -/
  two_le : (join (some around) parts).outer = some around → 2 ≤ items.length
  /-- A scope is alone only if the parts are joined by the other connector. -/
  two_le_of_scope : (join (some around) parts).outer ≠ some around.other →
    ∀ item ∈ items, item.isScope = true → 2 ≤ items.length

/-- A part that says something comes before the rest. -/
theorem LaidOut.cons {around lead : Connector} {part : Formula} {rest : List Formula}
    {items items' : List Item} (hpart : part.isEmpty = false) (hne : items ≠ [])
    (htied : TiedBy around lead items) (halt : ∀ item ∈ items, item.Alternates around)
    (htwo : part.outer = some around → 2 ≤ items.length)
    (hscope : part.outer ≠ some around.other →
      ∀ item ∈ items, item.isScope = true → 2 ≤ items.length)
    (h : LaidOut around around rest items') :
    LaidOut around lead (part :: rest) (items ++ items') := by
  have hone : 1 ≤ items.length := List.length_pos_of_ne_nil hne
  have hterms := h.terms_le
  constructor
  · exact htied.append hne h.tiedBy
  · intro item hitem
    exact (List.mem_append.mp hitem).elim (halt item) (h.alternates item)
  · rw [terms_cons_of_not_isEmpty hpart, List.length_append]
    omega
  · intro houter
    rw [List.length_append]
    exact two_le_of_outer_cons hpart hone hterms htwo houter
  · intro houter item hitem hisScope
    rw [List.length_append]
    rcases List.mem_append.mp hitem with hitem | hitem
    · rcases hrest : allEmpty rest with - | -
      · have := one_le_terms_iff.mpr hrest
        omega
      · rw [outer_join_cons_of_allEmpty hpart hrest] at houter
        have := hscope houter item hitem hisScope
        omega
    · have := List.length_pos_of_mem hitem
      omega

/-- A plan is laid out in alternating scopes. -/
theorem Planned.laidOut {m : Mapping} {around lead : Connector} {parts : List Formula}
    {items : List Item} (h : Planned m around lead parts items) :
    LaidOut around lead parts items := by
  induction h with
  | nil =>
      constructor
      · trivial
      · intro item hitem
        cases hitem
      · exact Nat.le_refl 0
      · intro houter
        cases houter
      · intro _ item hitem
        cases hitem
  | absent hempty _ ih =>
      obtain ⟨htied, halt, hterms, htwo, hscope⟩ := ih
      rw [← outer_join_cons_of_isEmpty hempty] at htwo hscope
      rw [← terms_cons_of_isEmpty hempty] at hterms
      exact ⟨htied, halt, hterms, htwo, hscope⟩
  | @call around lead c call rest items _ _ ih =>
      show LaidOut around lead _ ([.call lead call] ++ items)
      refine ih.cons rfl (List.cons_ne_nil _ _) ?_ ?_ ?_ ?_
      · simp [TiedBy, Item.connector?]
      · simpa using Item.Alternates.call
      · intro houter
        cases houter
      · simp [Item.isScope]
  | @inPlace around lead connector parts rest items items' hempty hneeds hconnector _ _ ih ih' =>
      have houter := outer_join_congr hconnector
      have hne : items ≠ [] := by
        have := one_le_terms_iff.mpr hempty
        have := ih.terms_le
        exact List.ne_nil_of_length_pos (by omega)
      refine ih'.cons hempty hne ih.tiedBy ih.alternates ?_ ?_
      · exact fun h => ih.two_le (houter ▸ h)
      · exact fun h => ih.two_le_of_scope (houter ▸ h)
  | @apart around lead connector parts k rest items items' hempty houter hk _ _ ih ih' =>
      have hconnector := connector_eq_of_outer_eq houter
      -- there are two connectors only, so the scope is joined by the opposite one
      obtain rfl := Connector.eq_other_of_ne hk
      have htwo := ih.two_le ((outer_join_congr hconnector).symm.trans houter)
      show LaidOut around lead _ ([.scope lead items] ++ items')
      refine ih'.cons hempty (List.cons_ne_nil _ _) ?_ ?_ ?_ ?_
      · simp [TiedBy, Item.connector?]
      · simpa using Item.Alternates.scope htwo ih.tiedBy ih.alternates
      · intro h
        exact absurd (Option.some.inj (houter.symm.trans h)) hk
      · intro h
        exact absurd houter h

/-- What is asked of a query for a node, call by call and scope by scope, is in
alternating form. -/
theorem alternating_items (n : Node) (m : Mapping) (h : (n.formula.record m).refusal = none) :
    ∃ around, Alternating around (n.formula.items m) := by
  have hlaid := (planned_items h).laidOut
  refine ⟨n.formula.outer.getD .and, hlaid.tiedBy, hlaid.alternates, hlaid.two_le_of_scope ?_⟩
  rcases hempty : n.formula.isEmpty with - | -
  · rw [outer_join_cons_of_allEmpty hempty rfl]
    rcases n.formula.outer with - | k
    · exact nofun
    · exact fun hk => Connector.ne_other k (Option.some.inj hk)
  · rw [outer_join_cons_of_isEmpty hempty]
    exact nofun

theorem alternating_items_mixedFilter :
    ((Node.filter mixedFilter).formula.record {}).refusal = none ∧
      ∃ around, Alternating around ((Node.filter mixedFilter).formula.items {}) :=
  ⟨rfl, alternating_items (.filter mixedFilter) {} rfl⟩

end WhereClause

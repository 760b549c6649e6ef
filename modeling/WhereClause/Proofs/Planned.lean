/-
WhereClause/Proofs/Planned.lean

What a plan looks like if nothing in it is refused.

`Planned m around lead parts items` says that `items` is a plan for the terms of
`parts`, among terms joined by `around`, with `lead` as the connector of the
first item.  It has one rule for each way in which a part can turn up in a plan:

* a part that says nothing does not turn up at all,
* a comparison becomes a call,
* a join goes in place if its outer connector agrees with the one around it,
* a join with another outer connector gets a scope of its own.

`planned_termItems` derives this from a reading of the items that was not
refused, and `planned_items` does so for a whole formula.  What holds of every
plan is proved by induction on `Planned` from there on; nothing else has to look
into the two functions that make a plan.
-/
import WhereClause.Plan
import WhereClause.Proofs.Beneath
import WhereClause.Proofs.Outer

namespace WhereClause

/-! ### Records of several items -/

namespace Record

theorem append_refusal_eq_none_iff {r s : Record} :
    (r.append s).refusal = none ↔ r.refusal = none ∧ s.refusal = none := by
  obtain ⟨events, refusal⟩ := r
  rcases refusal with - | reason <;> simp [append]

theorem events_append {r s : Record} (h : r.refusal = none) :
    (r.append s).events = r.events ++ s.events := by
  simp [append, h]

theorem append_assoc (r s t : Record) : (r.append s).append t = r.append (s.append t) := by
  obtain ⟨events, refusal⟩ := r
  rcases refusal with - | reason
  · obtain ⟨events', refusal'⟩ := s
    rcases refusal' with - | reason' <;> simp [append]
  · rfl

end Record

theorem recordItems_append (items items' : List Item) :
    recordItems (items ++ items') = (recordItems items).append (recordItems items') := by
  induction items with
  | nil => rfl
  | cons item rest ih => simp only [List.cons_append, recordItems, ih, Record.append_assoc]

theorem recordItems_singleton (item : Item) : recordItems [item] = item.record := by
  rcases h : item.record with ⟨events, reason⟩
  rcases reason with - | reason <;> simp [recordItems, Record.append, h]

/-! ### Plans in which nothing is refused -/

open Formula

variable {m : Mapping}

/-- A plan for the terms of some parts, among terms joined by `around`. -/
inductive Planned (m : Mapping) : Connector → Connector → List Formula → List Item → Prop
  | nil {around lead} : Planned m around lead [] []
  | absent {around lead part rest items} :
      part.isEmpty = true → Planned m around lead rest items →
        Planned m around lead (part :: rest) items
  | call {around lead c call rest items} :
      c.call m = .ok call → Planned m around around rest items →
        Planned m around lead (.test c :: rest) (.call lead call :: items)
  | inPlace {around lead connector parts rest items items'} :
      (join connector parts).isEmpty = false →
        needsScope (join connector parts).outer around = false →
        (2 ≤ terms parts → connector = some around) → Planned m around lead parts items →
        Planned m around around rest items' →
        Planned m around lead (.join connector parts :: rest) (items ++ items')
  | apart {around lead connector parts k rest items items'} :
      (join connector parts).isEmpty = false →
        (join connector parts).outer = some k → k ≠ around →
        Planned m k lead parts items → Planned m around around rest items' →
        Planned m around lead (.join connector parts :: rest) (.scope lead items :: items')

theorem itemsWithin_join_of_lt_two {around lead : Connector} {connector : Option Connector}
    {parts : List Formula} (h : terms parts < 2) :
    (join connector parts).itemsWithin m around lead = termItems m around lead parts := by
  simp [itemsWithin, Nat.not_le.mpr h]

/-- A join among terms that are joined as its own hands its terms on. -/
theorem itemsWithin_join_self {k lead : Connector} {parts : List Formula} :
    (join (some k) parts).itemsWithin m k lead = termItems m k lead parts := by
  by_cases hterms : 2 ≤ terms parts <;> simp [itemsWithin, hterms]

/-- The items of a join of which none is refused are those of its terms, under the
connector at its top.  If it joins several terms then this is its own. -/
theorem itemsWithin_join_of_refusal_eq_none {around lead : Connector}
    {connector : Option Connector} {parts : List Formula} {k : Connector}
    (hk : (join connector parts).outer.getD around = k)
    (h : (recordItems ((join connector parts).itemsWithin m k lead)).refusal = none) :
    (join connector parts).itemsWithin m k lead = termItems m k lead parts ∧
      (2 ≤ terms parts → connector = some k) := by
  by_cases hterms : 2 ≤ terms parts
  · rw [outer_join_of_two_le hterms] at hk
    -- several terms without a connector would have been refused
    rcases connector with - | l
    · simp [itemsWithin, hterms, recordItems, Item.record, Record.append] at h
    · obtain rfl : l = k := hk
      exact ⟨itemsWithin_join_self, fun _ => rfl⟩
  · exact ⟨itemsWithin_join_of_lt_two (by omega), fun h => absurd h hterms⟩

/-- Items of terms of which none is refused are a plan. -/
theorem planned_termItems {around lead : Connector} {parts : List Formula}
    (h : (recordItems (termItems m around lead parts)).refusal = none) :
    Planned m around lead parts (termItems m around lead parts) := by
  induction parts using parts_induct generalizing around lead with
  | nil =>
      simp only [termItems]
      exact .nil
  | test c rest ih =>
      simp only [termItems, isEmpty, outer, needsScope, itemsWithin, Comparison.item,
        Bool.false_eq_true, if_false] at h ⊢
      rw [recordItems_append, Record.append_refusal_eq_none_iff] at h
      obtain ⟨hcall, hrest⟩ := h
      rcases hc : c.call m with reason | call
      · simp [hc, recordItems_singleton, Item.record] at hcall
      · exact .call hc (ih hrest)
  | join connector parts rest ihParts ihRest =>
      rcases hempty : (join connector parts).isEmpty with - | -
      · simp only [termItems, hempty, Bool.false_eq_true, if_false] at h ⊢
        rw [recordItems_append, Record.append_refusal_eq_none_iff] at h
        obtain ⟨hjoin, hrest⟩ := h
        -- in place, the terms of the join are joined by the connector around it; in a scope
        -- of their own they are joined by the outer connector of the join
        rcases hscope : needsScope (join connector parts).outer around with - | -
        · simp only [hscope, Bool.false_eq_true, if_false] at hjoin ⊢
          have hk := getD_of_needsScope_eq_false hscope
          rw [hk] at hjoin ⊢
          obtain ⟨hitems, hconnector⟩ := itemsWithin_join_of_refusal_eq_none hk hjoin
          rw [hitems] at hjoin ⊢
          exact .inPlace hempty hscope hconnector (ihParts hjoin) (ihRest hrest)
        · obtain ⟨k, houter, hne⟩ := needsScope_eq_true_iff.mp hscope
          have hk : (join connector parts).outer.getD around = k := by rw [houter]; rfl
          simp only [hscope, if_true, hk] at hjoin ⊢
          rw [recordItems_singleton] at hjoin
          obtain ⟨hitems, -⟩ := itemsWithin_join_of_refusal_eq_none hk hjoin
          replace hjoin : (recordItems (termItems m k lead parts)).refusal = none := hitems ▸ hjoin
          rw [hitems]
          exact .apart hempty houter hne (ihParts hjoin) (ihRest hrest)
      · simp only [termItems, hempty, if_true] at h ⊢
        exact .absent hempty (ihRest h)

theorem termItems_of_allEmpty {around lead : Connector} {parts : List Formula}
    (h : allEmpty parts = true) : termItems m around lead parts = [] := by
  induction parts with
  | nil => rfl
  | cons part rest ih =>
      rw [allEmpty, Bool.and_eq_true] at h
      rw [termItems, if_pos h.1]
      exact ih h.2

/-- The items of a formula are those of a single term, under the connector at its
top. -/
theorem items_eq_termItems (f : Formula) :
    f.items m = termItems m (f.outer.getD .and) .and [f] := by
  rcases hempty : f.isEmpty with - | -
  · have hscope := needsScope_getD f.outer .and
    simp [items, termItems, hempty, hscope]
  · rcases f with c | ⟨connector, parts⟩
    · cases hempty
    · have hterms : terms parts = 0 := terms_eq_zero_iff.mpr hempty
      simp [items, itemsWithin, termItems, hempty, hterms, termItems_of_allEmpty hempty]

/-- The items of a formula of which none is refused are a plan. -/
theorem planned_items {f : Formula} (h : (f.record m).refusal = none) :
    Planned m (f.outer.getD .and) .and [f] (f.items m) := by
  rw [Formula.record, items_eq_termItems] at h
  rw [items_eq_termItems]
  exact planned_termItems h

/-- The filter `(s = 1 or s = 2) and (a = b or (c is null and d contain "x"))`, with
a constraint and a group in it that say nothing. -/
def mixedFilter : Filter where
  allowed := .all
  constraints :=
    [⟨"s", ⟨some .or, [.test (.on "s" .equal (.of (1 : Int64))),
        .test (.on "s" .equal (.of (2 : Int64)))]⟩, .all⟩,
      ⟨"t", {}, .all⟩]
  condition :=
    ⟨some .or, [.group {}, .test (.on "a" .equal (.field "b")),
      .filter ⟨.all, [⟨"c", ⟨none, [.test (.on "c" .isNull (.of (0 : Int64)))]⟩, .all⟩],
        ⟨none, [.group ⟨none, [.test (.on "d" .contains (.of "x"))]⟩]⟩⟩]⟩

/-! ### Reading a plan -/

theorem recordItems_call (k : Connector) (call : Call) (items : List Item) :
    recordItems (.call k call :: items) =
      ⟨.called k call :: (recordItems items).events, (recordItems items).refusal⟩ := rfl

theorem recordItems_scope (k : Connector) {body : List Item} (items : List Item)
    (h : (recordItems body).refusal = none) :
    recordItems (.scope k body :: items) =
      ⟨.opened k :: ((recordItems body).events ++ .closed :: (recordItems items).events),
        (recordItems items).refusal⟩ := by
  simp [recordItems, Item.record, Record.append, h]

/-- A plan is read to its end. -/
theorem Planned.refusal_eq_none {around lead : Connector} {parts : List Formula}
    {items : List Item} (h : Planned m around lead parts items) :
    (recordItems items).refusal = none := by
  induction h with
  | nil => rfl
  | absent _ _ ih => exact ih
  | call _ _ ih => rw [recordItems_call]; exact ih
  | inPlace _ _ _ _ _ ihParts ihRest =>
      rw [recordItems_append, Record.append_refusal_eq_none_iff]
      exact ⟨ihParts, ihRest⟩
  | apart _ _ _ _ _ ihParts ihRest => rw [recordItems_scope _ _ ihParts]; exact ihRest

/-- The events of two plans in a row. -/
theorem Planned.events_append {around lead : Connector} {parts : List Formula}
    {items : List Item} (h : Planned m around lead parts items) (items' : List Item) :
    (recordItems (items ++ items')).events =
      (recordItems items).events ++ (recordItems items').events := by
  rw [recordItems_append, Record.events_append h.refusal_eq_none]

end WhereClause

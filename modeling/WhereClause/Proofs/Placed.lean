/-
WhereClause/Proofs/Placed.lean

The items of a plan in the places of the comparisons.

Where no join lacks a connector, the items of a plan stand for the comparisons, one for
each and in their order, with scopes around some of them.  `Placed` says so; it has one
rule for the item of a comparison and one for a scope.  It says it of two plans at once,
that of a formula and that of the same formula with other comparisons in the same places
(`placed_items`).

Two readers go through the items of a plan: one notes what happens, the other one collects
clauses.  Each of them passes over what precedes the first refused comparison
(`Placed.passes`, `Placed.addItems_passes`) and ends there (`Placed.stops`,
`Placed.addItems_stops`).  In all four the induction is on `Placed`, and a scope either
holds the refused comparison or lies before it (`exists_split_of_append_eq`).
-/
import WhereClause.Proofs.Explained
import WhereClause.Proofs.Calls
import WhereClause.Proofs.Replaced
import WhereClause.Proofs.Usable

namespace WhereClause

open Formula

/-! ### Items in the places of comparisons -/

variable {m : Mapping} {r : Comparison → Comparison}

/-- Some items stand for some comparisons, and others stand in the same places for what
`r` puts there. -/
inductive Placed (m : Mapping) (r : Comparison → Comparison) :
    List Comparison → List Item → List Item → Prop
  | nil : Placed m r [] [] []
  | test {c comparisons k items items'} : Placed m r comparisons items items' →
      Placed m r (c :: comparisons) (c.item m k :: items) ((r c).item m k :: items')
  | scope {comparisons comparisons' k body body' items items'} :
      Placed m r comparisons body body' → Placed m r comparisons' items items' →
      Placed m r (comparisons ++ comparisons') (.scope k body :: items) (.scope k body' :: items')

section Placed

variable {comparisons comparisons' : List Comparison} {items items' others others' : List Item}

theorem Placed.append (h : Placed m r comparisons items others)
    (h' : Placed m r comparisons' items' others') :
    Placed m r (comparisons ++ comparisons') (items ++ items') (others ++ others') := by
  induction h with
  | nil => exact h'
  | test _ ih => exact .test ih
  | scope hbody _ _ ih =>
      rw [List.append_assoc]
      exact .scope hbody ih

/-- The items of a join that has its connector are those of its terms. -/
theorem exists_itemsWithin_join {connector : Option Connector} {parts : List Formula}
    (h : 2 ≤ terms parts → connector.isSome) (around : Connector) :
    ∃ k, ∀ lead, (join connector parts).itemsWithin m around lead = termItems m k lead parts ∧
      (join connector (partsMapTests r parts)).itemsWithin m around lead =
        termItems m k lead (partsMapTests r parts) := by
  by_cases hterms : 2 ≤ terms parts
  · obtain ⟨k, rfl⟩ := Option.isSome_iff_exists.mp (h hterms)
    refine ⟨k, fun lead => ⟨?_, ?_⟩⟩
    · simp [itemsWithin, hterms]
    · simp [itemsWithin, hterms, terms_mapTests]
  · refine ⟨around, fun lead => ⟨?_, ?_⟩⟩
    · simp [itemsWithin, hterms]
    · simp [itemsWithin, hterms, terms_mapTests]

/-- The items of a plan stand for the comparisons in it, if no join lacks a connector. -/
theorem placed_termItems {parts : List Formula} (h : ∀ part ∈ parts, part.Joined)
    (around lead : Connector) :
    Placed m r (partsComparisons parts) (termItems m around lead parts)
      (termItems m around lead (partsMapTests r parts)) := by
  induction parts using parts_induct generalizing around lead with
  | nil => exact .nil
  | test c rest ih =>
      -- a comparison is never set apart
      have hrest := ih (List.forall_mem_cons.mp h).2 around around
      simpa [termItems, partsMapTests, Formula.mapTests, isEmpty, outer, needsScope, itemsWithin,
        partsComparisons, comparisons] using hrest.test
  | join connector parts rest ihParts ihRest =>
      obtain ⟨hjoin, hjoinRest⟩ := List.forall_mem_cons.mp h
      cases hjoin with
      | join hconnector hparts =>
          rw [partsMapTests, termItems, termItems, isEmpty_mapTests, outer_mapTests,
            partsComparisons, Formula.comparisons]
          split
          · next hempty =>
              -- what says nothing has no comparisons and no items
              rw [allEmpty_iff_partsComparisons.mp hempty]
              exact ihRest hjoinRest around lead
          · obtain ⟨k, hk⟩ := exists_itemsWithin_join (m := m) (r := r) hconnector
              ((join connector parts).outer.getD around)
            obtain ⟨hitems, hitems'⟩ := hk lead
            have hplaced := ihParts hparts k lead
            refine Placed.append ?_ (ihRest hjoinRest around around)
            rw [Formula.mapTests, hitems, hitems']
            split
            · rw [← List.append_nil (partsComparisons parts)]
              exact .scope hplaced .nil
            · exact hplaced

/-- The items of a formula stand for the comparisons in it. -/
theorem placed_items {f : Formula} (h : f.Joined) :
    Placed m r f.comparisons (f.items m) ((f.mapTests r).items m) := by
  have hparts : ∀ part ∈ [f], part.Joined := List.forall_mem_singleton.mpr h
  have hplaced := placed_termItems (m := m) (r := r) hparts (f.outer.getD .and) .and
  rw [items_eq_termItems, items_eq_termItems, outer_mapTests]
  simpa [partsComparisons, partsMapTests] using hplaced

/-- Where nothing else is put in the place of a comparison, the plan is the same. -/
theorem Placed.items_eq (h : Placed m r comparisons items items')
    (hsame : ∀ c ∈ comparisons, r c = c) : items' = items := by
  induction h with
  | nil => rfl
  | test _ ih =>
      obtain ⟨hc, hrest⟩ := List.forall_mem_cons.mp hsame
      rw [hc, ih hrest]
  | scope _ _ ihBody ih =>
      rw [List.forall_mem_append] at hsame
      rw [ihBody hsame.1, ih hsame.2]

end Placed

/-! ### Where a list is cut -/

/-- The place of a member of two lists in a row is in the first list, or behind it. -/
theorem exists_split_of_append_eq {α : Type} {xs ys before after : List α} {a : α}
    (h : xs ++ ys = before ++ a :: after) :
    (∃ rest, xs = before ++ a :: rest) ∨
      ∃ rest, before = xs ++ rest ∧ ys = rest ++ a :: after := by
  rcases List.append_eq_append_iff.mp h with ⟨rest, hbefore, hys⟩ | ⟨rest, hxs, hrest⟩
  · exact .inr ⟨rest, hbefore, hys⟩
  · rcases rest with - | ⟨b, rest⟩
    · refine .inr ⟨[], ?_, hrest.symm⟩
      rw [hxs, List.append_nil, List.append_nil]
    · obtain ⟨rfl, -⟩ := List.cons.inj hrest
      exact .inl ⟨rest, hxs⟩

/-! ### Reading up to the first refusal -/

section Record

variable {comparisons before after : List Comparison} {items items' : List Item} {c : Comparison}
  {reason : Refusal}

theorem Comparison.item_of_ok {call : Call} (h : c.call m = .ok call) (k : Connector) :
    c.item m k = .call k call := by
  rw [Comparison.item, h]

theorem Comparison.item_of_error (h : c.call m = .error reason) (k : Connector) :
    c.item m k = .refuse reason := by
  rw [Comparison.item, h]

theorem recordItems_scope_of_refused (k : Connector) {body : List Item} (items : List Item)
    (h : (recordItems body).refusal = some reason) :
    recordItems (.scope k body :: items) =
      ⟨.opened k :: (recordItems body).events, some reason⟩ := by
  simp [recordItems, Item.record, Record.append, h]

/-- What is read of a plan in which no comparison is refused. -/
structure Passed (m : Mapping) (comparisons : List Comparison) (items : List Item) : Prop where
  refusal_eq : (recordItems items).refusal = none
  calls : List.Forall₂ (fun c call => c.call m = .ok call) comparisons (callsOf items)

theorem Placed.passes (h : Placed m r comparisons items items')
    (hall : ∀ c ∈ comparisons, ∃ call, c.call m = .ok call) : Passed m comparisons items := by
  induction h with
  | nil => exact ⟨rfl, .nil⟩
  | @test c _ k _ _ _ ih =>
      obtain ⟨⟨call, hcall⟩, hrest⟩ := List.forall_mem_cons.mp hall
      have hpassed := ih hrest
      rw [c.item_of_ok hcall]
      exact ⟨hpassed.refusal_eq, .cons hcall hpassed.calls⟩
  | @scope _ _ k body _ items _ _ _ ihBody ih =>
      rw [List.forall_mem_append] at hall
      have hbody := ihBody hall.1
      have hrest := ih hall.2
      have hscope := recordItems_scope k items hbody.refusal_eq
      refine ⟨?_, ?_⟩
      · rw [hscope]
        exact hrest.refusal_eq
      · rw [callsOf_scope k hbody.refusal_eq]
        exact List.rel_append hbody.calls hrest.calls

/-- What is read of a plan in which a comparison `c` is refused, after those of `before`.  If
only `c` has another one in its place, of those read so far, then the reading goes on with
the call of that one. -/
structure Stopped (m : Mapping) (r : Comparison → Comparison) (before : List Comparison)
    (c : Comparison) (reason : Refusal) (items items' : List Item) : Prop where
  refusal_eq : (recordItems items).refusal = some reason
  calls : List.Forall₂ (fun d call => d.call m = .ok call) before (callsOf items)
  mended : (∀ d ∈ before, r d = d) → ∀ call, (r c).call m = .ok call →
    ∃ k rest, (recordItems items').events = (recordItems items).events ++ .called k call :: rest

/-- The reading of a plan ends at the first comparison that is refused. -/
theorem Placed.stops (h : Placed m r comparisons items items')
    (hsplit : comparisons = before ++ c :: after)
    (hbefore : ∀ d ∈ before, ∃ call, d.call m = .ok call) (hc : c.call m = .error reason) :
    Stopped m r before c reason items items' := by
  induction h generalizing before after with
  | nil => cases before <;> cases hsplit
  | @test d comparisons k items items' hplaced ih =>
      rcases before with - | ⟨b, before⟩
      · -- the first comparison is the one that is refused
        obtain ⟨rfl, rfl⟩ := List.cons.inj hsplit
        rw [d.item_of_error hc]
        refine ⟨rfl, .nil, fun _ call hcall => ?_⟩
        rw [(r d).item_of_ok hcall]
        exact ⟨k, _, rfl⟩
      · obtain ⟨rfl, hrest⟩ := List.cons.inj hsplit
        obtain ⟨⟨call, hcall⟩, hbefore⟩ := List.forall_mem_cons.mp hbefore
        have hstopped := ih hrest hbefore
        rw [d.item_of_ok hcall]
        refine ⟨hstopped.refusal_eq, .cons hcall hstopped.calls, fun hsame mended hmended => ?_⟩
        obtain ⟨hd, hsame⟩ := List.forall_mem_cons.mp hsame
        obtain ⟨l, rest, hevents⟩ := hstopped.mended hsame mended hmended
        rw [hd, d.item_of_ok hcall, recordItems_call, recordItems_call, hevents]
        exact ⟨l, rest, rfl⟩
  | @scope comparisons comparisons' k body body' items items' hbody hitems ihBody ih =>
      rcases exists_split_of_append_eq hsplit with ⟨rest, hin⟩ | ⟨rest, hbehind, hin⟩
      · -- the refused comparison is in the scope, which is opened and stays open
        have hstopped := ihBody hin hbefore
        have hscope := recordItems_scope_of_refused k items hstopped.refusal_eq
        refine ⟨by rw [hscope], ?_, fun hsame mended hmended => ?_⟩
        · have hcalls : callsOf (.scope k body :: items) = callsOf body := by
            simp [callsOf, hscope, List.filterMap_cons, Event.call?]
          rw [hcalls]
          exact hstopped.calls
        · obtain ⟨l, rest, hevents⟩ := hstopped.mended hsame mended hmended
          rw [hscope]
          rcases hbody' : (recordItems body').refusal with - | reason'
          · rw [recordItems_scope k items' hbody', hevents]
            exact ⟨l, rest ++ .closed :: (recordItems items').events, by simp⟩
          · rw [recordItems_scope_of_refused k items' hbody', hevents]
            exact ⟨l, rest, rfl⟩
      · -- the scope is read to its end, and so is what stands in its place
        subst hbehind
        rw [List.forall_mem_append] at hbefore
        have hpassed := hbody.passes hbefore.1
        have hstopped := ih hin hbefore.2
        have hscope := recordItems_scope k items hpassed.refusal_eq
        refine ⟨by rw [hscope, hstopped.refusal_eq], ?_, fun hsame mended hmended => ?_⟩
        · rw [callsOf_scope k hpassed.refusal_eq]
          exact List.rel_append hpassed.calls hstopped.calls
        · rw [List.forall_mem_append] at hsame
          obtain ⟨l, rest, hevents⟩ := hstopped.mended hsame.2 mended hmended
          rw [hbody.items_eq hsame.1, hscope, recordItems_scope k items' hpassed.refusal_eq, hevents]
          exact ⟨l, rest, by simp⟩

end Record

/-! ### Making clauses up to the first refusal -/

open Sql

section Clauses

variable {comparisons before after : List Comparison} {items items' : List Item} {c : Comparison}
  {reason : Refusal}

/-- The item of a comparison adds the test of the comparison, or is refused as it is. -/
theorem addItem_item (c : Comparison) (k : Connector) (w : Where) :
    addItem (c.item m k) w = (c.atom m).map fun a => ⟨w.clauses ++ [(k, .atom a)]⟩ := by
  rw [Comparison.atom]
  rcases hcall : c.call m with reason | call
  · rw [c.item_of_error hcall]
    rfl
  · rw [c.item_of_ok hcall, addItem, Where.add]
    show _ = ((Sql.atom call).mapError (Refusal.unfit (blamed call))).map _
    rcases (Sql.atom call).mapError (Refusal.unfit (blamed call)) with reason | a
    · rfl
    · rfl

theorem addItems_cons_of_ok {item : Item} {w u : Where} (h : addItem item w = .ok u) :
    addItems (item :: items) w = addItems items u := by
  rw [addItems, h]
  rfl

theorem addItems_cons_of_error {item : Item} {w : Where} (h : addItem item w = .error reason) :
    addItems (item :: items) w = .error reason := by
  rw [addItems, h]
  rfl

theorem Placed.addItems_passes (h : Placed m r comparisons items items')
    (hall : ∀ c ∈ comparisons, ∃ a, c.atom m = .ok a) (w : Where) :
    ∃ v, addItems items w = .ok v := by
  induction h generalizing w with
  | nil => exact ⟨w, rfl⟩
  | @test c _ k _ _ _ ih =>
      obtain ⟨⟨a, ha⟩, hrest⟩ := List.forall_mem_cons.mp hall
      have hitem : addItem (c.item m k) w = .ok ⟨w.clauses ++ [(k, .atom a)]⟩ := by
        rw [addItem_item, ha]
        rfl
      rw [addItems_cons_of_ok hitem]
      exact ih hrest _
  | @scope _ _ k body _ _ _ _ _ ihBody ih =>
      rw [List.forall_mem_append] at hall
      obtain ⟨inner, hinner⟩ := ihBody hall.1 {}
      have hscope : addItem (.scope k body) w = .ok (w.nest k inner) := by
        rw [addItem, hinner]
        rfl
      rw [addItems_cons_of_ok hscope]
      exact ih hall.2 _

/-- No clauses come of a plan, for the reason of the first comparison that is no test. -/
theorem Placed.addItems_stops (h : Placed m r comparisons items items')
    (hsplit : comparisons = before ++ c :: after)
    (hbefore : ∀ d ∈ before, ∃ a, d.atom m = .ok a) (hc : c.atom m = .error reason) (w : Where) :
    addItems items w = .error reason := by
  induction h generalizing before after w with
  | nil => cases before <;> cases hsplit
  | @test d comparisons k _ _ _ ih =>
      rcases before with - | ⟨b, before⟩
      · obtain ⟨rfl, rfl⟩ := List.cons.inj hsplit
        apply addItems_cons_of_error
        rw [addItem_item, hc]
        rfl
      · obtain ⟨rfl, hrest⟩ := List.cons.inj hsplit
        obtain ⟨⟨a, ha⟩, hbefore⟩ := List.forall_mem_cons.mp hbefore
        have hitem : addItem (d.item m k) w = .ok ⟨w.clauses ++ [(k, .atom a)]⟩ := by
          rw [addItem_item, ha]
          rfl
        rw [addItems_cons_of_ok hitem]
        exact ih hrest hbefore _
  | @scope comparisons comparisons' k body _ items _ hbody _ ihBody ih =>
      rcases exists_split_of_append_eq hsplit with ⟨rest, hin⟩ | ⟨rest, hbehind, hin⟩
      · apply addItems_cons_of_error
        rw [addItem, ihBody hin hbefore]
        rfl
      · subst hbehind
        rw [List.forall_mem_append] at hbefore
        obtain ⟨inner, hinner⟩ := hbody.addItems_passes hbefore.1 {}
        have hscope : addItem (.scope k body) w = .ok (w.nest k inner) := by
          rw [addItem, hinner]
          rfl
        rw [addItems_cons_of_ok hscope]
        exact ih hin hbefore.2 _

end Clauses

end WhereClause

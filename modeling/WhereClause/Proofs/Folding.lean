/-
WhereClause/Proofs/Folding.lean

A condition means what its clauses say.

Whoever collects clauses may be called in any order and with any connectors, also
with both of them in one scope.  What is then said is settled by the events alone
(`Truth.read`): the connector of the first clause in a scope ties it to nothing,
`and` binds tighter than `or`, a scope is a single clause, and a scope without calls
is none at all.

The condition is made in another way.  Clauses fall into runs, and a condition with
one item gives way to this item before it goes into another one.  Its value is that
of its items, tied by its connector (`Condition.value`), where the `i`-th test in it
has the `i`-th value of the assignment.

`Where.map_value_condition?` says that the condition of some clauses has the value of
these clauses in a row.  Its core is `combine_runsAfter`, by induction on the clauses
that are still to come, where the run begun so far counts as one value.
`folds_of_addItems` goes on from one list of clauses to nested scopes, and
`condition_folded` states the result.

The conditions made in this way are `Compact` up to a single item at the top: no join
in them has fewer than two items.
-/
import WhereClause.Proofs.Calls
import WhereClause.Proofs.Meaning
import WhereClause.Sql.Condition

namespace WhereClause

/-! ### Items and clauses -/

/-- Induction along a list of items and down into each scope. -/
@[elab_as_elim]
theorem Item.body_induct {motive : List Item → Prop} (nil : motive [])
    (call : ∀ k c rest, motive rest → motive (.call k c :: rest))
    (scope : ∀ k body rest, motive body → motive rest → motive (.scope k body :: rest))
    (refuse : ∀ reason rest, motive rest → motive (.refuse reason :: rest))
    (items : List Item) : motive items :=
  @Item.rec_1 (fun item => ∀ rest, motive rest → motive (item :: rest)) motive
    (fun k c rest => call k c rest) (fun k body hbody rest => scope k body rest hbody)
    (fun reason rest => refuse reason rest) nil (fun _ rest hitem hrest => hitem rest hrest) items

namespace Sql

open Truth

theorem exists_addItem_of_addItems_cons {item : Item} {rest : List Item} {w v : Where}
    (h : addItems (item :: rest) w = .ok v) :
    ∃ u, addItem item w = .ok u ∧ addItems rest u = .ok v := by
  rw [addItems] at h
  exact exists_of_bind_eq_ok h

/-- A call adds its test as a clause. -/
theorem exists_atom_of_addItem_call {k : Connector} {call : Call} {w u : Where}
    (h : addItem (.call k call) w = .ok u) :
    ∃ a, atom call = .ok a ∧ u.clauses = w.clauses ++ [(k, .atom a)] := by
  rw [addItem, Where.add] at h
  obtain ⟨a, hatom, h⟩ := exists_of_bind_eq_ok h
  cases h
  exact ⟨a, eq_ok_of_mapError_eq_ok hatom, rfl⟩

theorem exists_addItems_of_addItem_scope {k : Connector} {body : List Item} {w u : Where}
    (h : addItem (.scope k body) w = .ok u) :
    ∃ inner, addItems body {} = .ok inner ∧ u = w.nest k inner := by
  rw [addItem] at h
  obtain ⟨inner, hbody, h⟩ := exists_of_bind_eq_ok h
  cases h
  exact ⟨inner, hbody, rfl⟩

/-- Clauses are made only from items of which none is refused. -/
theorem refusal_eq_none_of_addItems {items : List Item} {w v : Where}
    (h : addItems items w = .ok v) : (recordItems items).refusal = none := by
  induction items using Item.body_induct generalizing w v with
  | nil => rfl
  | call k call rest ih =>
      obtain ⟨u, -, hrest⟩ := exists_addItem_of_addItems_cons h
      rw [recordItems_call]
      exact ih hrest
  | scope k body rest ihBody ihRest =>
      obtain ⟨u, hscope, hrest⟩ := exists_addItem_of_addItems_cons h
      obtain ⟨inner, hbody, -⟩ := exists_addItems_of_addItem_scope hscope
      rw [recordItems_scope k rest (ihBody hbody)]
      exact ihRest hrest
  | refuse reason rest _ =>
      -- no clause comes of a refusal
      obtain ⟨u, hrefuse, -⟩ := exists_addItem_of_addItems_cons h
      cases hrefuse

theorem Where.runsAfter_ne_nil (run : List Condition) (clauses : List (Connector × Condition)) :
    runsAfter run clauses ≠ [] := by
  induction clauses generalizing run with
  | nil => exact List.cons_ne_nil _ _
  | cons clause rest ih =>
      rcases clause with ⟨_ | _, clause⟩
      · exact ih _
      · exact List.cons_ne_nil _ _

/-- Clauses make a condition.  Up to a single item at the top it joins the runs by `or`,
also if there is one run only. -/
theorem Where.exists_condition?_cons (k : Connector) (clause : Condition)
    (rest : List (Connector × Condition)) :
    ∃ c, Where.condition? ⟨(k, clause) :: rest⟩ = some c ∧
      c.collapsed =
        (Condition.join .or ((runsAfter [clause] rest).map fun run =>
          (allOf run).collapsed)).collapsed := by
  rw [condition?, runs]
  rcases hruns : runsAfter [clause] rest with - | ⟨run, - | ⟨run', several⟩⟩
  · exact absurd hruns (runsAfter_ne_nil _ _)
  · exact ⟨allOf run, rfl, rfl⟩
  · exact ⟨_, rfl, rfl⟩

theorem Where.condition?_eq_none_iff {w : Where} : w.condition? = none ↔ w.clauses = [] := by
  obtain ⟨_ | ⟨⟨k, clause⟩, rest⟩⟩ := w
  · exact iff_of_true rfl rfl
  · obtain ⟨c, hc, -⟩ := exists_condition?_cons k clause rest
    exact iff_of_false (by simp [hc]) (List.cons_ne_nil _ _)

/-- A scope adds its condition as a clause, if it has one. -/
theorem Where.clauses_nest (w inner : Where) (k : Connector) :
    (w.nest k inner).clauses = w.clauses ++ (inner.condition?.map fun c => (k, c)).toList := by
  rw [nest]
  cases inner.condition? with
  | none => exact (List.append_nil _).symm
  | some c => rfl

/-! ### Tests and values of a condition -/

mutual

/-- The tests in a condition, in order. -/
def Condition.atoms : Condition → List Atom
  | .atom a => [a]
  | .join _ items => itemAtoms items

/-- The tests in some conditions. -/
def itemAtoms : List Condition → List Atom
  | [] => []
  | item :: rest => item.atoms ++ itemAtoms rest

end

mutual

/-- The value of a condition.  Items are tied by the connector, and where there are
none nothing is asked for. -/
def Condition.value (v : Nat → Truth) : Condition → Truth
  | .atom _ => v 0
  | .join connector items => (combine connector (itemValues v items)).getD .holds

/-- The values of some conditions. -/
def itemValues (v : Nat → Truth) : List Condition → List Truth
  | [] => []
  | item :: rest => item.value v :: itemValues (later v item.atoms.length) rest

end

theorem itemAtoms_append (items items' : List Condition) :
    itemAtoms (items ++ items') = itemAtoms items ++ itemAtoms items' := by
  induction items with
  | nil => rfl
  | cons item rest ih => simp only [List.cons_append, itemAtoms, ih, List.append_assoc]

theorem itemValues_append (v : Nat → Truth) (items items' : List Condition) :
    itemValues v (items ++ items') =
      itemValues v items ++ itemValues (later v (itemAtoms items).length) items' := by
  induction items generalizing v with
  | nil => simp [itemValues, itemAtoms]
  | cons item rest ih =>
      simp only [List.cons_append, itemValues, itemAtoms, ih, later_later, List.length_append]

/-! ### Conditions with one item -/

theorem Condition.atoms_collapsed (c : Condition) : c.collapsed.atoms = c.atoms := by
  unfold collapsed
  split
  · simp [atoms, itemAtoms]
  · rfl

/-- A condition with one item has the value of this item. -/
theorem Condition.value_collapsed (c : Condition) (v : Nat → Truth) :
    c.collapsed.value v = c.value v := by
  unfold collapsed
  split
  · simp [value, itemValues, combine]
  · rfl

theorem itemAtoms_map_collapsed (items : List Condition) :
    itemAtoms (items.map Condition.collapsed) = itemAtoms items := by
  induction items with
  | nil => rfl
  | cons item rest ih => simp only [List.map_cons, itemAtoms, Condition.atoms_collapsed, ih]

theorem itemValues_map_collapsed (v : Nat → Truth) (items : List Condition) :
    itemValues v (items.map Condition.collapsed) = itemValues v items := by
  induction items generalizing v with
  | nil => rfl
  | cons item rest ih =>
      simp only [List.map_cons, itemValues, Condition.atoms_collapsed, Condition.value_collapsed,
        ih]

/-! ### The condition of a list of clauses -/

/-- The values of some clauses, each with the connector that ties it to the one
before. -/
def clauseValues (v : Nat → Truth) : List (Connector × Condition) → List (Connector × Truth)
  | [] => []
  | (k, clause) :: rest => (k, clause.value v) :: clauseValues (later v clause.atoms.length) rest

/-- The tests in some clauses, in order. -/
def clauseAtoms (clauses : List (Connector × Condition)) : List Atom :=
  clauses.flatMap fun clause => clause.2.atoms

theorem clauseAtoms_append (clauses clauses' : List (Connector × Condition)) :
    clauseAtoms (clauses ++ clauses') = clauseAtoms clauses ++ clauseAtoms clauses' :=
  List.flatMap_append

theorem clauseValues_append (v : Nat → Truth) (clauses clauses' : List (Connector × Condition)) :
    clauseValues v (clauses ++ clauses') =
      clauseValues v clauses ++ clauseValues (later v (clauseAtoms clauses).length) clauses' := by
  induction clauses generalizing v with
  | nil => simp [clauseValues, clauseAtoms]
  | cons clause rest ih =>
      simp only [List.cons_append, clauseValues, ih, clauseAtoms, List.flatMap_cons, later_later,
        List.length_append]

namespace Where

theorem atoms_allOf (run : List Condition) : (allOf run).atoms = itemAtoms run := by
  rw [allOf, Condition.atoms, itemAtoms_map_collapsed]

/-- A run has the value of its clauses tied by `and`. -/
theorem value_allOf {v : Nat → Truth} {run : List Condition} {t : Truth}
    (h : combine .and (itemValues v run) = some t) : (allOf run).value v = t := by
  rw [allOf, Condition.value, itemValues_map_collapsed, h]
  rfl

/-- A run with one clause more has this clause tied to it by `and`. -/
theorem combine_itemValues_concat {v : Nat → Truth} {run : List Condition} {t : Truth}
    (h : combine .and (itemValues v run) = some t) (clause : Condition) :
    combine .and (itemValues v (run ++ [clause])) =
      some (t.and (clause.value (later v (itemAtoms run).length))) := by
  rw [itemValues_append, combine_append, h]
  rfl

/-- The runs of clauses, tied by `or`, have the value of the clauses in a row. -/
theorem combine_runsAfter {v : Nat → Truth} {run : List Condition} {t : Truth}
    (h : combine .and (itemValues v run) = some t) (clauses : List (Connector × Condition)) :
    combine .or (itemValues v ((runsAfter run clauses).map allOf)) =
      some (afterRun t (clauseValues (later v (itemAtoms run).length) clauses)) := by
  induction clauses generalizing v run t with
  | nil => simp [runsAfter, itemValues, value_allOf h, clauseValues, afterRun, combine]
  | cons clause rest ih =>
      obtain ⟨k, clause⟩ := clause
      cases k with
      | and =>
          -- the run goes on with the clause
          have hrun := combine_itemValues_concat h clause
          rw [runsAfter, ih hrun, clauseValues, afterRun, later_later, itemAtoms_append,
            List.length_append]
          simp [itemAtoms]
      | or =>
          -- the run is finished, and the clause begins another one
          have hclause : combine .and (itemValues (later v (itemAtoms run).length) [clause]) =
              some (clause.value (later v (itemAtoms run).length)) := rfl
          rw [runsAfter, List.map_cons, itemValues, value_allOf h, atoms_allOf, combine, ih hclause,
            clauseValues, afterRun]
          simp [itemAtoms, merge, tie]

theorem itemAtoms_runsAfter (run : List Condition) (clauses : List (Connector × Condition)) :
    itemAtoms ((runsAfter run clauses).map allOf) = itemAtoms run ++ clauseAtoms clauses := by
  induction clauses generalizing run with
  | nil => simp [runsAfter, itemAtoms, atoms_allOf, clauseAtoms]
  | cons clause rest ih =>
      obtain ⟨k, clause⟩ := clause
      cases k with
      | and => simp [runsAfter, ih, itemAtoms_append, itemAtoms, clauseAtoms]
      | or => simp [runsAfter, ih, itemAtoms, atoms_allOf, clauseAtoms]

theorem map_collapsed_allOf (runs : List (List Condition)) :
    (runs.map fun run => (allOf run).collapsed) = (runs.map allOf).map Condition.collapsed := by
  rw [List.map_map]
  rfl

/-- The condition of some clauses has the value of the clauses in a row. -/
theorem map_value_condition? (w : Where) (v : Nat → Truth) :
    (w.condition?.map fun c => c.value v) = ofClauses? (clauseValues v w.clauses) := by
  obtain ⟨_ | ⟨⟨k, clause⟩, rest⟩⟩ := w
  · rfl
  · obtain ⟨c, hc, hcollapsed⟩ := exists_condition?_cons k clause rest
    have hclause : combine .and (itemValues v [clause]) = some (clause.value v) := rfl
    have hruns := combine_runsAfter hclause rest
    rw [hc, Option.map_some, ← c.value_collapsed, hcollapsed, Condition.value_collapsed,
      Condition.value, map_collapsed_allOf, itemValues_map_collapsed, hruns, clauseValues,
      ofClauses?, Option.getD_some, itemAtoms, itemAtoms, List.append_nil]

/-- The tests in the condition of some clauses are those of the clauses. -/
theorem atoms_condition? (w : Where) :
    (w.condition?.map Condition.atoms).getD [] = clauseAtoms w.clauses := by
  obtain ⟨_ | ⟨⟨k, clause⟩, rest⟩⟩ := w
  · rfl
  · obtain ⟨c, hc, hcollapsed⟩ := exists_condition?_cons k clause rest
    rw [hc, Option.map_some, Option.getD_some, ← c.atoms_collapsed, hcollapsed,
      Condition.atoms_collapsed, Condition.atoms, map_collapsed_allOf, itemAtoms_map_collapsed,
      itemAtoms_runsAfter, itemAtoms, itemAtoms, List.append_nil, clauseAtoms, clauseAtoms,
      List.flatMap_cons]

end Where

/-! ### Compact conditions -/

/-- A condition in which no join has fewer than two items. -/
inductive Condition.Compact : Condition → Prop
  | atom {a} : Compact (.atom a)
  | join {connector items} : 2 ≤ items.length → (∀ item ∈ items, Compact item) →
      Compact (.join connector items)

theorem Condition.Compact.atoms_ne_nil {c : Condition} (h : c.Compact) : c.atoms ≠ [] := by
  induction h with
  | atom => exact List.cons_ne_nil _ _
  | @join connector items hlength _ ih =>
      rcases items with - | ⟨item, rest⟩
      · cases hlength
      · exact List.append_ne_nil_of_left_ne_nil (ih item List.mem_cons_self) _

/-- A join of compact conditions is compact, or its single item is. -/
theorem Condition.compact_collapsed_join {connector : Connector} {items : List Condition}
    (hne : items ≠ []) (h : ∀ item ∈ items, item.Compact) :
    (join connector items).collapsed.Compact := by
  rcases items with - | ⟨item, - | ⟨item', rest⟩⟩
  · exact absurd rfl hne
  · exact h item List.mem_cons_self
  · exact .join (by simp) h

namespace Where

theorem compact_allOf {run : List Condition} (hne : run ≠ [])
    (h : ∀ clause ∈ run, clause.collapsed.Compact) : (allOf run).collapsed.Compact :=
  Condition.compact_collapsed_join (by simpa using hne) (by simpa using h)

/-- Every run has a clause, and no clauses but those that are given. -/
theorem of_mem_runsAfter {p : Condition → Prop} {run : List Condition}
    {clauses : List (Connector × Condition)} (hne : run ≠ []) (hrun : ∀ clause ∈ run, p clause)
    (hclauses : ∀ clause ∈ clauses, p clause.2) :
    ∀ run' ∈ runsAfter run clauses, run' ≠ [] ∧ ∀ clause ∈ run', p clause := by
  induction clauses generalizing run with
  | nil =>
      intro run' hrun'
      rw [List.mem_singleton.mp hrun']
      exact ⟨hne, hrun⟩
  | cons clause rest ih =>
      obtain ⟨k, clause⟩ := clause
      obtain ⟨hclause, hrest⟩ := List.forall_mem_cons.mp hclauses
      have hnew : ∀ c ∈ [clause], p c := List.forall_mem_singleton.mpr hclause
      cases k with
      | and =>
          refine ih (List.append_ne_nil_of_left_ne_nil hne _) ?_ hrest
          exact List.forall_mem_append.mpr ⟨hrun, hnew⟩
      | or =>
          refine List.forall_mem_cons.mpr ⟨⟨hne, hrun⟩, ?_⟩
          exact ih (List.cons_ne_nil _ _) hnew hrest

/-- The condition of compact clauses is compact. -/
theorem compact_condition? {w : Where} (h : ∀ clause ∈ w.clauses, clause.2.collapsed.Compact)
    {c : Condition} (hc : w.condition? = some c) : c.collapsed.Compact := by
  obtain ⟨_ | ⟨⟨k, clause⟩, rest⟩⟩ := w
  · cases hc
  · obtain ⟨d, hd, hcollapsed⟩ := exists_condition?_cons k clause rest
    obtain rfl : d = c := Option.some.inj (hd.symm.trans hc)
    obtain ⟨hclause, hrest⟩ := List.forall_mem_cons.mp h
    have hruns := of_mem_runsAfter (p := fun c => c.collapsed.Compact) (List.cons_ne_nil clause [])
      (List.forall_mem_singleton.mpr hclause) hrest
    rw [hcollapsed]
    refine Condition.compact_collapsed_join (by simpa using runsAfter_ne_nil _ _) ?_
    intro item hitem
    obtain ⟨run, hrun, rfl⟩ := List.mem_map.mp hitem
    exact compact_allOf (hruns run hrun).1 (hruns run hrun).2

end Where

/-! ### The clauses of some items -/

/-- Some clauses say what some items ask for. -/
structure Folds (items : List Item) (clauses : List (Connector × Condition)) : Prop where
  atoms : List.Forall₂ (fun call a => atom call = .ok a) (callsOf items) (clauseAtoms clauses)
  compact : ∀ clause ∈ clauses, clause.2.collapsed.Compact
  readFrom_append : ∀ v before scopes tail,
    readFrom v before scopes ((recordItems items).events ++ tail) =
      readFrom (later v (clauseAtoms clauses).length) (before ++ clauseValues v clauses) scopes tail

namespace Folds

variable {k : Connector} {rest : List Item} {clauses : List (Connector × Condition)}

theorem nil : Folds [] [] := by
  refine ⟨.nil, fun _ h => absurd h List.not_mem_nil, ?_⟩
  intro v before scopes tail
  simp [recordItems, clauseAtoms, clauseValues]

theorem call {call : Call} {a : Atom} (hcall : atom call = .ok a) (h : Folds rest clauses) :
    Folds (.call k call :: rest) ((k, .atom a) :: clauses) := by
  refine ⟨.cons hcall h.atoms, List.forall_mem_cons.mpr ⟨.atom, h.compact⟩, ?_⟩
  intro v before scopes tail
  have hlength : (clauseAtoms ((k, .atom a) :: clauses)).length =
      1 + (clauseAtoms clauses).length := Nat.add_comm _ 1
  rw [recordItems_call, List.cons_append, readFrom, h.readFrom_append, later_later, hlength,
    List.append_assoc]
  rfl

/-- A scope is a clause of its own, or none if nothing was asked for in it. -/
theorem scope {body : List Item} {inner : Where} (hbody : Folds body inner.clauses)
    (hread : (recordItems body).refusal = none) (h : Folds rest clauses) :
    Folds (.scope k body :: rest)
      ((inner.condition?.map fun c => (k, c)).toList ++ clauses) := by
  have hatoms : clauseAtoms (inner.condition?.map fun c => (k, c)).toList =
      clauseAtoms inner.clauses := by
    rw [← inner.atoms_condition?]
    cases inner.condition? <;> simp [clauseAtoms]
  refine ⟨?_, ?_, ?_⟩
  · rw [callsOf_scope k hread, clauseAtoms_append, hatoms]
    exact List.rel_append hbody.atoms h.atoms
  · refine List.forall_mem_append.mpr ⟨?_, h.compact⟩
    intro clause hclause
    obtain ⟨c, hc, rfl⟩ := Option.map_eq_some_iff.mp (Option.mem_toList.mp hclause)
    exact Where.compact_condition? hbody.compact hc
  · intro v before scopes tail
    have hvalues : ((ofClauses? (clauseValues v inner.clauses)).map fun t => (k, t)).toList =
        clauseValues v (inner.condition?.map fun c => (k, c)).toList := by
      rw [← inner.map_value_condition?]
      cases inner.condition? <;> rfl
    rw [recordItems_scope k rest hread]
    simp only [List.cons_append, List.append_assoc]
    rw [readFrom, hbody.readFrom_append, readFrom, List.nil_append, hvalues, h.readFrom_append,
      later_later, clauseAtoms_append, clauseValues_append, hatoms, List.length_append,
      List.append_assoc]

/-- There are clauses exactly if something was called. -/
theorem clauses_eq_nil_iff {items : List Item} (h : Folds items clauses) :
    clauses = [] ↔ callsOf items = [] := by
  constructor
  · rintro rfl
    exact List.forall₂_nil_right_iff.mp h.atoms
  · intro hcalls
    have hatoms : clauseAtoms clauses = [] := List.forall₂_nil_left_iff.mp (hcalls ▸ h.atoms)
    rcases clauses with - | ⟨clause, rest⟩
    · rfl
    · have hne := (h.compact clause List.mem_cons_self).atoms_ne_nil
      rw [Condition.atoms_collapsed] at hne
      rw [clauseAtoms, List.flatMap_cons, List.append_eq_nil_iff] at hatoms
      exact absurd hatoms.1 hne

end Folds

/-- Clauses that are added for some items say what the items ask for. -/
theorem exists_folds {items : List Item} {w u : Where} (h : addItems items w = .ok u) :
    ∃ clauses, u.clauses = w.clauses ++ clauses ∧ Folds items clauses := by
  induction items using Item.body_induct generalizing w u with
  | nil =>
      cases h
      exact ⟨[], (List.append_nil _).symm, .nil⟩
  | call k call rest ih =>
      obtain ⟨x, hcall, hrest⟩ := exists_addItem_of_addItems_cons h
      obtain ⟨a, ha, hx⟩ := exists_atom_of_addItem_call hcall
      obtain ⟨clauses, hu, hfolds⟩ := ih hrest
      refine ⟨(k, .atom a) :: clauses, ?_, hfolds.call ha⟩
      rw [hu, hx, List.append_assoc]
      rfl
  | scope k body rest ihBody ihRest =>
      obtain ⟨x, hscope, hrest⟩ := exists_addItem_of_addItems_cons h
      obtain ⟨inner, hbody, rfl⟩ := exists_addItems_of_addItem_scope hscope
      obtain ⟨clauses, hu, hfolds⟩ := ihRest hrest
      obtain ⟨innerClauses, hinner, hfoldsBody⟩ := ihBody hbody
      obtain rfl : inner.clauses = innerClauses := hinner
      refine ⟨(inner.condition?.map fun c => (k, c)).toList ++ clauses, ?_, ?_⟩
      · rw [hu, Where.clauses_nest, List.append_assoc]
      · exact hfoldsBody.scope (refusal_eq_none_of_addItems hbody) hfolds
  | refuse reason rest _ =>
      obtain ⟨x, hrefuse, -⟩ := exists_addItem_of_addItems_cons h
      cases hrefuse

/-- All clauses that were collected say what the items ask for. -/
theorem folds_of_addItems {items : List Item} {w : Where} (h : addItems items {} = .ok w) :
    Folds items w.clauses := by
  obtain ⟨clauses, hw, hfolds⟩ := exists_folds h
  obtain rfl : w.clauses = clauses := hw
  exact hfolds

/-- The condition that is made of some items has the value that their events are read
with, there is none exactly if nothing was called, and the tests in it are those of
the calls, one for each and in their order. -/
theorem condition_folded {items : List Item} {w : Where} (h : addItems items {} = .ok w) :
    (∀ v, Truth.read v (recordItems items).events = some (w.condition?.map fun c => c.value v)) ∧
      (w.condition? = none ↔ callsOf items = []) ∧
      List.Forall₂ (fun call a => atom call = .ok a) (callsOf items)
        ((w.condition?.map Condition.atoms).getD []) := by
  have hfolds := folds_of_addItems h
  refine ⟨?_, ?_, ?_⟩
  · intro v
    have hread := hfolds.readFrom_append v [] [] []
    rw [List.append_nil, List.nil_append] at hread
    rw [Truth.read, hread, readFrom, w.map_value_condition?]
    rfl
  · rw [Where.condition?_eq_none_iff, hfolds.clauses_eq_nil_iff]
  · rw [w.atoms_condition?]
    exact hfolds.atoms

/-- Calls for `a is null or b is null and (c is null or d is null and e is null)`.  The
first connector is ignored, and a scope in which nothing is called is no clause. -/
def mixedItems : List Item :=
  let test (k : Connector) (field : String) := Item.call k (.isNull (.field field) false)
  [test .or "a", .scope .and [], test .or "b",
    .scope .and [test .and "c", test .or "d", .scope .and [test .or "e"]]]

theorem condition_folded_mixedItems :
    let v : Nat → Truth := fun i => [.fails, .holds, .fails, .unknown, .holds].getD i .fails
    ∃ w, addItems mixedItems {} = .ok w ∧
      (w.condition?.map fun c => c.value v) = some .unknown ∧
      Truth.read v (recordItems mixedItems).events = some (w.condition?.map fun c => c.value v) :=
  ⟨_, rfl, rfl, (condition_folded rfl).1 _⟩

end Sql

end WhereClause

/-
WhereClause/Proofs/FirstRefusal.lean

Compiling stops at the first comparison that cannot be compiled.

A statement is made of a node exactly if all comparisons beneath it are usable, and a plan
is read to its end exactly if each of them is called when it stands alone.  Otherwise the
refusal is that of the first comparison for which this fails (`Node.FirstWithout`), and
nothing that comes later plays a part.

The two readers of a plan were followed up to that comparison before (`Placed.stops`,
`Placed.addItems_stops`).  Here it remains to see that a comparison alone is refused in the
same way (`Config.compile_test`, `Comparison.refusal_alone_eq_some_iff`), and that of a
node with a refused comparison there is a first one.  No join in a reachable node lacks its
connector, so there is no other reason to end.
-/
import WhereClause.Proofs.Lossless
import WhereClause.Proofs.Placed
import WhereClause.Proofs.SingleConnector

namespace WhereClause

open Formula Sql

variable {m : Mapping}

/-! ### The first refused comparison -/

/-- A comparison beneath a node does not have a property, and all those before it, which are
listed, have it. -/
structure Node.FirstWithout (n : Node) (p : Comparison → Prop) (before : List Comparison)
    (c : Comparison) : Prop where
  split : ∃ after, n.comparisons = before ++ c :: after
  before : ∀ d ∈ before, p d
  not_here : ¬p c

theorem Node.forall_or_exists_firstWithout (n : Node) (p : Comparison → Prop) :
    (∀ c ∈ n.comparisons, p c) ∨ ∃ before c, n.FirstWithout p before c := by
  rcases forall_mem_or_exists_first p n.comparisons with hall | ⟨before, c, after, hsplit, hb, hc⟩
  · exact .inl hall
  · exact .inr ⟨before, c, ⟨after, hsplit⟩, hb, hc⟩

theorem Config.compile_eq (config : Config) (f : Formula) :
    config.compile f = (addItems (f.items config.mapping) {}).map
      fun w => Select.text ⟨config.table, w.condition?⟩ config.dialect := by
  rw [Config.compile, Config.select]
  rcases addItems (f.items config.mapping) {} with reason | w
  · rfl
  · rfl

/-- A comparison alone is compiled as its test is made. -/
theorem Config.compile_test (config : Config) (c : Comparison) :
    config.compile (.test c) = (c.atom config.mapping).map
      fun a => Select.text ⟨config.table, (Where.mk [(.and, .atom a)]).condition?⟩ config.dialect := by
  have hitems : (Formula.test c).items config.mapping = [c.item config.mapping .and] := rfl
  have hnil : ∀ w, addItems [] w = .ok w := fun w => rfl
  rw [config.compile_eq, hitems]
  rcases hatom : c.atom config.mapping with reason | a
  · have hitem : addItem (c.item config.mapping .and) {} = .error reason := by
      rw [addItem_item, hatom]
      rfl
    rw [addItems_cons_of_error hitem]
    rfl
  · have hitem : addItem (c.item config.mapping .and) {} = .ok ⟨[(.and, .atom a)]⟩ := by
      rw [addItem_item, hatom]
      rfl
    rw [addItems_cons_of_ok hitem, hnil]
    rfl

/-- The record of a comparison that stands alone. -/
def Comparison.alone (m : Mapping) (c : Comparison) : Record :=
  (Formula.test c).record m

theorem Comparison.alone_eq_of_error {c : Comparison} {reason : Refusal}
    (h : c.call m = .error reason) : c.alone m = ⟨[], some reason⟩ := by
  have hitem := c.item_of_error h .and
  simp [alone, Formula.record, items, itemsWithin, hitem, recordItems, Item.record, Record.append]

theorem Comparison.refusal_alone_eq_some_iff {c : Comparison} {reason : Refusal} :
    (c.alone m).refusal = some reason ↔ c.call m = .error reason := by
  rcases hcall : c.call m with reason' | call
  · simp [alone_eq_of_error hcall]
  · simp [alone, Comparison.record_eq hcall]

theorem Comparison.refusal_alone_eq_none_iff {c : Comparison} :
    (c.alone m).refusal = none ↔ ∃ call, c.call m = .ok call := by
  rw [Option.eq_none_iff_forall_ne_some]
  simp only [ne_eq, refusal_alone_eq_some_iff]
  rcases c.call m with reason | call
  · simp
  · simp

theorem Comparison.alone_eq_iff {c : Comparison} {call : Call} :
    c.alone m = ⟨[.called .and call], none⟩ ↔ c.call m = .ok call := by
  constructor
  · intro h
    obtain ⟨made, hmade⟩ := refusal_alone_eq_none_iff.mp (congrArg Record.refusal h)
    have hevents : [Event.called .and made] = [Event.called .and call] := by
      rw [alone, Comparison.record_eq hmade] at h
      exact congrArg Record.events h
    cases hevents
    exact hmade
  · exact Comparison.record_eq

section FirstWithout

variable {n : Node} {before : List Comparison} {c : Comparison} {reason : Refusal}

/-- A statement is made of a node without unusable comparisons. -/
theorem Config.exists_compile (config : Config) (hn : n.formula.Joined)
    (hall : ∀ c ∈ n.comparisons, c.Usable) : ∃ text, config.compile n.formula = .ok text := by
  have hplaced := placed_items (m := config.mapping) (r := id) hn
  rw [n.comparisons_formula] at hplaced
  obtain ⟨w, hw⟩ := hplaced.addItems_passes
    (fun c hc => (c.exists_atom_iff config).mpr (hall c hc)) {}
  exact ⟨_, by rw [config.compile_eq, hw]; rfl⟩

/-- No statement is made of a node, for the reason of its first unusable comparison. -/
theorem Config.exists_compile_error (config : Config) (hn : n.formula.Joined)
    (hfirst : n.FirstWithout Comparison.Usable before c) :
    ∃ operator operand, config.compile n.formula = .error (.unfit operator operand) ∧
      config.compile (.test c) = .error (.unfit operator operand) := by
  obtain ⟨⟨after, hsplit⟩, hbefore, hc⟩ := hfirst
  have hplaced := placed_items (m := config.mapping) (r := id) hn
  rw [n.comparisons_formula] at hplaced
  rcases hatom : c.atom config.mapping with reason | a
  · obtain ⟨operator, operand, rfl⟩ := c.exists_unfit_of_atom hatom
    have hitems := hplaced.addItems_stops hsplit
      (fun d hd => (d.exists_atom_iff config).mpr (hbefore d hd)) hatom {}
    refine ⟨operator, operand, ?_, ?_⟩
    · rw [config.compile_eq, hitems]
      rfl
    · rw [config.compile_test, hatom]
      rfl
  · exact absurd ((c.exists_atom_iff config).mp ⟨a, hatom⟩) hc

theorem Config.exists_compile_iff (config : Config) (hn : n.formula.Joined) :
    (∃ text, config.compile n.formula = .ok text) ↔ ∀ c ∈ n.comparisons, c.Usable := by
  refine ⟨?_, config.exists_compile hn⟩
  rintro ⟨text, htext⟩
  rcases n.forall_or_exists_firstWithout Comparison.Usable with hall | ⟨before, c, hfirst⟩
  · exact hall
  · obtain ⟨operator, operand, herror, -⟩ := config.exists_compile_error hn hfirst
    rw [htext] at herror
    cases herror

theorem Config.compile_eq_error_iff (config : Config) (hn : n.formula.Joined) :
    config.compile n.formula = .error reason ↔
      ∃ before c, n.FirstWithout Comparison.Usable before c ∧
        config.compile (.test c) = .error reason ∧
        ∃ operator operand, reason = .unfit operator operand := by
  constructor
  · intro h
    rcases n.forall_or_exists_firstWithout Comparison.Usable with hall | ⟨before, c, hfirst⟩
    · obtain ⟨text, htext⟩ := config.exists_compile hn hall
      rw [htext] at h
      cases h
    · obtain ⟨operator, operand, herror, hc⟩ := config.exists_compile_error hn hfirst
      rw [herror] at h
      cases h
      exact ⟨before, c, hfirst, hc, operator, operand, rfl⟩
  · rintro ⟨before, c, hfirst, hc, -⟩
    obtain ⟨operator, operand, herror, hc'⟩ := config.exists_compile_error hn hfirst
    rw [herror, ← hc', hc]

theorem Node.refusal_eq_none (hn : n.formula.Joined)
    (hall : ∀ c ∈ n.comparisons, (c.alone m).refusal = none) :
    (n.formula.record m).refusal = none := by
  have hplaced := placed_items (m := m) (r := id) hn
  rw [n.comparisons_formula] at hplaced
  exact (hplaced.passes fun c hc => Comparison.refusal_alone_eq_none_iff.mp (hall c hc)).refusal_eq

/-- The plan for a node is read up to the first comparison that is refused. -/
theorem Node.exists_stopped (hn : n.formula.Joined) (r : Comparison → Comparison)
    (hfirst : n.FirstWithout (fun d => (d.alone m).refusal = none) before c) :
    ∃ reason, (c.alone m).refusal = some reason ∧
      Stopped m r before c reason (n.formula.items m) ((n.mapTests r).formula.items m) := by
  obtain ⟨⟨after, hsplit⟩, hbefore, hc⟩ := hfirst
  obtain ⟨reason, hreason⟩ := Option.ne_none_iff_exists'.mp hc
  have hplaced := placed_items (m := m) (r := r) hn
  rw [n.comparisons_formula, ← n.formula_mapTests] at hplaced
  refine ⟨reason, hreason, hplaced.stops hsplit ?_ ?_⟩
  · exact fun d hd => Comparison.refusal_alone_eq_none_iff.mp (hbefore d hd)
  · exact Comparison.refusal_alone_eq_some_iff.mp hreason

theorem Node.refusal_eq_none_iff (hn : n.formula.Joined) :
    (n.formula.record m).refusal = none ↔ ∀ c ∈ n.comparisons, (c.alone m).refusal = none := by
  refine ⟨fun hnone => ?_, Node.refusal_eq_none hn⟩
  rcases n.forall_or_exists_firstWithout fun c => (c.alone m).refusal = none with
    hall | ⟨before, c, hfirst⟩
  · exact hall
  · obtain ⟨reason, -, hstopped⟩ := Node.exists_stopped hn id hfirst
    rw [Formula.record, hstopped.refusal_eq] at hnone
    cases hnone

theorem Node.refusal_eq_some_iff (hn : n.formula.Joined) :
    (n.formula.record m).refusal = some reason ↔
      ∃ before c, n.FirstWithout (fun d => (d.alone m).refusal = none) before c ∧
        (c.alone m).refusal = some reason := by
  constructor
  · intro h
    rcases n.forall_or_exists_firstWithout fun c => (c.alone m).refusal = none with
      hall | ⟨before, c, hfirst⟩
    · rw [Node.refusal_eq_none hn hall] at h
      cases h
    · obtain ⟨reason', hc, hstopped⟩ := Node.exists_stopped hn id hfirst
      rw [Formula.record, hstopped.refusal_eq] at h
      exact ⟨before, c, hfirst, hc.trans h⟩
  · rintro ⟨before, c, hfirst, hc⟩
    obtain ⟨reason', hc', hstopped⟩ := Node.exists_stopped hn id hfirst
    rw [Formula.record, hstopped.refusal_eq, ← hc', hc]

end FirstWithout

/-- A statement is made of a node exactly if every comparison beneath it is usable, and
otherwise there is the refusal of the first comparison that is not, as it is alone.  Likewise
a plan for a node is read to its end exactly if every comparison beneath it is called alone,
and otherwise it ends in the refusal of the first one that is not.  The calls until then are
those of the comparisons before that one.  With another comparison in its place, which is
called, the same happens and then this call. -/
theorem refused_at_first (n : Node) (hn : n.Reachable) :
    (∀ config : Config,
      ((∃ text, config.compile n.formula = .ok text) ↔
        ∀ c, (Node.test c).Beneath n → c.Usable) ∧
      ∀ reason, config.compile n.formula = .error reason ↔
        ∃ before c, n.FirstWithout Comparison.Usable before c ∧
          config.compile (.test c) = .error reason ∧
          ∃ operator operand, reason = .unfit operator operand) ∧
    ∀ m : Mapping,
      ((n.formula.record m).refusal = none ↔
        ∀ c, (Node.test c).Beneath n → (c.alone m).refusal = none) ∧
      (∀ reason, (n.formula.record m).refusal = some reason ↔
        ∃ before c, n.FirstWithout (fun d => (d.alone m).refusal = none) before c ∧
          (c.alone m).refusal = some reason) ∧
      ∀ before c, n.FirstWithout (fun d => (d.alone m).refusal = none) before c →
        List.Forall₂ (fun d call => d.alone m = ⟨[.called .and call], none⟩) before
          ((n.formula.record m).events.filterMap Event.call?) ∧
        ∀ (r : Comparison → Comparison) (call : Call), (∀ d ∈ before, r d = d) →
          (r c).alone m = ⟨[.called .and call], none⟩ →
          ∃ k rest, ((n.mapTests r).formula.record m).events =
            (n.formula.record m).events ++ .called k call :: rest := by
  have hjoined := hn.joined
  simp only [← Node.mem_comparisons_iff]
  refine ⟨fun config => ⟨config.exists_compile_iff hjoined,
    fun reason => config.compile_eq_error_iff hjoined⟩, fun m => ⟨Node.refusal_eq_none_iff hjoined,
    fun reason => Node.refusal_eq_some_iff hjoined, ?_⟩⟩
  intro before c hfirst
  constructor
  · obtain ⟨reason, -, hstopped⟩ := Node.exists_stopped hjoined id hfirst
    exact hstopped.calls.imp fun _ _ => Comparison.alone_eq_iff.mpr
  · intro r call hsame hcall
    obtain ⟨reason, -, hstopped⟩ := Node.exists_stopped hjoined r hfirst
    exact hstopped.mended hsame call (Comparison.alone_eq_iff.mp hcall)

/-- Operations for the filter `s = 1 and a is null and (b = [1] or c in d or e = 2)`, with a
list where a statement has no place for one and a field where no list of values can be. -/
def unfitRecipe : Recipe :=
  .filter .all
    [.constrain "s" [.compare .and "s" (.known .equal) (.of (1 : Int64))],
      .shared (.compare .and "a" (.known .isNull) (.value .null)),
      .group .and [.shared (.compare .and "b" (.known .equal) (.of [(1 : Int64)])),
        .shared (.compare .or "c" (.known .isIn) (.field "d")),
        .shared (.compare .or "e" (.known .equal) (.of (2 : Int64)))]]

/-- A statement is refused for the list, while a plan is read further, up to the field: by
then three comparisons are called, the last of them in a scope. -/
theorem refused_at_first_unfitRecipe :
    ∃ n : Node, (unfitRecipe.prepare.on {}).result = .ok n ∧ n.Reachable ∧
      (∃ before c, n.FirstWithout Comparison.Usable before c ∧
        ({} : Config).compile (.test c) = .error (.unfit .equal .listInComparison)) ∧
      ∃ before c, n.FirstWithout (fun d => (d.alone {}).refusal = none) before c ∧
        (c.alone {}).refusal = some (.unfit .isIn .fieldReference) ∧ before.length = 3 := by
  have hn : ∀ n, (unfitRecipe.prepare.on {}).result = .ok n → n.Reachable :=
    (unfitRecipe.prepares {}).2
  obtain ⟨hcompile, hrecord⟩ := refused_at_first _ (hn _ rfl)
  obtain ⟨before, c, hfirst, hc, -⟩ := ((hcompile {}).2 (.unfit .equal .listInComparison)).mp rfl
  obtain ⟨-, hrefusal, hstops⟩ := hrecord {}
  obtain ⟨before', c', hfirst', hc'⟩ := (hrefusal (.unfit .isIn .fieldReference)).mp rfl
  have hlength := (hstops before' c' hfirst').1.length_eq
  exact ⟨_, rfl, hn _ rfl, ⟨before, c, hfirst, hc⟩, before', c', hfirst', hc', hlength⟩

end WhereClause

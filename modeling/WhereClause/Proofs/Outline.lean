/-
WhereClause/Proofs/Outline.lean

Statements in which only names and texts differ.

The outline of a node is what is left of it when the names of fields and the texts are wiped
out, and with them the limits to fields.  Each step from a node to a statement respects
outlines: calls (`Comparison.call_outline`), clauses (`addItems_outline`), their condition
(`Where.condition?_outline`) and its pieces (`Select.pieces_outline`).  So two nodes with the
same outline have statements with the same pieces, up to names and quoted texts, or they are
refused for the same reason.

Pieces are lexed one by one (`Select.lex_text`).  Hence no name and no text, whatever is in it,
gets out of its quotes: `same_lexemes` says that the two statements have the same lexemes, up to
what is written in the quotes.
-/
import WhereClause.Proofs.Lexing
import WhereClause.Proofs.Replaced

namespace WhereClause

open Sql

/-! ### Outlines -/

mutual

/-- A literal without its texts. -/
def Literal.outline : Literal → Literal
  | .text _ => .text ""
  | .list items => .list (itemsOutline items)
  | .null => .null
  | .bool b => .bool b
  | .int n => .int n
  | .float x => .float x

/-- The members of a list without their texts. -/
def itemsOutline : List Literal → List Literal
  | [] => []
  | item :: rest => item.outline :: itemsOutline rest

end

/-- An operand without names and texts. -/
def Operand.outline : Operand → Operand
  | .field _ => .field ""
  | .value literal => .value literal.outline

/-- A comparison without names and texts. -/
def Comparison.outline (c : Comparison) : Comparison where
  left := c.left.outline
  operator := c.operator
  right := c.right.map Operand.outline
  right_eq_none h := by rw [c.right_eq_none h, Option.map_none]

mutual

/-- A node without names and texts. -/
def Node.outline : Node → Node
  | .test c => .test c.outline
  | .group g => .group g.outline
  | .filter f => .filter f.outline

/-- A group without names and texts. -/
def Group.outline : Group → Group
  | ⟨connector, members⟩ => ⟨connector, membersOutline members⟩

/-- Members without names and texts. -/
def membersOutline : List Node → List Node
  | [] => []
  | node :: rest => node.outline :: membersOutline rest

/-- A filter without names and texts, and without limits. -/
def Filter.outline : Filter → Filter
  | ⟨_, constraints, condition⟩ => ⟨.all, constraintsOutline constraints, condition.outline⟩

/-- Constraints without names and texts, and without limits. -/
def constraintsOutline : List Constraint → List Constraint
  | [] => []
  | ⟨_, group, _⟩ :: rest => ⟨"", group.outline, .all⟩ :: constraintsOutline rest

end

/-- A call without names and texts. -/
def Call.outline : Call → Call
  | .compare left comparator right => .compare left.outline comparator right.outline
  | .isIn field values negated => .isIn field.outline (values.map Literal.outline) negated
  | .isNull field negated => .isNull field.outline negated

namespace Sql

/-- A constant without its text. -/
def Constant.outline : Constant → Constant
  | text _ => .text ""
  | null => .null
  | bool b => .bool b
  | int n => .int n
  | float x => .float x

/-- One side of a test without its name or text. -/
def Term.outline : Term → Term
  | column _ => .column ""
  | constant value => .constant value.outline

/-- A test without names and texts. -/
def Atom.outline : Atom → Atom
  | compare left comparator right => .compare left.outline comparator right.outline
  | isIn left values negated => .isIn left.outline (values.map Constant.outline) negated
  | isNull left negated => .isNull left.outline negated

mutual

/-- A condition without names and texts. -/
def Condition.outline : Condition → Condition
  | .atom atom => .atom atom.outline
  | .join connector items => .join connector (conditionsOutline items)

/-- Conditions without names and texts. -/
def conditionsOutline : List Condition → List Condition
  | [] => []
  | item :: rest => item.outline :: conditionsOutline rest

end

/-- Clauses without names and texts. -/
def Where.outline (w : Where) : Where :=
  ⟨w.clauses.map fun clause => (clause.1, clause.2.outline)⟩

/-- A statement without names and texts. -/
def Select.outline (s : Select) : Select :=
  ⟨"", s.condition.map Condition.outline⟩

/-- A piece without its name or text. -/
def Piece.outline : Piece → Piece
  | name _ => .name ""
  | quoted _ => .quoted ""
  | plain s => .plain s

end Sql

theorem itemsOutline_eq_map (items : List Literal) :
    itemsOutline items = items.map Literal.outline := by
  induction items with
  | nil => rfl
  | cons item rest ih => rw [itemsOutline, ih, List.map_cons]

theorem membersOutline_eq_map (members : List Node) :
    membersOutline members = members.map Node.outline := by
  induction members with
  | nil => rfl
  | cons node rest ih => rw [membersOutline, ih, List.map_cons]

theorem constraintsOutline_eq_map (constraints : List Constraint) :
    constraintsOutline constraints = constraints.map fun c => ⟨"", c.group.outline, .all⟩ := by
  induction constraints with
  | nil => rfl
  | cons c rest ih =>
      obtain ⟨name, group, allowed⟩ := c
      rw [constraintsOutline, ih, List.map_cons]

theorem Sql.conditionsOutline_eq_map (items : List Condition) :
    conditionsOutline items = items.map Condition.outline := by
  induction items with
  | nil => rfl
  | cons item rest ih => rw [conditionsOutline, ih, List.map_cons]

mutual

theorem Literal.outline_outline : ∀ l : Literal, l.outline.outline = l.outline
  | .text _ => rfl
  | .list items => congrArg Literal.list (itemsOutline_itemsOutline items)
  | .null => rfl
  | .bool _ => rfl
  | .int _ => rfl
  | .float _ => rfl

theorem itemsOutline_itemsOutline : ∀ items : List Literal,
    itemsOutline (itemsOutline items) = itemsOutline items
  | [] => rfl
  | item :: rest => by
      rw [itemsOutline, itemsOutline, item.outline_outline, itemsOutline_itemsOutline rest]

end

theorem Operand.outline_outline (o : Operand) : o.outline.outline = o.outline := by
  cases o with
  | field name => rfl
  | value literal => exact congrArg Operand.value literal.outline_outline

/-- The formula of an outline has the comparisons without names and texts. -/
theorem Node.formula_outline (n : Node) :
    n.outline.formula = n.formula.mapTests Comparison.outline := by
  induction n using Node.induct with
  | test c => rfl
  | group connector members ih =>
      simp only [outline, Group.outline, formula, Group.formula_eq, Formula.mapTests,
        membersOutline_eq_map, partsMapTests_eq_map, List.map_map]
      congr 1
      exact List.map_congr_left ih
  | filter allowed constraints condition ihConstraints ihCondition =>
      have hconstraints : constraints.map (fun c => c.group.outline.formula) =
          constraints.map fun c => c.group.formula.mapTests Comparison.outline :=
        List.map_congr_left ihConstraints
      have hcondition : condition.outline.formula = condition.formula.mapTests Comparison.outline :=
        ihCondition
      simp only [outline, Filter.outline, formula, Filter.formula_eq, Formula.mapTests,
        constraintsOutline_eq_map, partsMapTests_eq_map, List.map_append, List.map_map,
        List.map_cons, List.map_nil, hcondition]
      congr 2

/-! ### Calls -/

/-- Two steps find the same in two runs, up to `g`, if the first ones do, up to `f`, and if this
is all that the second ones depend on. -/
theorem map_bind_eq {ε α β γ δ : Type} {first first' : Except ε α} {next next' : α → Except ε β}
    {f : α → γ} {g : β → δ} (hfirst : first'.map f = first.map f)
    (hnext : ∀ a a', f a' = f a → (next' a').map g = (next a).map g) :
    (first' >>= next').map g = (first >>= next).map g := by
  rcases first with reason | a
  · rcases first' with reason' | a'
    · cases hfirst
      rfl
    · cases hfirst
  · rcases first' with reason' | a'
    · cases hfirst
    · exact hnext a a' (Except.ok.inj hfirst)

/-- A mapping leaves an outline as it is if it replaces no values. -/
theorem Mapping.outline_operand {m : Mapping} (h : m.replace = none) (opposite : Option String)
    (operand : Operand) : (m.operand opposite operand).outline = operand.outline := by
  cases operand with
  | field name => rfl
  | value literal => simp only [Mapping.operand, h]

section CallOf

variable {left left' : Operand} {right right' : Option Operand}

theorem memberValues_outline (right : Option Operand) :
    memberValues (right.map Operand.outline) =
      (memberValues right).map (List.map Literal.outline) := by
  rcases right with - | (name | (- | b | n | x | s | items))
  all_goals first
    | rfl
    | exact congrArg Except.ok (itemsOutline_eq_map items)

/-- There is a text for a pattern, or there is none, whatever is in it. -/
theorem patternText_outline (right : Option Operand) :
    (patternText (right.map Operand.outline)).map (fun _ => ()) =
      (patternText right).map fun _ => () := by
  rcases right with - | (name | (- | b | n | x | s | items)) <;> rfl

/-- Operands with the same outlines are called alike. -/
theorem callOf_outline (hleft : left'.outline = left.outline)
    (hright : right'.map Operand.outline = right.map Operand.outline) (operator : Operator) :
    (callOf left' operator right').map Call.outline =
      (callOf left operator right).map Call.outline := by
  cases operator
  case equal | notEqual | greater | greaterEqual | less | lessEqual =>
    rcases right with - | o
    · rcases right' with - | o'
      · rfl
      · cases hright
    · rcases right' with - | o'
      · cases hright
      · have ho := Option.some.inj hright
        show Except.ok (Call.compare left'.outline _ o'.outline) = _
        rw [hleft, ho]
        rfl
  case isIn | notIn =>
    have hvalues : (memberValues right').map (List.map Literal.outline) =
        (memberValues right).map (List.map Literal.outline) := by
      rw [← memberValues_outline, hright, memberValues_outline]
    refine map_bind_eq hvalues fun values values' h => ?_
    show Except.ok (Call.isIn left'.outline (values'.map Literal.outline) _) = _
    rw [hleft, h]
    rfl
  case isNull | notNull =>
    show Except.ok (Call.isNull left'.outline _) = _
    rw [hleft]
    rfl
  case contains | startsWith | endsWith =>
    have htext : (patternText right').map (fun _ => ()) = (patternText right).map fun _ => () := by
      rw [← patternText_outline, hright, patternText_outline]
    -- the two patterns may differ, but both are texts
    refine map_bind_eq htext fun text text' _ => ?_
    show Except.ok (Call.compare left'.outline _ _) = _
    rw [hleft]
    rfl

end CallOf

/-- A comparison is called under a mapping as its outline is called under another one, up to
names and texts, if no values are replaced. -/
theorem Comparison.call_outline {m m' : Mapping} (h : m.replace = none) (h' : m'.replace = none)
    (c : Comparison) : (c.outline.call m').map Call.outline = (c.call m).map Call.outline := by
  -- what a field is renamed to is wiped out with its name
  have hleft : (m'.left c.outline).outline = (m.left c).outline := by
    rw [Mapping.left, m'.outline_operand h', Mapping.left, m.outline_operand h]
    exact c.left.outline_outline
  have hright : (m'.right c.outline).map Operand.outline = (m.right c).map Operand.outline := by
    rw [Mapping.right, Mapping.right, Option.map_map, Option.map_map, outline, Option.map_map]
    refine Option.map_congr fun o _ => ?_
    rw [Function.comp_apply, Function.comp_apply, Function.comp_apply, m'.outline_operand h',
      m.outline_operand h, o.outline_outline]
  have hmapError : ∀ found : Except Unfit Call,
      (found.mapError (Refusal.unfit c.operator)).map Call.outline =
        (found.map Call.outline).mapError (Refusal.unfit c.operator) := by
    intro found
    cases found <;> rfl
  show ((callOf _ c.operator _).mapError (Refusal.unfit c.operator)).map Call.outline = _
  rw [call, hmapError, hmapError, callOf_outline hleft hright]

/-! ### Tests -/

namespace Sql

theorem constant_outline (l : Literal) :
    constant l.outline = (constant l).map Constant.outline := by
  cases l <;> rfl

theorem constants_outline (values : List Literal) :
    (values.map Literal.outline).mapM constant =
      (values.mapM constant).map (List.map Constant.outline) := by
  induction values with
  | nil => rfl
  | cons value rest ih =>
      rw [List.map_cons, List.mapM_cons, List.mapM_cons, constant_outline, ih]
      rcases constant value with unfit | made
      · rfl
      · rcases rest.mapM constant with unfit | others <;> rfl

theorem term_outline (o : Operand) : term o.outline = (term o).map Term.outline := by
  rcases o with name | (- | b | n | x | s | items) <;> rfl

/-- The test of an outline is the outline of the test. -/
theorem atom_outline (call : Call) : atom call.outline = (atom call).map Atom.outline := by
  cases call with
  | compare left comparator right =>
      rw [Call.outline, atom, atom, term_outline]
      rcases term left with unfit | left
      · rfl
      · rcases right with name | (- | b | n | x | s | items) <;> cases comparator <;> rfl
  | isIn field values negated =>
      rw [Call.outline, atom, atom, term_outline, constants_outline]
      rcases term field with unfit | left
      · rfl
      · rcases values.mapM constant with unfit | constants <;> rfl
  | isNull field negated =>
      rw [Call.outline, atom, atom, term_outline]
      rcases term field with unfit | left <;> rfl

theorem blamed_outline (call : Call) : blamed call.outline = blamed call := by
  cases call <;> rfl

/-! ### Clauses -/

namespace Where

theorem add_outline (w : Where) (k : Connector) (call : Call) :
    w.outline.add k call.outline = (w.add k call).map outline := by
  rw [add, add, atom_outline, blamed_outline]
  rcases atom call with unfit | a
  · rfl
  · show Except.ok (Where.mk _) = Except.ok (Where.mk _)
    rw [List.map_append]
    rfl

theorem runsAfter_outline (run : List Condition) (clauses : List (Connector × Condition)) :
    runsAfter (run.map Condition.outline)
        (clauses.map fun clause => (clause.1, clause.2.outline)) =
      (runsAfter run clauses).map (List.map Condition.outline) := by
  induction clauses generalizing run with
  | nil => rfl
  | cons clause rest ih =>
      obtain ⟨k, clause⟩ := clause
      cases k with
      | and =>
          have hrun := ih (run ++ [clause])
          rw [List.map_append] at hrun
          exact hrun
      | or => exact congrArg (run.map Condition.outline :: ·) (ih [clause])

theorem runs_outline (w : Where) :
    runs w.outline.clauses = (runs w.clauses).map (List.map Condition.outline) := by
  obtain ⟨- | ⟨⟨k, clause⟩, rest⟩⟩ := w
  · rfl
  · exact runsAfter_outline [clause] rest

end Where

theorem Condition.collapsed_outline (c : Condition) :
    c.outline.collapsed = c.collapsed.outline := by
  rcases c with a | ⟨k, - | ⟨item, - | ⟨next, rest⟩⟩⟩ <;> rfl

theorem Where.allOf_outline (run : List Condition) :
    allOf (run.map Condition.outline) = (allOf run).outline := by
  rw [allOf, allOf, Condition.outline, conditionsOutline_eq_map, List.map_map, List.map_map]
  exact congrArg _ (List.map_congr_left fun c _ => c.collapsed_outline)

/-- The condition of an outline is the outline of the condition. -/
theorem Where.condition?_outline (w : Where) :
    w.outline.condition? = w.condition?.map Condition.outline := by
  rw [condition?, condition?, runs_outline]
  rcases runs w.clauses with - | ⟨run, - | ⟨next, rest⟩⟩
  · rfl
  · exact congrArg some (allOf_outline run)
  · -- several runs: each of them is collapsed, with or without its names
    refine congrArg (fun items => some (Condition.join .or items)) ?_
    rw [conditionsOutline_eq_map, List.map_map, ← List.map_cons, List.map_map]
    refine List.map_congr_left fun run _ => ?_
    rw [Function.comp_apply, Function.comp_apply, allOf_outline, Condition.collapsed_outline]

theorem Where.nest_outline (w : Where) (k : Connector) (inner : Where) :
    w.outline.nest k inner.outline = (w.nest k inner).outline := by
  rw [nest, nest, condition?_outline]
  rcases inner.condition? with - | condition
  · rfl
  · show Where.mk _ = Where.mk _
    rw [List.map_append]
    rfl

mutual

theorem addItem_outline : ∀ (item : Item) (w : Where),
    addItem (item.mapCalls Call.outline) w.outline = (addItem item w).map Where.outline
  | .call k call, w => w.add_outline k call
  | .scope k body, w => by
      have hbody := addItems_outline body {}
      show (addItems (itemsMapCalls Call.outline body) (Where.outline {}) >>= fun inner =>
        pure (w.outline.nest k inner)) = _
      rw [hbody, addItem]
      rcases addItems body {} with reason | inner
      · rfl
      · exact congrArg Except.ok (w.nest_outline k inner)
  | .refuse _, _ => rfl

/-- The clauses of calls without names and texts are those of the calls without them. -/
theorem addItems_outline : ∀ (items : List Item) (w : Where),
    addItems (itemsMapCalls Call.outline items) w.outline = (addItems items w).map Where.outline
  | [], _ => rfl
  | item :: rest, w => by
      rw [itemsMapCalls, addItems, addItems, addItem_outline item w]
      rcases addItem item w with reason | v
      · rfl
      · exact addItems_outline rest v

end

/-! ### Pieces -/

theorem Constant.piece_outline (value : Constant) : value.outline.piece = value.piece.outline := by
  cases value <;> rfl

theorem Term.piece_outline (term : Term) : term.outline.piece = term.piece.outline := by
  cases term with
  | column name => rfl
  | constant value => exact value.piece_outline

theorem listed_outline (values : List Constant) :
    listed (values.map Constant.outline) = (listed values).map Piece.outline := by
  induction values with
  | nil => rfl
  | cons value rest ih =>
      rcases rest with - | ⟨next, rest⟩
      · exact congrArg (fun piece => [piece]) value.piece_outline
      · show value.outline.piece :: .plain ", " :: listed ((next :: rest).map Constant.outline) = _
        rw [value.piece_outline, ih]
        rfl

theorem Atom.pieces_outline (atom : Atom) :
    atom.outline.pieces = atom.pieces.map Piece.outline := by
  cases atom with
  | compare left comparator right =>
      show [left.outline.piece, _, right.outline.piece] = _
      rw [left.piece_outline, right.piece_outline]
      rfl
  | isIn left values negated =>
      rcases values with - | ⟨value, rest⟩
      · rfl
      · show left.outline.piece :: _ :: listed ((value :: rest).map Constant.outline) ++ _ = _
        rw [left.piece_outline, listed_outline]
        simp [pieces, Piece.outline]
  | isNull left negated =>
      show [left.outline.piece, _] = _
      rw [left.piece_outline]
      rfl

theorem bare_outline (k : Connector) (first : Bool) (c : Condition) :
    bare k first c.outline = bare k first c := by
  cases c <;> rfl

mutual

theorem Condition.pieces_outline : ∀ c : Condition,
    c.outline.pieces = c.pieces.map Piece.outline
  | .atom atom => atom.pieces_outline
  | .join _ [] => rfl
  | .join _ [item] => item.pieces_outline
  | .join k (item :: next :: rest) => itemPieces_outline k true (item :: next :: rest)

theorem itemPieces_outline (k : Connector) : ∀ (first : Bool) (items : List Condition),
    itemPieces k first (conditionsOutline items) = (itemPieces k first items).map Piece.outline
  | _, [] => rfl
  | first, item :: rest => by
      rw [conditionsOutline, itemPieces, itemPieces, bare_outline, item.pieces_outline,
        itemPieces_outline k false rest, List.map_append, List.map_append]
      congr 2
      · cases first
        · cases k <;> rfl
        · rfl
      · split
        · rfl
        · simp [Piece.outline]

end

/-- The pieces of an outline are those of the statement without names and texts. -/
theorem Select.pieces_outline (s : Select) : s.outline.pieces = s.pieces.map Piece.outline := by
  rcases s with ⟨table, - | condition⟩
  · rfl
  · exact congrArg (.plain "SELECT * FROM " :: .name "" :: .plain " WHERE " :: ·)
      condition.pieces_outline

/-! ### Lexemes -/

/-- Two lexemes of the same kind, and with the same text unless it is in quotes. -/
def Lexeme.SameButQuoted (l l' : Lexeme) : Prop :=
  l.kind = l'.kind ∧ (l.kind = .name ∨ l.kind = .text ∨ l.text = l'.text)

theorem Lexeme.SameButQuoted.refl (l : Lexeme) : l.SameButQuoted l :=
  ⟨rfl, .inr (.inr rfl)⟩

theorem Piece.forall₂_lexemes {piece piece' : Piece} (h : piece.outline = piece'.outline)
    (d : Dialect) :
    List.Forall₂ Lexeme.SameButQuoted (piece.lexemes d) (piece'.lexemes d) := by
  cases piece with
  | name s =>
      cases piece' with
      | name s' => exact .cons ⟨rfl, .inl rfl⟩ .nil
      | quoted s' => cases h
      | plain s' => cases h
  | quoted s =>
      cases piece' with
      | name s' => cases h
      | quoted s' => exact .cons ⟨rfl, .inr (.inl rfl)⟩ .nil
      | plain s' => cases h
  | plain s =>
      cases piece' with
      | name s' => cases h
      | quoted s' => cases h
      | plain s' =>
          cases h
          exact List.forall₂_same.mpr fun l _ => .refl l

/-- Pieces with the same outlines have the same lexemes, up to what is in quotes. -/
theorem forall₂_lexemes {ps ps' : List Piece} (h : ps.map Piece.outline = ps'.map Piece.outline)
    (d : Dialect) :
    List.Forall₂ Lexeme.SameButQuoted (ps.flatMap (Piece.lexemes d))
      (ps'.flatMap (Piece.lexemes d)) := by
  induction ps generalizing ps' with
  | nil =>
      rw [List.map_eq_nil_iff.mp h.symm]
      exact .nil
  | cons piece rest ih =>
      obtain ⟨piece', rest', rfl, hpiece, hrest⟩ := List.map_eq_cons_iff.mp h.symm
      exact List.rel_append (Piece.forall₂_lexemes hpiece.symm d) (ih hrest.symm)

end Sql

/-! ### Two statements -/

theorem Node.items_outline (n : Node) {m m' : Mapping} (h : m.replace = none)
    (h' : m'.replace = none) :
    itemsMapCalls Call.outline (n.outline.formula.items m') =
      itemsMapCalls Call.outline (n.formula.items m) := by
  rw [n.formula_outline]
  exact Formula.mapCalls_items_mapTests (Comparison.call_outline h h') n.formula

/-- The outline of a statement is made from the outline of the node, whatever the
configuration is. -/
theorem Config.select_outline (config : Config) (n : Node) :
    (config.select n.formula).map Select.outline =
      (addItems (itemsMapCalls Call.outline (n.outline.formula.items {})) {}).map fun w =>
        ⟨"", w.condition?⟩ := by
  have hclauses := addItems_outline (n.formula.items config.mapping) {}
  rw [n.items_outline (rfl : config.mapping.replace = none) rfl]
  show _ = (addItems _ (Where.outline {})).map _
  rw [hclauses, select]
  rcases addItems (n.formula.items config.mapping) {} with reason | w
  · rfl
  · show Except.ok (Select.mk _ _) = Except.ok (Select.mk _ _)
    rw [w.condition?_outline]

/-- No name and no text changes the structure of a statement.  If two nodes differ only in the
names of fields, in texts, and in limits, then under any two configurations for a dialect they
are refused for the same reason, or both have a statement.  The statements have the same
lexemes then, and they differ in what is written in quotes only. -/
theorem same_lexemes {config config' : Config} {n n' : Node}
    (hdialect : config.dialect = config'.dialect) (houtline : n.outline = n'.outline) :
    (∃ reason, config.compile n.formula = .error reason ∧
        config'.compile n'.formula = .error reason) ∨
      ∃ text text' ls ls',
        config.compile n.formula = .ok text ∧ config'.compile n'.formula = .ok text' ∧
          lex config.dialect text = some ls ∧ lex config'.dialect text' = some ls' ∧
            List.Forall₂ Lexeme.SameButQuoted ls ls' := by
  have hselect : (config.select n.formula).map Select.outline =
      (config'.select n'.formula).map Select.outline := by
    rw [config.select_outline, config'.select_outline, houtline]
  rw [Config.compile, Config.compile]
  generalize config.select n.formula = found at hselect ⊢
  generalize config'.select n'.formula = found' at hselect ⊢
  rcases found with reason | s
  · rcases found' with reason' | s'
    · cases hselect
      exact .inl ⟨reason, rfl, rfl⟩
    · cases hselect
  · rcases found' with reason' | s'
    · cases hselect
    · -- the statements have outlines in common, and pieces are lexed one by one
      have hpieces : s.pieces.map Piece.outline = s'.pieces.map Piece.outline := by
        rw [← s.pieces_outline, ← s'.pieces_outline]
        exact congrArg Select.pieces (Except.ok.inj hselect)
      refine .inr ⟨_, _, _, _, rfl, rfl, s.lex_text _, s'.lex_text _, ?_⟩
      rw [← hdialect]
      exact forall₂_lexemes hpieces config.dialect

/-- Names and texts that are made for it do not get out of their quotes. -/
theorem same_lexemes_hostile :
    let config : Config := { table := "items", dialect := .mysql }
    let config' : Config :=
      { table := "items` --", dialect := .mysql, columns := Table.ofList [("b", "c`, `d")] }
    let n : Node := .group ⟨some .or,
      [.test (.on "a" .isIn (.value (.list [.text "x", .int 5]))),
        .test (.on "b" .contains (.value (.text "y")))]⟩
    let n' : Node := .group ⟨some .or,
      [.test (.on "a` = 1 OR `a" .isIn (.value (.list [.text "\\') OR 1 = 1 -- ", .int 5]))),
        .test (.on "b" .contains (.value (.text "\\")))]⟩
    config.dialect = config'.dialect ∧ n.outline = n'.outline ∧
      config.compile n.formula =
        .ok "SELECT * FROM `items` WHERE `a` IN ('x', 5) OR `b` LIKE '%y%'" ∧
      config'.compile n'.formula = .ok ("SELECT * FROM `items`` --` WHERE " ++
        "`a`` = 1 OR ``a` IN ('\\\\\\') OR 1 = 1 -- ', 5) OR `c``, ``d` LIKE '%\\\\%'") ∧
      ∃ text text' ls ls',
        config.compile n.formula = .ok text ∧ config'.compile n'.formula = .ok text' ∧
          lex config.dialect text = some ls ∧ lex config'.dialect text' = some ls' ∧
            List.Forall₂ Lexeme.SameButQuoted ls ls' := by
  intro config config' n n'
  have hdialect : config.dialect = config'.dialect := rfl
  have houtline : n.outline = n'.outline := rfl
  have htext : config.compile n.formula =
      .ok "SELECT * FROM `items` WHERE `a` IN ('x', 5) OR `b` LIKE '%y%'" := by
    decide +kernel
  refine ⟨hdialect, houtline, htext, by decide +kernel, ?_⟩
  rcases same_lexemes hdialect houtline with ⟨reason, h, -⟩ | h
  · rw [htext] at h
    cases h
  · exact h

end WhereClause

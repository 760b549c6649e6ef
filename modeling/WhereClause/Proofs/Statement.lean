/-
WhereClause/Proofs/Statement.lean

The text of a statement means what the node says.

What stands behind `WHERE` is a row of tokens: tests, connectors, and parentheses.
`readTokens` reads such a row as SQL does.  An operand is a test, or a row of tokens in
parentheses; operands and connectors take turns, and `and` binds tighter than `or`.  A
row in which something is missing, or left over, has no value.

In the text of a condition most parentheses are left out.  This does no harm: an item of
a join goes without them only if it is a test, or if it comes first and has the connector
of the join.  In the second case its own items are read as if they were items of the
join.  `Condition.Compact.exists_operand` carries this through by induction on the
condition: the tokens of an item add some clauses to the scope, all but the first of them
tied by the connector of the join.

`statement_means` puts three steps together: what the node says is what the calls for it
are read as, the condition of a statement has this value (`Node.map_value_condition?`), and
its tokens are read as the condition (`Condition.exists_tokens`).
-/
import WhereClause.Config
import WhereClause.Proofs.Folding

namespace WhereClause.Sql

open Truth

/-! ### Tokens -/

/-- What the condition of a statement is written with. -/
inductive Token where
  | test (atom : Atom)
  | connector (connector : Connector)
  | opening
  | closing

namespace Token

/-- The pieces of a token. -/
def pieces : Token → List Piece
  | test a => a.pieces
  | connector k => [between k]
  | opening => [.plain "("]
  | closing => [.plain ")"]

/-- The text of a token in a dialect. -/
def text (d : Dialect) (token : Token) : String :=
  String.join (token.pieces.map (Piece.text d))

/-- The test that a token is, if it is one. -/
def test? : Token → Option Atom
  | test a => some a
  | _ => none

end Token

/-- The value of some tokens behind others, where `clauses` are those of the innermost
scope so far and `around` are the scopes around it.  If an operand is awaited then
`awaited` is the connector that ties it to the clause before. -/
def readTokens (v : Nat → Truth) (awaited : Option Connector)
    (clauses : List (Connector × Truth)) (around : List (Connector × List (Connector × Truth))) :
    List Token → Option Truth
  | [] =>
      match awaited, around with
      | none, [] => ofClauses? clauses
      | _, _ => none
  | .test _ :: rest =>
      match awaited with
      | some k => readTokens (later v 1) none (clauses ++ [(k, v 0)]) around rest
      | none => none
  | .connector k :: rest =>
      match awaited with
      | some _ => none
      | none => readTokens v (some k) clauses around rest
  | .opening :: rest =>
      match awaited with
      | some k => readTokens v (some .and) [] ((k, clauses) :: around) rest
      | none => none
  | .closing :: rest =>
      match awaited, around, ofClauses? clauses with
      | none, (k, before) :: around, some t =>
          readTokens v none (before ++ [(k, t)]) around rest
      | _, _, _ => none

/-- The value of some tokens.  The first operand is tied to nothing. -/
def valueOfTokens (v : Nat → Truth) (tokens : List Token) : Option Truth :=
  readTokens v (some .and) [] [] tokens

/-! ### Tokens that add clauses -/

/-- Some tokens are read as some clauses more in the scope, `n` values later. -/
def Continues (v : Nat → Truth) (awaited : Option Connector) (tokens : List Token) (n : Nat)
    (added : List (Connector × Truth)) : Prop :=
  ∀ clauses around tail,
    readTokens v awaited clauses around (tokens ++ tail) =
      readTokens (later v n) none (clauses ++ added) around tail

section Continues

variable {v : Nat → Truth} {awaited : Option Connector} {tokens tokens' : List Token} {n n' : Nat}
  {added added' : List (Connector × Truth)}

theorem continues_nil : Continues v none [] 0 [] := by
  intro clauses around tail
  rw [later_zero, List.append_nil, List.nil_append]

theorem continues_test (v : Nat → Truth) (k : Connector) (a : Atom) :
    Continues v (some k) [.test a] 1 [(k, v 0)] := by
  intro clauses around tail
  rfl

theorem Continues.append (h : Continues v awaited tokens n added)
    (h' : Continues (later v n) none tokens' n' added') :
    Continues v awaited (tokens ++ tokens') (n + n') (added ++ added') := by
  intro clauses around tail
  rw [List.append_assoc, h, h', later_later, List.append_assoc]

theorem Continues.tied {k : Connector} (h : Continues v (some k) tokens n added) :
    Continues v none (.connector k :: tokens) n added :=
  h

/-- Tokens in parentheses are one operand. -/
theorem Continues.enclosed {t : Truth} (h : Continues v (some .and) tokens n added)
    (ht : ofClauses? added = some t) (k : Connector) :
    Continues v (some k) (.opening :: tokens ++ [.closing]) n [(k, t)] := by
  intro clauses around tail
  show readTokens v (some .and) [] ((k, clauses) :: around) (tokens ++ [.closing] ++ tail) = _
  rw [List.append_assoc, h, List.nil_append, List.singleton_append]
  simp only [readTokens, ht]

end Continues

/-! ### Conditions are read as they are meant -/

/-- Some tokens are those of some pieces, with some tests in them. -/
structure Spells (pieces : List Piece) (atoms : List Atom) (tokens : List Token) : Prop where
  pieces_eq : tokens.flatMap Token.pieces = pieces
  atoms_eq : tokens.filterMap Token.test? = atoms

namespace Spells

variable {pieces pieces' : List Piece} {atoms atoms' : List Atom} {tokens tokens' : List Token}

theorem append (h : Spells pieces atoms tokens) (h' : Spells pieces' atoms' tokens') :
    Spells (pieces ++ pieces') (atoms ++ atoms') (tokens ++ tokens') := by
  refine ⟨?_, ?_⟩
  · rw [List.flatMap_append, h.pieces_eq, h'.pieces_eq]
  · rw [List.filterMap_append, h.atoms_eq, h'.atoms_eq]

theorem tied (h : Spells pieces atoms tokens) (k : Connector) :
    Spells (between k :: pieces) atoms (.connector k :: tokens) := by
  refine ⟨?_, h.atoms_eq⟩
  rw [List.flatMap_cons, h.pieces_eq]
  rfl

theorem enclosed (h : Spells pieces atoms tokens) :
    Spells (.plain "(" :: pieces ++ [.plain ")"]) atoms (.opening :: tokens ++ [.closing]) := by
  refine ⟨?_, ?_⟩
  · rw [List.flatMap_append, List.flatMap_cons, h.pieces_eq]
    rfl
  · rw [List.filterMap_append, List.filterMap_cons_none rfl, h.atoms_eq]
    exact List.append_nil atoms

end Spells

/-- Some tokens are those of an operand among others that are joined by `k`: of some
pieces for a condition, which are read as clauses with the value of the condition. -/
structure AsOperand (k : Connector) (pieces : List Piece) (c : Condition) (tokens : List Token) :
    Prop where
  spells : Spells pieces c.atoms tokens
  continues : ∀ v, ∃ ts, ts ≠ [] ∧ combine k ts = some (c.value v) ∧
    ∀ lead, Continues v (some lead) tokens c.atoms.length (led k lead ts)

/-- An operand in parentheses is a single clause, whatever is around it. -/
theorem AsOperand.enclosed {k : Connector} {pieces : List Piece} {c : Condition}
    {tokens : List Token} (h : AsOperand k pieces c tokens) (around : Connector) :
    AsOperand around (.plain "(" :: pieces ++ [.plain ")"]) c
      (.opening :: tokens ++ [.closing]) := by
  refine ⟨h.spells.enclosed, ?_⟩
  intro v
  obtain ⟨ts, -, hvalue, hcontinues⟩ := h.continues v
  have hclauses : ofClauses? (led k .and ts) = some (c.value v) := by
    rw [ofClauses?_led, hvalue]
  refine ⟨[c.value v], List.cons_ne_nil _ _, rfl, ?_⟩
  intro lead
  exact (hcontinues .and).enclosed hclauses lead

namespace Condition

theorem exists_bare (c : Condition) : ∃ k, bare k true c = true := by
  cases c with
  | atom a => exact ⟨.and, rfl⟩
  | join inner items => exact ⟨inner, by simp [bare]⟩

theorem bare_true_of_bare {k : Connector} {first : Bool} {c : Condition}
    (h : bare k first c = true) : bare k true c = true := by
  cases c with
  | atom a => rfl
  | join inner items =>
      rw [bare, Bool.and_eq_true] at h
      exact h.2

/-- An item stands in parentheses or can do without them. -/
theorem exists_operand_placed {c : Condition}
    (h : ∀ k, bare k true c = true → ∃ tokens, AsOperand k c.pieces c tokens) (k : Connector)
    (first : Bool) :
    ∃ tokens, AsOperand k
      (if bare k first c then c.pieces else .plain "(" :: c.pieces ++ [.plain ")"]) c tokens := by
  split
  · next hbare => exact h k (bare_true_of_bare hbare)
  · obtain ⟨inner, hinner⟩ := c.exists_bare
    obtain ⟨tokens, htokens⟩ := h inner hinner
    exact ⟨_, htokens.enclosed k⟩

end Condition

/-- The items of a join behind the first one are read as clauses that are tied by its
connector. -/
theorem exists_tokens_itemPieces {k : Connector} {items : List Condition}
    (h : ∀ item ∈ items, ∀ k, bare k true item = true →
      ∃ tokens, AsOperand k item.pieces item tokens) :
    ∃ tokens, Spells (itemPieces k false items) (itemAtoms items) tokens ∧
      ∀ v, ∃ ts, combine k ts = combine k (itemValues v items) ∧
        Continues v none tokens (itemAtoms items).length (led k k ts) := by
  induction items with
  | nil => exact ⟨[], ⟨rfl, rfl⟩, fun v => ⟨[], rfl, continues_nil⟩⟩
  | cons item rest ih =>
      obtain ⟨hitem, hrest⟩ := List.forall_mem_cons.mp h
      obtain ⟨tokens, htokens⟩ := Condition.exists_operand_placed hitem k false
      obtain ⟨tokens', hspells, hcontinues⟩ := ih hrest
      refine ⟨(.connector k :: tokens) ++ tokens', (htokens.spells.tied k).append hspells, ?_⟩
      intro v
      obtain ⟨ts, hne, hvalue, hread⟩ := htokens.continues v
      obtain ⟨us, hvalue', hread'⟩ := hcontinues (later v item.atoms.length)
      refine ⟨ts ++ us, ?_, ?_⟩
      · rw [combine_append, hvalue, hvalue', itemValues, combine]
      · rw [led_append hne, itemAtoms, List.length_append]
        exact (hread k).tied.append hread'

/-- A compact condition can stand without parentheses among operands that are joined
by the connector that it has itself. -/
theorem Condition.Compact.exists_operand {c : Condition} (h : c.Compact) (k : Connector)
    (hbare : bare k true c = true) : ∃ tokens, AsOperand k c.pieces c tokens := by
  induction h generalizing k with
  | @atom a =>
      refine ⟨[.test a], ⟨List.append_nil _, rfl⟩, ?_⟩
      intro v
      refine ⟨[v 0], List.cons_ne_nil _ _, rfl, ?_⟩
      intro lead
      exact continues_test v lead a
  | @join connector items hlength _ ih =>
      obtain rfl : connector = k := by simpa [bare] using hbare
      rcases items with - | ⟨item, rest⟩
      · cases hlength
      have hpieces : (Condition.join connector (item :: rest)).pieces =
          itemPieces connector true (item :: rest) := by
        rcases rest with - | ⟨item', rest⟩
        · simp at hlength
        · rfl
      obtain ⟨hitem, hrest⟩ := List.forall_mem_cons.mp ih
      obtain ⟨tokens, htokens⟩ := Condition.exists_operand_placed hitem connector true
      obtain ⟨tokens', hspells, hcontinues⟩ := exists_tokens_itemPieces (k := connector) hrest
      refine ⟨tokens ++ tokens', ?_, ?_⟩
      · rw [hpieces, itemPieces]
        exact htokens.spells.append hspells
      · intro v
        obtain ⟨ts, hne, hvalue, hread⟩ := htokens.continues v
        obtain ⟨us, hvalue', hread'⟩ := hcontinues (later v item.atoms.length)
        have hcombine : combine connector (ts ++ us) =
            combine connector (itemValues v (item :: rest)) := by
          rw [combine_append, hvalue, hvalue', itemValues, combine]
        obtain ⟨t, ht⟩ := exists_combine_eq connector
          (List.cons_ne_nil (item.value v) (itemValues (later v item.atoms.length) rest))
        refine ⟨ts ++ us, List.append_ne_nil_of_left_ne_nil hne us, ?_, ?_⟩
        · rw [hcombine, itemValues, Condition.value, itemValues, ht]
          rfl
        · intro lead
          rw [led_append hne, Condition.atoms, itemAtoms, List.length_append]
          exact (hread lead).append hread'

theorem Condition.pieces_collapsed (c : Condition) : c.collapsed.pieces = c.pieces := by
  unfold collapsed
  split
  · rfl
  · rfl

/-- The condition of a statement is written with tokens that have its value. -/
theorem Condition.exists_tokens {c : Condition} (h : c.collapsed.Compact) :
    ∃ tokens, Spells c.pieces c.atoms tokens ∧
      ∀ v, valueOfTokens v tokens = some (c.value v) := by
  obtain ⟨k, hbare⟩ := c.collapsed.exists_bare
  obtain ⟨tokens, hspells, hcontinues⟩ := h.exists_operand k hbare
  rw [pieces_collapsed, atoms_collapsed] at hspells
  refine ⟨tokens, hspells, ?_⟩
  intro v
  obtain ⟨ts, -, hvalue, hread⟩ := hcontinues v
  have htokens := hread .and [] [] []
  rw [List.append_nil, List.nil_append] at htokens
  rw [valueOfTokens, htokens, readTokens, ofClauses?_led, hvalue, value_collapsed]

end Sql

/-! ### Statements -/

open Sql Truth

/-- The text of some tokens is the text of their pieces. -/
theorem Sql.join_text_tokens (d : Dialect) (tokens : List Token) :
    String.join (tokens.map (Token.text d)) =
      String.join ((tokens.flatMap Token.pieces).map (Piece.text d)) := by
  induction tokens with
  | nil => rfl
  | cons token rest ih =>
      rw [List.map_cons, String.join_cons, ih, List.flatMap_cons, List.map_append,
        String.join_append]
      rfl

theorem Sql.Select.text_none (table : String) (d : Dialect) :
    (Select.text ⟨table, none⟩ d) = "SELECT * FROM " ++ d.quoteName table := by
  simp [Select.text, Select.pieces, Piece.text, String.join_cons]

theorem Sql.Select.text_some (table : String) (c : Condition) (d : Dialect) :
    (Select.text ⟨table, some c⟩ d) =
      "SELECT * FROM " ++ d.quoteName table ++ " WHERE " ++
        String.join (c.pieces.map (Piece.text d)) := by
  simp [Select.text, Select.pieces, Piece.text, String.join_cons, String.append_assoc]

/-- What a statement for a node is made of. -/
theorem Config.exists_clauses_of_compile {config : Config} {f : Formula} {text : String}
    (h : config.compile f = .ok text) :
    ∃ w, addItems (f.items config.mapping) {} = .ok w ∧
      text = Select.text ⟨config.table, w.condition?⟩ config.dialect := by
  obtain ⟨s, hselect, h⟩ := exists_of_bind_eq_ok h
  obtain ⟨w, hw, hselect⟩ := exists_of_bind_eq_ok hselect
  cases hselect
  cases h
  exact ⟨w, hw, rfl⟩

namespace Node

variable {n : Node} {m : Mapping} {w : Where}

/-- The condition that is made for a node has the value of the node. -/
theorem map_value_condition? (h : addItems (n.formula.items m) {} = .ok w) (v : Nat → Truth) :
    (w.condition?.map fun c => c.value v) = n.meaning v := by
  obtain ⟨ts, hts, -, hread⟩ := (planned_items (refusal_eq_none_of_addItems h)).readsAs v
  have hclauses := (folds_of_addItems h).readFrom_append v [] [] []
  -- the events are read as the clauses, and as the terms of the node
  rw [hread, List.nil_append, List.nil_append, readFrom, readFrom, ofClauses?_led, hts] at hclauses
  have hvalue := Option.some.inj hclauses
  rw [Formula.partsMeaning, Formula.partsMeaning, merge_none_right, meaning_formula] at hvalue
  rw [w.map_value_condition?, ← hvalue]

/-- The tests in the condition that is made for a node are those of the comparisons
beneath it, in order. -/
theorem forall₂_tests (h : addItems (n.formula.items m) {} = .ok w) :
    List.Forall₂ (fun c a => ∃ call, c.call m = .ok call ∧ atom call = .ok a) n.comparisons
      ((w.condition?.map Condition.atoms).getD []) := by
  have hcalls := (planned_items (refusal_eq_none_of_addItems h)).calls
  rw [Formula.partsComparisons, Formula.partsComparisons, List.append_nil,
    comparisons_formula] at hcalls
  have hatoms := (folds_of_addItems h).atoms
  rw [w.atoms_condition?]
  -- from comparisons to calls, and from calls to tests
  generalize clauseAtoms w.clauses = atoms at hatoms
  generalize callsOf (n.formula.items m) = calls at hcalls hatoms
  generalize n.comparisons = comparisons at hcalls ⊢
  induction hcalls generalizing atoms with
  | nil =>
      cases hatoms
      exact .nil
  | cons hcall _ ih =>
      cases hatoms with
      | cons hatom hrest => exact .cons ⟨_, hcall, hatom⟩ (ih _ hrest)

end Node

/-- If there is a statement for a node then either the node says nothing, and neither does
the statement, or what stands behind `WHERE` is a row of tokens that has the value of the
node.  The tests among them are those of the comparisons beneath the node, one for each and
in their order. -/
theorem statement_means (n : Node) (config : Config) (text : String)
    (h : config.compile n.formula = .ok text) :
    (∀ v, n.meaning v = none) ∧ text = "SELECT * FROM " ++ config.dialect.quoteName config.table ∨
      ∃ tokens : List Token,
        text = "SELECT * FROM " ++ config.dialect.quoteName config.table ++ " WHERE " ++
            String.join (tokens.map (Token.text config.dialect)) ∧
          List.Forall₂ (fun c a => ∃ call, c.call config.mapping = .ok call ∧ atom call = .ok a)
            n.comparisons (tokens.filterMap Token.test?) ∧
          ∀ v, ∃ t, n.meaning v = some t ∧ valueOfTokens v tokens = some t := by
  obtain ⟨w, hw, rfl⟩ := Config.exists_clauses_of_compile h
  have hmeaning := Node.map_value_condition? hw
  have htests := Node.forall₂_tests hw
  rcases hcondition : w.condition? with - | c
  · left
    refine ⟨?_, Select.text_none _ _⟩
    intro v
    rw [← hmeaning, hcondition]
    rfl
  · right
    rw [hcondition] at htests
    have hcompact := Where.compact_condition? (folds_of_addItems hw).compact hcondition
    obtain ⟨tokens, hspells, hvalue⟩ := Condition.exists_tokens hcompact
    refine ⟨tokens, ?_, hspells.atoms_eq ▸ htests, ?_⟩
    · rw [Select.text_some, join_text_tokens, hspells.pieces_eq]
    · intro v
      refine ⟨c.value v, ?_, hvalue v⟩
      rw [← hmeaning, hcondition]
      rfl

theorem statement_means_mixedFilter :
    let n : Node := .filter mixedFilter
    let text := "SELECT * FROM \"items\" WHERE (\"s\" = 1 OR \"s\" = 2) AND " ++
      "(\"a\" = \"b\" OR (\"c\" IS NULL AND \"d\" LIKE '%x%'))"
    ({} : Config).compile n.formula = .ok text ∧
      ∃ tokens : List Token,
        text = "SELECT * FROM \"items\" WHERE " ++ String.join (tokens.map (Token.text .postgres)) ∧
          ∀ v, ∃ t, n.meaning v = some t ∧ valueOfTokens v tokens = some t := by
  intro n text
  have htext : ({} : Config).compile n.formula = .ok text := by decide +kernel
  refine ⟨htext, ?_⟩
  rcases statement_means n {} text htext with ⟨hnone, -⟩ | ⟨tokens, hjoin, -, hvalue⟩
  · cases hnone fun _ => .holds
  · exact ⟨tokens, hjoin, hvalue⟩

end WhereClause

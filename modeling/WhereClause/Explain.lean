/-
WhereClause/Explain.lean

The explained form of a filter, a line of text such as

    foo = "a" and (bar = "b" or baz = "c")

Terms are joined by the connector of their group.  A term stands in parentheses
exactly if its own outer connector differs from the one around it; a group with
a single term is transparent and hands the surrounding connector down.  The
whole is never in parentheses.

A group of several terms without a connector cannot be written; no builder makes
one.
-/
import WhereClause.Formula

namespace WhereClause

namespace Formula

/-- Terms with the connector between them. -/
def joinTerms (connector : Option Connector) (terms : List String) : Except Refusal String :=
  match connector, terms with
  | _, [] => .ok ""
  | _, [term] => .ok term
  | some k, terms => .ok ((" " ++ k.text ++ " ").intercalate terms)
  | none, terms => .error (.unjoined terms.length)

mutual

/-- The text of a formula that stands among terms joined by `around`. -/
def textWithin (around : Connector) : Formula → Except Refusal String
  | test c => .ok c.explained
  | join connector parts => do
      let inner := if 2 ≤ terms parts then connector.getD around else around
      joinTerms connector (← termTexts inner parts)

/-- The texts of the parts that say something, each in parentheses if it needs
them among terms joined by `around`. -/
def termTexts (around : Connector) : List Formula → Except Refusal (List String)
  | [] => .ok []
  | part :: rest =>
      if part.isEmpty then termTexts around rest
      else do
        let text ← part.textWithin (part.outer.getD around)
        let texts ← termTexts around rest
        return (if needsScope part.outer around then "(" ++ text ++ ")" else text) :: texts

end

/-- The explained form of a formula. -/
def explain (f : Formula) : Except Refusal String :=
  f.textWithin (f.outer.getD .and)

end Formula

/-- The explained form of a node. -/
def Node.explain (n : Node) : Except Refusal String := n.formula.explain

/-- The explained form of a group. -/
def Group.explain (g : Group) : Except Refusal String := g.formula.explain

/-- The explained form of a filter. -/
def Filter.explain (f : Filter) : Except Refusal String := f.formula.explain

end WhereClause

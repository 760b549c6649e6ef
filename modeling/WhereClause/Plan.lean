/-
WhereClause/Plan.lean

What a formula asks of a query, in order: calls, each with the connector that
ties it to what the scope already holds, and nested scopes.  The connector of
the first item in a scope ties it to nothing.

A scope is opened exactly where the explained form has parentheses.  The first
item of a nested scope carries the connector with which the scope is opened, the
very first item of all carries `and`, and every later item of a group carries
the connector of the group (`Formula.itemsWithin`).

A comparison that cannot be turned into a call leaves a refusal in its place.  A
reader of the items stops there; `record` is such a reader and notes what
happened until then.
-/
import WhereClause.Call
import WhereClause.Formula

namespace WhereClause

/-- One thing asked of a query. -/
inductive Item where
  | call (connector : Connector) (call : Call)
  | scope (connector : Connector) (body : List Item)
  | refuse (reason : Refusal)

/-- The item of a comparison. -/
def Comparison.item (m : Mapping) (connector : Connector) (c : Comparison) : Item :=
  match c.call m with
  | .ok call => .call connector call
  | .error reason => .refuse reason

namespace Formula

mutual

/-- The items of a formula that stands among terms joined by `around`; the
first of them carries the connector `lead`. -/
def itemsWithin (m : Mapping) (around lead : Connector) : Formula → List Item
  | test c => [c.item m lead]
  | join connector parts =>
      if 2 ≤ terms parts then
        match connector with
        | some connector => termItems m connector lead parts
        | none => [.refuse (.unjoined (terms parts))]
      else termItems m around lead parts

/-- The items of the parts that say something, each in a scope of its own if it
needs one among terms joined by `around`. -/
def termItems (m : Mapping) (around lead : Connector) : List Formula → List Item
  | [] => []
  | part :: rest =>
      if part.isEmpty then termItems m around lead rest
      else
        let items := part.itemsWithin m (part.outer.getD around) lead
        (if needsScope part.outer around then [.scope lead items] else items) ++
          termItems m around around rest

end

/-- The items of a formula. -/
def items (m : Mapping) (f : Formula) : List Item :=
  f.itemsWithin m (f.outer.getD .and) .and

end Formula

/-! ### What happens until a refusal -/

/-- A step in the reading of items. -/
inductive Event where
  | called (connector : Connector) (call : Call)
  | opened (connector : Connector)
  | closed

/-- The events of a reading and the refusal that ended it, if one did. -/
structure Record where
  events : List Event
  refusal : Option Refusal

/-- First one record, then another one unless the first ended in a refusal. -/
def Record.append (r s : Record) : Record :=
  match r.refusal with
  | some _ => r
  | none => ⟨r.events ++ s.events, s.refusal⟩

mutual

/-- The record of one item.  A scope is closed only if its body was read to the
end. -/
def Item.record : Item → Record
  | .call connector call => ⟨[.called connector call], none⟩
  | .scope connector body =>
      let inside := recordItems body
      ⟨.opened connector :: inside.events ++ if inside.refusal.isNone then [.closed] else [],
        inside.refusal⟩
  | .refuse reason => ⟨[], some reason⟩

/-- The record of some items in order. -/
def recordItems : List Item → Record
  | [] => ⟨[], none⟩
  | item :: rest => item.record.append (recordItems rest)

end

/-- The record of a formula under a mapping. -/
def Formula.record (m : Mapping) (f : Formula) : Record :=
  recordItems (f.items m)

end WhereClause

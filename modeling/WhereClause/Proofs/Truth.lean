/-
WhereClause/Proofs/Truth.lean

The truth values of a query: a test against a missing value neither holds nor
fails.  An absent condition is different again.  It has no value at all, and
joining it with another one leaves the other as it is (`Truth.merge`).

`Truth.ofClauses?` reads a flat list of clauses as a query does: the connector of
the first clause ties it to nothing, and `and` binds tighter than `or`.  If all
connectors but the first are the same then nothing hangs on this precedence, and
the list is the join of its values (`Truth.ofClauses?_led`).
-/
import WhereClause.Connector

namespace WhereClause

/-- The truth values of a query. -/
inductive Truth where
  | holds
  | fails
  | unknown
  deriving DecidableEq, Repr, Inhabited

namespace Truth

/-- Both of two conditions. -/
def and : Truth → Truth → Truth
  | fails, _ => fails
  | holds, t => t
  | unknown, fails => fails
  | unknown, _ => unknown

/-- One of two conditions, or both. -/
def or : Truth → Truth → Truth
  | holds, _ => holds
  | fails, t => t
  | unknown, holds => holds
  | unknown, _ => unknown

/-- Two conditions tied by a connector. -/
def tie : Connector → Truth → Truth → Truth
  | .and => and
  | .or => or

theorem tie_assoc (k : Connector) (s t u : Truth) : tie k (tie k s t) u = tie k s (tie k t u) := by
  cases k <;> cases s <;> cases t <;> cases u <;> rfl

/-! ### Absent conditions -/

/-- Two conditions tied by a connector, where an absent one does not count. -/
def merge (k : Connector) : Option Truth → Option Truth → Option Truth
  | none, t => t
  | some s, none => some s
  | some s, some t => some (tie k s t)

@[simp] theorem merge_none_left (k : Connector) (t : Option Truth) : merge k none t = t := rfl

@[simp] theorem merge_none_right (k : Connector) (t : Option Truth) : merge k t none = t := by
  cases t <;> rfl

theorem merge_assoc (k : Connector) (s t u : Option Truth) :
    merge k (merge k s t) u = merge k s (merge k t u) := by
  rcases s with - | s
  · rfl
  rcases t with - | t
  · rfl
  rcases u with - | u
  · rfl
  · exact congrArg some (tie_assoc k s t u)

/-- Some conditions tied by one connector. -/
def combine (k : Connector) : List Truth → Option Truth
  | [] => none
  | t :: rest => merge k (some t) (combine k rest)

theorem exists_combine_eq (k : Connector) {ts : List Truth} (h : ts ≠ []) :
    ∃ t, combine k ts = some t := by
  rcases ts with - | ⟨t, rest⟩
  · exact absurd rfl h
  · rcases hrest : combine k rest with - | u <;> simp [combine, hrest, merge]

theorem combine_append (k : Connector) (ts us : List Truth) :
    combine k (ts ++ us) = merge k (combine k ts) (combine k us) := by
  induction ts with
  | nil => rfl
  | cons t rest ih => simp only [List.cons_append, combine, ih, merge_assoc]

/-! ### Lists of clauses -/

/-- The value of the clauses that follow a run of clauses tied by `and`. -/
def afterRun (run : Truth) : List (Connector × Truth) → Truth
  | [] => run
  | (.and, t) :: rest => afterRun (run.and t) rest
  | (.or, t) :: rest => run.or (afterRun t rest)

/-- The value of a list of clauses, each with the connector that ties it to the
one before. -/
def ofClauses? : List (Connector × Truth) → Option Truth
  | [] => none
  | (_, t) :: rest => some (afterRun t rest)

/-- The clauses with some values, the first of them tied by `lead` and all others
by `around`. -/
def led (around lead : Connector) : List Truth → List (Connector × Truth)
  | [] => []
  | t :: rest => (lead, t) :: led around around rest

theorem led_append {around lead : Connector} {ts : List Truth} (h : ts ≠ []) (us : List Truth) :
    led around lead (ts ++ us) = led around lead ts ++ led around around us := by
  induction ts generalizing lead with
  | nil => exact absurd rfl h
  | cons t rest ih =>
      rcases rest with - | ⟨s, rest⟩
      · rfl
      · exact congrArg ((lead, t) :: ·) (ih (List.cons_ne_nil s rest))

theorem afterRun_led (k : Connector) (run : Truth) (ts : List Truth) :
    some (afterRun run (led k k ts)) = merge k (some run) (combine k ts) := by
  induction ts generalizing run with
  | nil => rfl
  | cons t rest ih =>
      rcases k with - | -
      -- the run goes on with `t`
      · show some (afterRun (run.and t) (led .and .and rest)) = _
        rw [ih (run.and t), combine, ← merge_assoc]
        rfl
      -- the run ends before `t`
      · show merge .or (some run) (some (afterRun t (led .or .or rest))) = _
        rw [ih t, combine]

/-- Clauses that are all tied by one connector are joined by it. -/
theorem ofClauses?_led (k lead : Connector) (ts : List Truth) :
    ofClauses? (led k lead ts) = combine k ts := by
  rcases ts with - | ⟨t, rest⟩
  · rfl
  · exact afterRun_led k t rest

end Truth

end WhereClause

/-
WhereClause/Work.lean

Work on a value that is changed in place.

A piece of work looks at the value, changes it step by step, and may be refused on
the way.  What was changed before a refusal stays changed, since nothing is ever
rolled back: an operation that is to leave the value alone when it is refused has
to make its checks before its changes.

A `Run` says how the value was left, what the work has found or why it ended early,
and how many steps were started.  `bind_of_ok` and `bind_of_error` say what two
pieces of work in a row come to.
-/
import WhereClause.Refusal

namespace WhereClause

/-- What a piece of work on a value comes to. -/
structure Run (σ α : Type) where
  /-- The value as the work left it. -/
  state : σ
  /-- What the work has found, or the reason why it ended early. -/
  result : Except Refusal α
  /-- The number of steps that were started. -/
  started : Nat

namespace Run

variable {σ τ α β : Type}

/-- The work on a part of a value, seen as work on the whole. -/
def map (whole : σ → τ) (r : Run σ α) : Run τ α :=
  ⟨whole r.state, r.result, r.started⟩

/-- Go on from where a run has come, unless it was refused. -/
def andThen (r : Run σ α) (next : α → σ → Run σ β) : Run σ β :=
  match r.result with
  | .ok a =>
      let s := next a r.state
      ⟨s.state, s.result, r.started + s.started⟩
  | .error reason => ⟨r.state, .error reason, r.started⟩

/-- The reason why the work ended early, if it did. -/
def refusal (r : Run σ α) : Option Refusal :=
  match r.result with
  | .ok _ => none
  | .error reason => some reason

end Run

/-- Work on a value of type `σ`, which finds something of type `α`. -/
structure Work (σ α : Type) where
  /-- What the work comes to on a value. -/
  on : σ → Run σ α

namespace Work

variable {σ τ α β : Type}

instance : Monad (Work σ) where
  pure a := ⟨fun s => ⟨s, .ok a, 0⟩⟩
  bind w next := ⟨fun s => (w.on s).andThen fun a s => (next a).on s⟩

/-- Look at the value. -/
def look : Work σ σ :=
  ⟨fun s => ⟨s, .ok s, 0⟩⟩

/-- Change the value. -/
def change (f : σ → σ) : Work σ Unit :=
  ⟨fun s => ⟨f s, .ok (), 0⟩⟩

/-- Go on with what a check has found, unless it refuses. -/
def demand (found : Except Refusal α) : Work σ α :=
  ⟨fun s => ⟨s, found, 0⟩⟩

/-- Count a step. -/
def count : Work σ Unit :=
  ⟨fun s => ⟨s, .ok (), 1⟩⟩

/-- Work on another value, which is there for this work only. -/
def aside (fresh : τ) (w : Work τ Unit) : Work σ τ :=
  ⟨fun s =>
    let r := w.on fresh
    ⟨s, r.result.map fun _ => r.state, r.started⟩⟩

/-- The same work, gone on with in spite of a refusal. -/
def tolerated (w : Work σ Unit) : Work σ Unit :=
  ⟨fun s =>
    let r := w.on s
    ⟨r.state, .ok (), r.started⟩⟩

/-! ### What the work comes to -/

@[simp] theorem on_look (s : σ) : (look : Work σ σ).on s = ⟨s, .ok s, 0⟩ := rfl

@[simp] theorem on_demand (found : Except Refusal α) (s : σ) :
    (demand found : Work σ α).on s = ⟨s, found, 0⟩ := rfl

variable {w : Work σ α} {next : α → Work σ β} {s t : σ} {started : Nat}

/-- The second of two pieces of work goes on from where the first one has come. -/
theorem bind_of_ok {a : α} (h : w.on s = ⟨t, .ok a, started⟩) :
    (w >>= next).on s =
      ⟨((next a).on t).state, ((next a).on t).result, started + ((next a).on t).started⟩ := by
  show (w.on s).andThen (fun a s => (next a).on s) = _
  rw [h]
  rfl

/-- A refusal ends the work, and the value stays as it was then. -/
theorem bind_of_error {reason : Refusal} (h : w.on s = ⟨t, .error reason, started⟩) :
    (w >>= next).on s = ⟨t, .error reason, started⟩ := by
  show (w.on s).andThen (fun a s => (next a).on s) = _
  rw [h]
  rfl

/-- How two pieces of work in a row leave the value. -/
theorem state_bind (w : Work σ α) (next : α → Work σ β) (s : σ) :
    ((w >>= next).on s).state =
      match (w.on s).result with
      | .ok a => ((next a).on (w.on s).state).state
      | .error _ => (w.on s).state := by
  rcases h : w.on s with ⟨t, result, started⟩
  cases result with
  | ok a => rw [bind_of_ok h]
  | error reason => rw [bind_of_error h]

/-- What two pieces of work in a row find. -/
theorem result_bind (w : Work σ α) (next : α → Work σ β) (s : σ) :
    ((w >>= next).on s).result =
      match (w.on s).result with
      | .ok a => ((next a).on (w.on s).state).result
      | .error reason => .error reason := by
  rcases h : w.on s with ⟨t, result, started⟩
  cases result with
  | ok a => rw [bind_of_ok h]
  | error reason => rw [bind_of_error h]

/-- After a look at the value the work goes on from the same value. -/
@[simp] theorem look_bind (next : σ → Work σ β) : (look >>= next).on s = (next s).on s := by
  rw [bind_of_ok (on_look s), Nat.zero_add]

/-- A step that is counted is one more, and the work goes on from the same value. -/
theorem count_bind (next : Unit → Work σ β) :
    (count >>= next).on s = { (next ()).on s with started := 1 + ((next ()).on s).started } :=
  rfl

/-- After a check the work goes on from the same value, unless it is refused. -/
theorem demand_bind (found : Except Refusal α) (next : α → Work σ β) :
    (demand found >>= next).on s =
      match found with
      | .ok a => (next a).on s
      | .error reason => ⟨s, .error reason, 0⟩ := by
  rcases found with reason | a
  · rw [bind_of_error (on_demand _ s)]
  · rw [bind_of_ok (on_demand _ s), Nat.zero_add]

/-- Work on another value leaves this one as it is, and its steps count. -/
theorem aside_bind (fresh : τ) (build : Work τ Unit) (next : τ → Work σ β) :
    (aside fresh build >>= next).on s =
      match (build.on fresh).result with
      | .ok () =>
          let r := (next (build.on fresh).state).on s
          ⟨r.state, r.result, (build.on fresh).started + r.started⟩
      | .error reason => ⟨s, .error reason, (build.on fresh).started⟩ := by
  show Run.andThen ⟨s, (build.on fresh).result.map fun _ => (build.on fresh).state,
    (build.on fresh).started⟩ (fun a s => (next a).on s) = _
  rcases (build.on fresh).result with reason | -
  · rfl
  · rfl

end Work

end WhereClause

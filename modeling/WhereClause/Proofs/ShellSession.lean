/-
WhereClause/Proofs/ShellSession.lean

A session at the shell is made of its accepted additions alone.

The lines of a session are misread or refused, show something, start over, or add a
comparison.  `Session.accepted` lists the additions since the last time that the session was
started over, leaving out those that came to nothing.  The filter of the session is what
these make of a new filter, and it is explained by their texts with the connector of the
second one between them (`Session.Stands`).

The key lemma is `Addition.work_on`.  It says what one more addition does to the filter of
others: it is refused, for its field or for its connector, or it comes last.
-/
import WhereClause.Proofs.Alike
import WhereClause.Shell.Session

namespace WhereClause

/-! ### Plain comparisons -/

/-- A comparison of a field with a value mentions this field only. -/
theorem Node.mentions_on (field : String) (operator : Operator) (value : Literal) :
    (Node.test (.on field operator (.value value))).mentions = [field] := by
  show [field] ++ ((if operator.takesValue then some (Operand.value value) else none).bind
    Operand.field?).toList = [field]
  split
  · rfl
  · rfl

/-- Comparisons are written one by one, without parentheses. -/
theorem Formula.termTexts_tests (around : Connector) (cs : List Comparison) :
    termTexts around (cs.map .test) = .ok (cs.map Comparison.explained) := by
  induction cs with
  | nil => rfl
  | cons c cs ih => exact termTexts_cons rfl rfl rfl ih

namespace Shell

/-! ### Additions -/

/-- A comparison that a line adds, with its connector. -/
structure Addition where
  connector : Connector
  field : String
  operator : Operator
  value : Literal

namespace Addition

variable {allowed : AllowList} {adds : List Addition} {a : Addition}

/-- The comparison that is added. -/
def comparison (a : Addition) : Comparison :=
  .on a.field a.operator (.value a.value)

/-- What an addition does to a filter. -/
def work (a : Addition) : Work Filter Unit :=
  Filter.compare a.connector a.field (.known a.operator) (.value a.value)

/-- Make additions in order until one is refused. -/
def inOrder : List Addition → Work Filter Unit
  | [] => return
  | a :: rest => do
      a.work
      inOrder rest

/-- The connector between additions, which is that of the second one. -/
def joiner : List Addition → Option Connector
  | _ :: second :: _ => some second.connector
  | _ => none

/-- The texts of additions with the connector between them. -/
def text (adds : List Addition) : String :=
  (" " ++ ((joiner adds).getD .and).text ++ " ").intercalate
    (adds.map fun a => a.comparison.explained)

/-- The reason for which an addition after others is refused, if it is: its field is not
allowed, or its connector is not the one between the others. -/
def refusal? (allowed : AllowList) (adds : List Addition) (a : Addition) : Option Refusal :=
  if allowed.allows a.field then
    match joiner adds with
    | some k => if k = a.connector then none else some (.conflict k a.connector)
    | none => none
  else some (.notAllowed a.field)

/-- The filter that additions make. -/
def filter (allowed : AllowList) (adds : List Addition) : Filter :=
  ⟨allowed, [], ⟨joiner adds, adds.map fun a => .test a.comparison⟩⟩

/-- The check of a connector for one more addition. -/
theorem check_filter (hallowed : allowed.allows a.field = true) :
    (filter allowed adds).condition.check (some a.connector) =
      match refusal? allowed adds a with
      | some reason => .error reason
      | none => .ok (joiner (adds ++ [a])) := by
  rw [refusal?, if_pos hallowed]
  rcases adds with - | ⟨first, - | ⟨second, rest⟩⟩
  · rfl
  · rfl
  · simp only [filter, joiner, Group.check, List.map_cons, List.isEmpty_cons, List.cons_append]
    by_cases h : second.connector = a.connector
    · simp [h]
    · simp [h]

/-- One more addition is refused, and then nothing has changed, or it comes last. -/
theorem work_on (allowed : AllowList) (adds : List Addition) (a : Addition) :
    a.work.on (filter allowed adds) =
      match refusal? allowed adds a with
      | some reason => ⟨filter allowed adds, .error reason, 0⟩
      | none => ⟨filter allowed (adds ++ [a]), .ok (), 0⟩ := by
  have hwork : a.work.on (filter allowed adds) =
      ((Group.append (.filter allowed) (.test a.comparison) (some a.connector)).on
        (filter allowed adds).condition).map (filter allowed adds).withCondition := by
    show ((Group.compare (.filter allowed) a.connector a.field (.known a.operator)
      (.value a.value)).on _).map _ = _
    rw [Group.compare_on]
    rfl
  have hsite : (Site.filter allowed).allowed = allowed := rfl
  rw [hwork, Group.append_on, comparison, Node.mentions_on, hsite, AllowList.check_singleton]
  rcases hallowed : allowed.allows a.field with - | -
  · have hrefusal : refusal? allowed adds a = some (.notAllowed a.field) := by
      rw [refusal?, hallowed]
      rfl
    rw [hrefusal]
    rfl
  · rw [check_filter hallowed]
    rcases refusal? allowed adds a with - | reason
    · show (⟨⟨allowed, [], ⟨joiner (adds ++ [a]), _⟩⟩, _, _⟩ : Run Filter Unit) =
        ⟨⟨allowed, [], ⟨joiner (adds ++ [a]), _⟩⟩, _, _⟩
      rw [List.map_append]
      rfl
    · rfl

/-- If none of some additions is refused then one more begins where they end. -/
theorem inOrder_concat {f : Filter} (h : ((inOrder adds).on f).result = .ok ()) (a : Addition) :
    ((inOrder (adds ++ [a])).on f).state = (a.work.on ((inOrder adds).on f).state).state ∧
      ((inOrder (adds ++ [a])).on f).result = (a.work.on ((inOrder adds).on f).state).result := by
  induction adds generalizing f with
  | nil =>
      show ((a.work >>= fun _ => inOrder []).on f).state = (a.work.on f).state ∧
        ((a.work >>= fun _ => inOrder []).on f).result = (a.work.on f).result
      rcases hrun : a.work.on f with ⟨g, reason | ⟨⟩, started⟩
      · rw [Work.bind_of_error hrun]
        exact ⟨rfl, rfl⟩
      · rw [Work.bind_of_ok hrun]
        exact ⟨rfl, rfl⟩
  | cons b adds ih =>
      rw [List.cons_append, inOrder, inOrder]
      rw [inOrder] at h
      rcases hrun : b.work.on f with ⟨g, reason | ⟨⟩, started⟩
      · rw [Work.bind_of_error hrun] at h
        cases h
      · rw [Work.bind_of_ok hrun] at h ⊢
        rw [Work.bind_of_ok hrun]
        exact ih h

/-! ### The text of additions -/

/-- The filter of additions is explained by their texts. -/
theorem explain_filter (allowed : AllowList) (adds : List Addition) :
    (filter allowed adds).explain = .ok (text adds) := by
  have hformula : (filter allowed adds).formula =
      .join (some .and) [.join (joiner adds) ((adds.map comparison).map .test)] := by
    rw [filter, Filter.formula_eq, Group.formula_eq, List.map_map, List.map_map]
    rfl
  have hjoiner : 2 ≤ ((adds.map comparison).map Comparison.explained).length →
      joiner adds = some ((joiner adds).getD .and) := by
    rw [List.length_map, List.length_map]
    intro hlength
    rcases adds with - | ⟨first, - | ⟨second, rest⟩⟩
    · exact absurd hlength (by decide)
    · exact absurd hlength (by simp)
    · rfl
  rw [Filter.explain, hformula, (Formula.alike_join_singleton _ _).explain_eq, Formula.explain,
    Formula.textWithin, Formula.termTexts_tests]
  show Formula.joinTerms (joiner adds) _ = .ok (text adds)
  rw [Formula.joinTerms_eq hjoiner, List.map_map]
  rfl

end Addition

/-! ### Sessions -/

namespace Session

/-- A session after some lines. -/
def after (s : Session) : List String → Session
  | [] => s
  | line :: rest => (s.answer line).1.after rest

/-- The additions that stand after a line: one more if the line added something and came to
something, and none if the session was started over. -/
def noted (s : Session) (adds : List Addition) (line : String) : List Addition :=
  match Command.ofLine line, (s.answer line).2.goesOn with
  | .ok (.add connector field operator value), .ok _ =>
      adds ++ [⟨connector, field, operator, value⟩]
  | .ok .reset, _ => []
  | _, _ => adds

/-- The additions that stand after some lines, if `adds` stood before them. -/
def accepted (s : Session) (adds : List Addition) : List String → List Addition
  | [] => adds
  | line :: rest => (s.answer line).1.accepted (s.noted adds line) rest

/-- A session in which some additions stand.  Its filter has their comparisons in its
condition; it is what they make of a new filter, where none of them is refused.  All but the
first have the connector that is between them, and the filter is explained by their texts. -/
structure Stands (config : Config) (adds : List Addition) (s : Session) : Prop where
  config_eq : s.config = config
  filter_eq : s.filter = Addition.filter config.allowList adds
  replayed : ((Addition.inOrder adds).on config.newFilter).state = s.filter
  none_refused : ((Addition.inOrder adds).on config.newFilter).result = .ok ()
  joined : ∀ a ∈ adds.tail, Addition.joiner adds = some a.connector
  explained : s.filter.explain = .ok (Addition.text adds)

variable {config : Config} {adds : List Addition} {s : Session} {a : Addition}

theorem stands_start (config : Config) : Stands config [] (start config) :=
  ⟨rfl, rfl, rfl, rfl, List.forall_mem_nil _, Addition.explain_filter config.allowList []⟩

/-- An addition that is not refused stands with the others. -/
theorem Stands.concat (h : Stands config adds s)
    (ha : Addition.refusal? config.allowList adds a = none) :
    Stands config (adds ++ [a]) ⟨config, Addition.filter config.allowList (adds ++ [a])⟩ := by
  obtain ⟨-, hfilter, hreplayed, hresult, hjoined, -⟩ := h
  obtain ⟨hstate', hresult'⟩ := Addition.inOrder_concat hresult a
  have hwork := Addition.work_on config.allowList adds a
  rw [ha] at hwork
  rw [hreplayed, hfilter, hwork] at hstate' hresult'
  refine ⟨rfl, rfl, hstate', hresult', ?_, Addition.explain_filter _ _⟩
  rcases adds with - | ⟨first, - | ⟨second, rest⟩⟩
  · exact List.forall_mem_nil _
  · intro b hb
    rw [List.mem_singleton.mp hb]
    rfl
  · intro b hb
    rcases List.mem_append.mp (show b ∈ (second :: rest) ++ [a] from hb) with hb | hb
    · exact hjoined b hb
    · -- the check of the connector has let the addition pass
      rw [List.mem_singleton.mp hb]
      rw [Addition.refusal?] at ha
      split at ha
      · simp only [Addition.joiner] at ha
        split at ha
        · next heq => exact congrArg some heq
        · cases ha
      · cases ha

/-- What a session in which some additions stand answers to a line. -/
theorem Stands.answer_eq (h : Stands config adds s) (line : String) :
    s.answer line =
      match Command.ofLine line with
      | .error reason => (s, ⟨[], .error (.misread reason)⟩)
      | .ok (.add connector field operator value) =>
          let a : Addition := ⟨connector, field, operator, value⟩
          match a.refusal? config.allowList adds with
          | some reason => (s, ⟨[], .error (.refused reason)⟩)
          | none =>
              (⟨config, Addition.filter config.allowList (adds ++ [a])⟩,
                .print (Addition.text (adds ++ [a])))
      | .ok .explain => (s, .print (Addition.text adds))
      | .ok .sql => (s, .ofText (s.config.compile s.filter.formula))
      | .ok .reset => (start config, .print "filter cleared")
      | .ok .help => (s, .print helpText)
      | .ok .quit => (s, ⟨[], .ok false⟩) := by
  rw [answer]
  rcases Command.ofLine line with reason | command
  · rfl
  · cases command with
    | add connector field operator value =>
        have hwork := Addition.work_on config.allowList adds ⟨connector, field, operator, value⟩
        rw [← h.filter_eq] at hwork
        have hcompare : (Filter.compare connector field (.known operator) (.value value)).on
            s.filter = _ := hwork
        simp only [execute, hcompare]
        rcases Addition.refusal? config.allowList adds ⟨connector, field, operator, value⟩ with
          - | reason
        · simp only [Addition.explain_filter, h.config_eq]
          rfl
        · rfl
    | explain =>
        show (s, Reply.ofText s.filter.explain) = (s, .print (Addition.text adds))
        rw [h.explained]
        rfl
    | sql => rfl
    | reset =>
        show (({ s with filter := s.config.newFilter } : Session), Reply.print "filter cleared") = _
        rw [h.config_eq]
        rfl
    | help => rfl
    | quit => rfl

/-- After a line those additions stand that are noted then. -/
theorem Stands.answer (h : Stands config adds s) (line : String) :
    Stands config (s.noted adds line) (s.answer line).1 := by
  have hanswer := h.answer_eq line
  rw [noted]
  rcases hline : Command.ofLine line with reason | command
  · rw [hline] at hanswer
    rw [hanswer]
    exact h
  · rw [hline] at hanswer
    cases command with
    | add connector field operator value =>
        simp only at hanswer
        rcases hrefusal : Addition.refusal? config.allowList adds
          ⟨connector, field, operator, value⟩ with - | reason
        · rw [hrefusal] at hanswer
          rw [hanswer]
          exact h.concat hrefusal
        · rw [hrefusal] at hanswer
          rw [hanswer]
          exact h
    | reset =>
        rw [hanswer]
        exact stands_start config
    | explain | sql | help | quit =>
        rw [hanswer]
        exact h

/-- After any lines those additions stand that were accepted. -/
theorem Stands.after (h : Stands config adds s) (lines : List String) :
    Stands config (s.accepted adds lines) (s.after lines) := by
  induction lines generalizing adds s with
  | nil => exact h
  | cons line rest ih => exact ih (h.answer line)

/-- How a session in which some additions stand answers a line.  The session is as before if
the line came to nothing or only asked for something, and it is new after a reset.  What is
shown are the texts of the additions, and one more addition is shown with them unless its
field or its connector is refused. -/
structure Answers (config : Config) (adds : List Addition) (s : Session) (line : String) : Prop where
  unchanged_of_fault : ∀ fault, (s.answer line).2.goesOn = .error fault → (s.answer line).1 = s
  unchanged_of_asked : ∀ command ∈ [Command.explain, .sql, .help, .quit],
    Command.ofLine line = .ok command → (s.answer line).1 = s
  reset : Command.ofLine line = .ok .reset → (s.answer line).1 = start config
  explain : Command.ofLine line = .ok .explain →
    (s.answer line).2 = .print (Addition.text adds)
  add : ∀ connector field operator value,
    Command.ofLine line = .ok (.add connector field operator value) →
      match Addition.refusal? config.allowList adds ⟨connector, field, operator, value⟩ with
      | some reason => (s.answer line).2 = ⟨[], .error (.refused reason)⟩
      | none => (s.answer line).2 =
          .print (Addition.text (adds ++ [⟨connector, field, operator, value⟩]))

theorem Stands.answers (h : Stands config adds s) (line : String) :
    s.Answers config adds line := by
  have hanswer := h.answer_eq line
  refine ⟨?_, ?_, ?_, ?_, ?_⟩
  · intro fault hfault
    rcases hline : Command.ofLine line with reason | command
    · rw [hline] at hanswer
      rw [hanswer]
    · rw [hline] at hanswer
      cases command with
      | add connector field operator value =>
          simp only at hanswer
          split at hanswer
          · rw [hanswer]
          · rw [hanswer] at hfault
            cases hfault
      | reset =>
          rw [hanswer] at hfault
          cases hfault
      | explain | sql | help | quit => rw [hanswer]
  · intro command hcommand hline
    rw [hline] at hanswer
    simp only [List.mem_cons, List.not_mem_nil, or_false] at hcommand
    rcases hcommand with rfl | rfl | rfl | rfl
    all_goals rw [hanswer]
  · intro hline
    rw [hline] at hanswer
    rw [hanswer]
  · intro hline
    rw [hline] at hanswer
    rw [hanswer]
  · intro connector field operator value hline
    rw [hline] at hanswer
    simp only at hanswer
    split at hanswer
    · rw [hanswer]
    · rw [hanswer]

/-- After any lines a session is what its accepted additions since the last reset make of a
new filter, in their order, and it is explained by their texts with the connector of the
second one between them.  Whatever line comes next: one that comes to nothing or asks for
something leaves the filter as it is, a reset leaves a new filter, and an addition is
accepted unless its field is not allowed or its connector is another one than that of the
second accepted addition. -/
theorem session_of_accepted (config : Config) (lines : List String) :
    Stands config ((start config).accepted [] lines) ((start config).after lines) ∧
      ∀ line, ((start config).after lines).Answers config ((start config).accepted [] lines)
        line := by
  have hstands := (stands_start config).after lines
  exact ⟨hstands, hstands.answers⟩

end Session

end Shell

end WhereClause

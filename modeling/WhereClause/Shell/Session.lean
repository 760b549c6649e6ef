/-
WhereClause/Shell/Session.lean

A session at the shell: one filter under one configuration, changed and shown
line by line.

Every line gets a `Reply`: what it printed, and whether the session goes on or
why the line was refused.  A refused line leaves the filter as it was.
-/
import WhereClause.Config
import WhereClause.Explain
import WhereClause.Shell.Command

namespace WhereClause.Shell

/-- The state of a session. -/
structure Session where
  config : Config
  filter : Filter

/-- The reasons for which a line comes to nothing. -/
inductive Fault where
  | misread (reason : Misread)
  | refused (reason : Refusal)
  deriving DecidableEq, Repr

/-- The message of a fault. -/
def Fault.message : Fault → String
  | misread reason => reason.message
  | refused reason => reason.message

/-- The answer to a line. -/
structure Reply where
  printed : List String
  /-- Whether the session goes on, unless the line came to nothing. -/
  goesOn : Except Fault Bool

namespace Reply

/-- A text is printed and the session goes on. -/
def print (text : String) : Reply :=
  ⟨[text], .ok true⟩

/-- Print a text, unless making it was refused. -/
def ofText : Except Refusal String → Reply
  | .ok text => print text
  | .error reason => ⟨[], .error (.refused reason)⟩

end Reply

/-- The text that `:help` prints. -/
def helpText : String :=
  "输入格式: [or] <字段> <运算符> <JSON值>\n" ++
  "  status = \"open\"\n" ++
  "  or priority >= 3\n" ++
  "  tag in [\"a\", \"b\"]\n" ++
  "  owner is null\n" ++
  "命令:\n" ++
  "  :explain  显示当前过滤条件\n" ++
  "  :sql      显示生成的 SQL\n" ++
  "  :reset    清空过滤条件\n" ++
  "  :help     显示帮助\n" ++
  "  :quit     退出"

namespace Session

/-- A session at its start. -/
def start (config : Config) : Session :=
  ⟨config, config.newFilter⟩

/-- Carry out a command. -/
def execute (s : Session) : Command → Session × Reply
  | .add connector field operator value =>
      let r := (Filter.compare connector field (.known operator) (.value value)).on s.filter
      let reply :=
        match r.result with
        | .ok () => .ofText r.state.explain
        | .error reason => ⟨[], .error (.refused reason)⟩
      ({ s with filter := r.state }, reply)
  | .explain => (s, .ofText s.filter.explain)
  | .sql => (s, .ofText (s.config.compile s.filter.formula))
  | .reset => ({ s with filter := s.config.newFilter }, .print "filter cleared")
  | .help => (s, .print helpText)
  | .quit => (s, ⟨[], .ok false⟩)

/-- Answer a line. -/
def answer (s : Session) (line : String) : Session × Reply :=
  match Command.ofLine line with
  | .ok command => s.execute command
  | .error reason => (s, ⟨[], .error (.misread reason)⟩)

end Session

end WhereClause.Shell

/-
WhereClause/Proofs/Lexing.lean

The lexemes of a statement.

`lex` cuts a text into lexemes by the rules of a dialect.  It reads one character after the
other; a `Mode` says what it is in the middle of.  A name stands in the quotes of the dialect,
and such a quote inside is doubled.  A string constant stands in single quotes, which may be
doubled too.  In MySQL, and in PostgreSQL if there is an `E` before the first quote, a backslash
takes the next character with it.  A text that breaks off within quotes has no lexemes, and
neither has one in which a comment is opened.  Forms that no statement is written with, like
names in brackets and quotes that begin with a dollar sign, are left out.

`Select.lex_text` says that the pieces of a statement are lexed one by one: a quoted name is
one lexeme, so is a quoted text, whatever is in it, and no lexeme goes on from one piece to the
next.  What a piece leaves the lexer in has to be ended by what is ahead (`Mode.Settles`).  So
most pieces ask for a break behind them (`Lexes`), and those that come behind such a piece begin
with one (`Follows`).
-/
import WhereClause.Proofs.JsonText
import WhereClause.Proofs.Statement

namespace WhereClause.Sql

/-! ### Lexemes -/

/-- The kinds of lexemes. -/
inductive Kind where
  | word
  | number
  | sign
  | name
  | text
  deriving DecidableEq, Repr

/-- A lexeme as it stands in a statement, its quotes included. -/
structure Lexeme where
  kind : Kind
  text : String
  deriving DecidableEq, Repr

/-- What a lexer is in the middle of, with the characters read so far. -/
inductive Mode where
  | between
  | word (soFar : List Char)
  | number (soFar : List Char)
  | sign (first : Char)
  /-- Within quotes, where backslashes may have a meaning. -/
  | quoted (kind : Kind) (quote : Char) (escapes : Bool) (soFar : List Char)
  /-- Within quotes and behind a backslash. -/
  | escape (kind : Kind) (quote : Char) (soFar : List Char)
  /-- Behind a quote, which is the last one unless another one follows. -/
  | closing (kind : Kind) (quote : Char) (escapes : Bool) (soFar : List Char)
  | comment
  deriving DecidableEq, Repr

/-- A blank between lexemes. -/
def isSpace (c : Char) : Bool :=
  c == ' ' || c == '\t' || c == '\n' || c == '\r' || c == '\x0b' || c == '\x0c'

/-- A character of a keyword, or of a name that is not quoted. -/
def isWordChar (c : Char) : Bool :=
  c.isAlphanum || c == '_' || 0x80 ≤ c.toNat

/-- A character of a number. -/
def isNumberChar (c : Char) : Bool :=
  c.isDigit || c == '.'

/-- Two characters that are one sign. -/
def isPair (a b : Char) : Bool :=
  (a, b) ∈ [('<', '='), ('<', '>'), ('>', '='), ('!', '=')]

/-- Two characters with which a comment begins. -/
def opensComment (a b : Char) : Bool :=
  (a, b) ∈ [('-', '-'), ('/', '*')]

/-- What a lexer gets into with the first character of a lexeme. -/
def Mode.start (d : Dialect) (c : Char) : Mode :=
  if isSpace c then .between
  else if c = d.nameQuote then .quoted .name c false [c]
  else if c = '\'' ∨ c = '"' then .quoted .text c (d == .mysql) [c]
  else if c = '#' ∧ d = .mysql then .comment
  else if c.isDigit then .number [c]
  else if isWordChar c then .word [c]
  else .sign c

/-- The lexemes that end before a character, and what the lexer is in behind it. -/
def Mode.next (d : Dialect) (c : Char) : Mode → List Lexeme × Mode
  | between => ([], start d c)
  | word soFar =>
      if c = '\'' ∧ d = .postgres ∧ (soFar = ['E'] ∨ soFar = ['e']) then
        ([], quoted .text c true (soFar ++ [c]))
      else if isWordChar c then ([], word (soFar ++ [c]))
      else ([⟨.word, String.ofList soFar⟩], start d c)
  | number soFar =>
      if isNumberChar c then ([], number (soFar ++ [c]))
      else ([⟨.number, String.ofList soFar⟩], start d c)
  | sign first =>
      if opensComment first c then ([], comment)
      else if isPair first c then ([⟨.sign, String.ofList [first, c]⟩], between)
      else ([⟨.sign, String.ofList [first]⟩], start d c)
  | quoted kind quote escapes soFar =>
      if escapes ∧ c = '\\' then ([], escape kind quote (soFar ++ [c]))
      else if c = quote then ([], closing kind quote escapes (soFar ++ [c]))
      else ([], quoted kind quote escapes (soFar ++ [c]))
  | escape kind quote soFar => ([], quoted kind quote true (soFar ++ [c]))
  | closing kind quote escapes soFar =>
      if c = quote then ([], quoted kind quote escapes (soFar ++ [c]))
      else ([⟨kind, String.ofList soFar⟩], start d c)
  | comment => ([], comment)

/-- The lexeme that ends with the text, if the text may end here. -/
def Mode.last : Mode → Option (List Lexeme)
  | between => some []
  | word soFar => some [⟨.word, String.ofList soFar⟩]
  | number soFar => some [⟨.number, String.ofList soFar⟩]
  | sign first => some [⟨.sign, String.ofList [first]⟩]
  | closing kind _ _ soFar => some [⟨kind, String.ofList soFar⟩]
  | quoted .. | escape .. | comment => none

/-- The lexemes that end within some characters, and what the lexer is in behind them. -/
def Mode.run (d : Dialect) (mode : Mode) : List Char → List Lexeme × Mode
  | [] => ([], mode)
  | c :: cs =>
      let (done, after) := mode.next d c
      let (later, final) := after.run d cs
      (done ++ later, final)

/-- The lexemes of the rest of a text. -/
def Mode.lexemes (d : Dialect) (mode : Mode) (cs : List Char) : Option (List Lexeme) :=
  let (done, final) := mode.run d cs
  final.last.map (done ++ ·)

/-- The lexemes of a text in a dialect. -/
def lex (d : Dialect) (s : String) : Option (List Lexeme) :=
  Mode.between.lexemes d s.toList

/-- A quote is doubled in one dialect, and behind a backslash in another one. -/
example : lex .sqlite "\"a\"\"\" = '\\'''" =
    some [⟨.name, "\"a\"\"\""⟩, ⟨.sign, "="⟩, ⟨.text, "'\\'''"⟩] := by
  decide +kernel

/-- A character is written with a backslash before a letter, or stands for itself. -/
theorem Dialect.escapeChar_cases (c : Char) :
    (∃ letter, escapeChar c = ['\\', letter]) ∨ escapeChar c = [c] ∧ c ≠ '\'' ∧ c ≠ '\\' := by
  unfold escapeChar
  split
  all_goals first
    | exact .inl ⟨_, rfl⟩
    | exact .inr ⟨rfl, by assumption, by assumption⟩

/-! ### Running on -/

namespace Mode

variable {d : Dialect} {mode final : Mode} {c : Char} {cs rest : List Char} {done : List Lexeme}

theorem run_cons (mode : Mode) (c : Char) (cs : List Char) :
    mode.run d (c :: cs) =
      ((mode.next d c).1 ++ ((mode.next d c).2.run d cs).1, ((mode.next d c).2.run d cs).2) :=
  rfl

theorem run_append (mode : Mode) (cs rest : List Char) :
    mode.run d (cs ++ rest) =
      ((mode.run d cs).1 ++ ((mode.run d cs).2.run d rest).1,
        ((mode.run d cs).2.run d rest).2) := by
  induction cs generalizing mode with
  | nil => rfl
  | cons c cs ih => rw [List.cons_append, run_cons, run_cons, ih, List.append_assoc]

theorem run_append_of_eq (h : mode.run d cs = (done, final)) (rest : List Char) :
    mode.run d (cs ++ rest) = (done ++ (final.run d rest).1, (final.run d rest).2) := by
  rw [run_append, h]

theorem lexemes_append (h : mode.run d cs = (done, final)) (rest : List Char) :
    mode.lexemes d (cs ++ rest) = (final.lexemes d rest).map (done ++ ·) := by
  show (mode.run d (cs ++ rest)).2.last.map _ = ((final.run d rest).2.last.map _).map _
  rw [run_append_of_eq h, Option.map_map]
  exact congrArg (Option.map · _) (funext fun ls => List.append_assoc _ _ _)

theorem lexemes_nil (mode : Mode) : mode.lexemes d [] = mode.last := by
  show mode.last.map ([] ++ ·) = mode.last
  simp

theorem lexemes_cons (mode : Mode) (c : Char) (cs : List Char) :
    mode.lexemes d (c :: cs) = ((mode.next d c).2.lexemes d cs).map ((mode.next d c).1 ++ ·) := by
  have hrun : mode.run d [c] = mode.next d c := by
    rw [run_cons]
    simp [run]
  exact lexemes_append hrun cs

end Mode

/-! ### What a lexeme is ended by -/

/-- A text has nothing at its head that is not as `p` says. -/
def Ahead (p : Char → Bool) (rest : List Char) : Prop :=
  ∀ c ∈ rest.head?, p c = true

/-- A character that ends a lexeme, whatever the lexeme is. -/
def isBreak (c : Char) : Bool :=
  c == ' ' || c == ')' || c == ','

theorem isBreak_cases {c : Char} (h : isBreak c = true) : c = ' ' ∨ c = ')' ∨ c = ',' := by
  simpa [isBreak, or_assoc] using h

/-- Any character. -/
def isAny (_ : Char) : Bool :=
  true

theorem ahead_isAny (rest : List Char) : Ahead isAny rest :=
  fun _ _ => rfl

namespace Mode

/-- Some lexemes end with the text, and also before each character that is as `p` says. -/
def Settles (d : Dialect) (p : Char → Bool) (mode : Mode) (pending : List Lexeme) : Prop :=
  mode.last = some pending ∧ ∀ c, p c = true → mode.next d c = (pending, start d c)

variable {d : Dialect} {p : Char → Bool} {mode final : Mode} {c : Char} {cs rest : List Char}
  {done pending : List Lexeme}

theorem Settles.lexemes (h : mode.Settles d p pending) (hrest : Ahead p rest) :
    mode.lexemes d rest = (between.lexemes d rest).map (pending ++ ·) := by
  rcases rest with - | ⟨c, cs⟩
  · rw [lexemes_nil, lexemes_nil, h.1]
    exact congrArg some (List.append_nil pending).symm
  · rw [lexemes_cons, lexemes_cons, h.2 c (hrest c rfl)]
    simp [next]

theorem settles_between : between.Settles d p [] :=
  ⟨rfl, fun _ _ => rfl⟩

/-- An opening parenthesis is a sign, and never a part of a longer one. -/
theorem settles_parenthesis : (sign '(').Settles d isAny [⟨.sign, "("⟩] := by
  refine ⟨rfl, fun c _ => ?_⟩
  have hsecond : opensComment '(' c = false ∧ isPair '(' c = false := by
    simp [opensComment, isPair]
  rw [next, hsecond.1, hsecond.2]
  rfl

theorem settles_word (soFar : List Char) :
    (word soFar).Settles d isBreak [⟨.word, String.ofList soFar⟩] := by
  refine ⟨rfl, fun c hc => ?_⟩
  rcases isBreak_cases hc with rfl | rfl | rfl <;> rfl

theorem settles_number (soFar : List Char) :
    (number soFar).Settles d isBreak [⟨.number, String.ofList soFar⟩] := by
  refine ⟨rfl, fun c hc => ?_⟩
  rcases isBreak_cases hc with rfl | rfl | rfl <;> rfl

theorem settles_sign (first : Char) :
    (sign first).Settles d isBreak [⟨.sign, String.ofList [first]⟩] := by
  refine ⟨rfl, fun c hc => ?_⟩
  have hsecond : opensComment first c = false ∧ isPair first c = false := by
    rcases isBreak_cases hc with rfl | rfl | rfl <;> simp [opensComment, isPair]
  rw [next, hsecond.1, hsecond.2]
  rfl

theorem settles_closing {kind : Kind} {quote : Char} {escapes : Bool} (soFar : List Char)
    (hquote : isBreak quote = false) :
    (closing kind quote escapes soFar).Settles d isBreak [⟨kind, String.ofList soFar⟩] := by
  refine ⟨rfl, fun c hc => ?_⟩
  have hne : c ≠ quote := by
    rintro rfl
    rw [hquote] at hc
    cases hc
  rw [next, if_neg hne]

/-- Whether nothing is begun, or a lexeme without quotes. -/
def isBare : Mode → Bool
  | between | word _ | number _ | sign _ => true
  | quoted .. | escape .. | closing .. | comment => false

theorem exists_settles_of_isBare (h : mode.isBare = true) :
    ∃ pending, mode.Settles d isBreak pending := by
  cases mode with
  | between => exact ⟨_, settles_between⟩
  | word soFar => exact ⟨_, settles_word soFar⟩
  | number soFar => exact ⟨_, settles_number soFar⟩
  | sign first => exact ⟨_, settles_sign first⟩
  | quoted | escape | closing | comment => cases h

/-! ### Quoted characters -/

section Quoted

variable {kind : Kind} {quote : Char} {escapes : Bool}

/-- Characters stay within quotes if what is written for each of them does. -/
theorem run_quoted_flatMap {written : Char → List Char} (h : ∀ c ∈ cs, ∀ soFar,
      (quoted kind quote escapes soFar).run d (written c) =
        ([], quoted kind quote escapes (soFar ++ written c))) (soFar : List Char) :
    (quoted kind quote escapes soFar).run d (cs.flatMap written) =
      ([], quoted kind quote escapes (soFar ++ cs.flatMap written)) := by
  induction cs generalizing soFar with
  | nil => simp [run]
  | cons c cs ih =>
      obtain ⟨hc, hcs⟩ := List.forall_mem_cons.mp h
      rw [List.flatMap_cons, run_append_of_eq (hc soFar), ih hcs, List.append_assoc,
        List.append_nil]

theorem run_quoted_singleton (hquote : c ≠ quote) (hescape : ¬(escapes ∧ c = '\\'))
    (soFar : List Char) :
    (quoted kind quote escapes soFar).run d [c] =
      ([], quoted kind quote escapes (soFar ++ [c])) := by
  rw [run_cons, next, if_neg hescape, if_neg hquote]
  rfl

/-- A doubled quote is within quotes. -/
theorem run_doubled (soFar : List Char) (cs : List Char) :
    (quoted kind quote false soFar).run d (Dialect.doubled quote cs) =
      ([], quoted kind quote false (soFar ++ Dialect.doubled quote cs)) := by
  refine run_quoted_flatMap (fun c _ soFar => ?_) soFar
  split
  · next hc =>
      subst hc
      simp [run, next]
  · next hc => exact run_quoted_singleton hc (fun h => Bool.false_ne_true h.1) soFar

/-- An escape is within quotes. -/
theorem run_escaped (soFar : List Char) (cs : List Char) :
    (quoted kind '\'' true soFar).run d (cs.flatMap Dialect.escapeChar) =
      ([], quoted kind '\'' true (soFar ++ cs.flatMap Dialect.escapeChar)) := by
  refine run_quoted_flatMap (fun c _ soFar => ?_) soFar
  rcases Dialect.escapeChar_cases c with ⟨letter, hescape⟩ | ⟨hescape, hquote, hbackslash⟩
  · rw [hescape]
    simp [run, next]
  · rw [hescape]
    exact run_quoted_singleton hquote (fun h => hbackslash h.2) soFar

/-- A text that needs no escapes is within quotes even where there are none. -/
theorem run_unescaped (soFar : List Char) {cs : List Char}
    (h : '\\' ∉ cs.flatMap Dialect.escapeChar) :
    (quoted kind '\'' false soFar).run d (cs.flatMap Dialect.escapeChar) =
      ([], quoted kind '\'' false (soFar ++ cs.flatMap Dialect.escapeChar)) := by
  refine run_quoted_flatMap (fun c hc soFar => ?_) soFar
  rcases Dialect.escapeChar_cases c with ⟨letter, hescape⟩ | ⟨hescape, hquote, -⟩
  · -- an escape would have put a backslash into the text
    refine absurd (List.mem_flatMap.mpr ⟨c, hc, ?_⟩) h
    rw [hescape]
    exact List.mem_cons_self
  · rw [hescape]
    exact run_quoted_singleton hquote (fun h => Bool.false_ne_true h.1) soFar

/-- The last quote is taken for the last one as long as nothing follows. -/
theorem run_closing (opened : List Char) {body : List Char}
    (hstart : mode.run d opened = ([], quoted kind quote escapes opened))
    (hbody : (quoted kind quote escapes opened).run d body =
      ([], quoted kind quote escapes (opened ++ body)))
    (hquote : quote ≠ '\\') :
    mode.run d (opened ++ body ++ [quote]) =
      ([], closing kind quote escapes (opened ++ body ++ [quote])) := by
  rw [List.append_assoc, run_append_of_eq hstart, run_append_of_eq hbody, run_cons, next,
    if_neg fun h => hquote h.2, if_pos rfl]
  simp [run]

end Quoted

/-! ### Digits -/

/-- A digit or a point goes on with a lexeme, or with one that is not quoted. -/
theorem isBare_next_of_isNumberChar (h : mode.isBare = true) (hc : isNumberChar c = true) :
    (mode.next d c).2.isBare = true := by
  -- no quote is opened, and no comment: none of their characters is one of a number
  have hne : ∀ e, isNumberChar e = false → c ≠ e := by
    rintro e he rfl
    rw [hc] at he
    cases he
  have hstart : (start d c).isBare = true := by
    have hname : c ≠ d.nameQuote := hne _ (by cases d <;> rfl)
    have hquote : ¬(c = '\'' ∨ c = '"') := not_or_intro (hne '\'' rfl) (hne '"' rfl)
    have hcomment : ¬(c = '#' ∧ d = .mysql) := fun h => hne '#' rfl h.1
    rw [start, if_neg hname, if_neg hquote, if_neg hcomment]
    split_ifs <;> rfl
  cases mode with
  | between => exact hstart
  | word soFar =>
      rw [next, if_neg fun h => hne '\'' rfl h.1]
      split
      · rfl
      · exact hstart
  | number soFar =>
      rw [next, if_pos hc]
      rfl
  | sign first =>
      have hcomment : opensComment first c = false := by
        simp [opensComment, hne '-' rfl, hne '*' rfl]
      rw [next, hcomment, if_neg Bool.false_ne_true]
      split
      · rfl
      · exact hstart
  | quoted | escape | closing | comment => cases h

theorem isBare_run_of_isNumberChar (h : mode.isBare = true)
    (hcs : ∀ c ∈ cs, isNumberChar c = true) : (mode.run d cs).2.isBare = true := by
  induction cs generalizing mode with
  | nil => exact h
  | cons c cs ih =>
      rw [List.forall_mem_cons] at hcs
      exact ih (isBare_next_of_isNumberChar h hcs.1) hcs.2

end Mode

/-! ### Pieces -/

/-- The lexemes of a piece that stands alone. -/
def Piece.lexemes (d : Dialect) : Piece → List Lexeme
  | name s => [⟨.name, d.quoteName s⟩]
  | quoted s => [⟨.text, d.quoteText s⟩]
  | plain s => (lex d s).getD []

/-- The characters of some pieces. -/
def chars (d : Dialect) (pieces : List Piece) : List Char :=
  pieces.flatMap fun piece => (piece.text d).toList

/-- Some pieces are lexed one by one if what is ahead of them is as `p` says. -/
def Lexes (d : Dialect) (p : Char → Bool) (pieces : List Piece) : Prop :=
  ∀ rest, Ahead p rest → Mode.between.lexemes d (chars d pieces ++ rest) =
    (Mode.between.lexemes d rest).map (pieces.flatMap (Piece.lexemes d) ++ ·)

/-- Some pieces are lexed one by one, and they begin with a break if there is one ahead of
them. -/
structure Follows (d : Dialect) (pieces : List Piece) : Prop where
  lexes : Lexes d isBreak pieces
  ahead : ∀ rest, Ahead isBreak rest → Ahead isBreak (chars d pieces ++ rest)

section Pieces

variable {d : Dialect} {p q : Char → Bool} {piece : Piece} {ps qs : List Piece} {s : String}

theorem chars_append (d : Dialect) (ps qs : List Piece) :
    chars d (ps ++ qs) = chars d ps ++ chars d qs :=
  List.flatMap_append

theorem chars_singleton (d : Dialect) (piece : Piece) : chars d [piece] = (piece.text d).toList :=
  List.flatMap_singleton _ _

theorem lexes_nil : Lexes d p [] := by
  intro rest _
  show Mode.between.lexemes d rest = (Mode.between.lexemes d rest).map ([] ++ ·)
  simp

theorem Lexes.append (hp : Lexes d p ps) (hq : Lexes d q qs)
    (hahead : ∀ rest, Ahead q rest → Ahead p (chars d qs ++ rest)) : Lexes d q (ps ++ qs) := by
  intro rest hrest
  rw [chars_append, List.append_assoc, hp _ (hahead rest hrest), hq rest hrest,
    List.flatMap_append, Option.map_map]
  exact congrArg (Option.map · _) (funext fun ls => (List.append_assoc _ _ _).symm)

theorem Lexes.lead (hp : Lexes d isAny ps) (hq : Lexes d q qs) : Lexes d q (ps ++ qs) :=
  hp.append hq fun _ _ => ahead_isAny _

theorem Lexes.append_follows (hp : Lexes d isBreak ps) (hq : Follows d qs) :
    Lexes d isBreak (ps ++ qs) :=
  hp.append hq.lexes hq.ahead

theorem follows_nil : Follows d [] :=
  ⟨lexes_nil, fun _ hrest => hrest⟩

theorem Follows.append (hp : Follows d ps) (hq : Follows d qs) : Follows d (ps ++ qs) := by
  refine ⟨hp.lexes.append_follows hq, fun rest hrest => ?_⟩
  rw [chars_append, List.append_assoc]
  exact hp.ahead _ (hq.ahead rest hrest)

/-- Pieces follow others if they begin with a break. -/
theorem Lexes.follows (h : Lexes d isBreak (.plain s :: ps))
    (hs : s.toList.head?.any isBreak = true) : Follows d (.plain s :: ps) := by
  refine ⟨h, fun rest _ => ?_⟩
  show Ahead isBreak (s.toList ++ chars d ps ++ rest)
  rcases hlist : s.toList with - | ⟨c, cs⟩
  · rw [hlist] at hs
    cases hs
  · rw [hlist] at hs
    rintro _ ⟨⟩
    exact hs

/-- A piece is a row of lexemes if the lexer ends it with what it has read. -/
theorem lexes_of_run {done pending : List Lexeme} {final : Mode}
    (h : Mode.between.run d (piece.text d).toList = (done, final))
    (hfinal : final.Settles d p pending) (heq : done ++ pending = piece.lexemes d) :
    Lexes d p [piece] := by
  intro rest hrest
  rw [chars_singleton, Mode.lexemes_append h, hfinal.lexemes hrest, List.flatMap_singleton, ← heq,
    Option.map_map]
  exact congrArg (Option.map · _) (funext fun ls => (List.append_assoc _ _ _).symm)

theorem lexes_plain_of_settles {pending : List Lexeme}
    (h : (Mode.between.run d s.toList).2.Settles d p pending) : Lexes d p [.plain s] := by
  refine lexes_of_run rfl h ?_
  show _ = ((Mode.between.run d s.toList).2.last.map _).getD []
  rw [h.1]
  rfl

/-- A plain piece has its own lexemes if all of them are bare. -/
theorem lexes_plain (h : (Mode.between.run d s.toList).2.isBare = true) :
    Lexes d isBreak [.plain s] := by
  obtain ⟨pending, hsettles⟩ := Mode.exists_settles_of_isBare h
  exact lexes_plain_of_settles hsettles

/-- A plain piece that ends in a blank leads any other one. -/
theorem lexes_plain_blank (h : (Mode.between.run d s.toList).2 = .between) :
    Lexes d isAny [.plain s] := by
  have hsettles : (Mode.between.run d s.toList).2.Settles d isAny [] := by
    rw [h]
    exact Mode.settles_between
  exact lexes_plain_of_settles hsettles

theorem lexes_plain_parenthesis (h : (Mode.between.run d s.toList).2 = .sign '(') :
    Lexes d isAny [.plain s] := by
  have hsettles : (Mode.between.run d s.toList).2.Settles d isAny [⟨.sign, "("⟩] := by
    rw [h]
    exact Mode.settles_parenthesis
  exact lexes_plain_of_settles hsettles

/-! ### Names and texts -/

/-- A piece in quotes is one lexeme if its last quote is the first one that closes. -/
theorem lexes_of_closing {kind : Kind} {quote : Char} {escapes : Bool}
    (h : Mode.between.run d (piece.text d).toList =
      ([], .closing kind quote escapes (piece.text d).toList))
    (hquote : isBreak quote = false) (heq : piece.lexemes d = [⟨kind, piece.text d⟩]) :
    Lexes d isBreak [piece] := by
  refine lexes_of_run h (Mode.settles_closing _ hquote) ?_
  rw [heq, String.ofList_toList, List.nil_append]

/-- A quoted name is one lexeme. -/
theorem lexes_name (s : String) : Lexes d isBreak [.name s] := by
  have hquote : isBreak d.nameQuote = false ∧ d.nameQuote ≠ '\\' := by
    cases d <;> decide
  have hstart : Mode.between.run d [d.nameQuote] =
      ([], .quoted .name d.nameQuote false [d.nameQuote]) := by
    cases d <;> rfl
  have hclosing : Mode.between.run d (d.quoteName s).toList =
      ([], .closing .name d.nameQuote false (d.quoteName s).toList) := by
    rw [Dialect.quoteName, String.toList_ofList]
    exact Mode.run_closing [d.nameQuote] hstart (Mode.run_doubled _ s.toList) hquote.2
  exact lexes_of_closing hclosing hquote.1 rfl

/-- A quoted text is one lexeme. -/
theorem lexes_quoted (s : String) : Lexes d isBreak [.quoted s] := by
  have hclosing : ∃ escapes, Mode.between.run d (d.quoteText s).toList =
      ([], .closing .text '\'' escapes (d.quoteText s).toList) := by
    cases d with
    | sqlite =>
        refine ⟨false, ?_⟩
        rw [Dialect.quoteText, String.toList_ofList]
        exact Mode.run_closing ['\''] rfl (Mode.run_doubled _ s.toList) (by decide)
    | mysql =>
        refine ⟨true, ?_⟩
        rw [Dialect.quoteText, String.toList_ofList]
        exact Mode.run_closing ['\''] rfl (Mode.run_escaped _ s.toList) (by decide)
    | postgres =>
        rw [Dialect.quoteText, String.toList_ofList]
        split
        · exact ⟨true, Mode.run_closing ['E', '\''] rfl (Mode.run_escaped _ s.toList)
            (by decide)⟩
        · next hescaped =>
            -- without an `E` a backslash would be a character like any other, but there is none
            rw [List.contains_iff_mem] at hescaped
            exact ⟨false, Mode.run_closing ['\''] rfl
              (Mode.run_unescaped _ hescaped) (by decide)⟩
  obtain ⟨escapes, hclosing⟩ := hclosing
  exact lexes_of_closing hclosing rfl rfl

/-! ### Constants -/

/-- Digits and points, behind a sign or not, are bare lexemes. -/
theorem lexes_plain_digits (negative : Bool) {cs : List Char}
    (hcs : ∀ c ∈ cs, isNumberChar c = true)
    (hs : s.toList = (if negative then ['-'] else []) ++ cs) : Lexes d isBreak [.plain s] := by
  apply lexes_plain
  rw [hs, Mode.run_append]
  refine Mode.isBare_run_of_isNumberChar ?_ hcs
  cases negative <;> cases d <;> rfl

end Pieces

theorem isNumberChar_toDigits (n : Nat) : ∀ c ∈ Nat.toDigits 10 n, isNumberChar c = true := by
  intro c hc
  rw [isNumberChar, Nat.isDigit_of_mem_toDigits (by decide) (by decide) hc]
  rfl

/-- A number that is written out in full has digits and at most a point. -/
theorem isNumberChar_inFull {layout : Decimal.Layout} {digits : List Char} {exponent : Int}
    (hdigits : ∀ c ∈ digits, isNumberChar c = true) :
    ∀ c ∈ layout.inFull digits exponent, isNumberChar c = true := by
  have hzeros : ∀ n, ∀ c ∈ List.replicate n '0', isNumberChar c = true := by
    intro n c hc
    rw [List.eq_of_mem_replicate hc]
    rfl
  simp only [Decimal.Layout.inFull]
  split
  · refine List.forall_mem_append.mpr ⟨List.forall_mem_append.mpr ⟨hdigits, hzeros _⟩, ?_⟩
    split
    · exact List.forall_mem_cons.mpr ⟨rfl, List.forall_mem_singleton.mpr rfl⟩
    · exact List.forall_mem_nil _
  · split
    · refine List.forall_mem_append.mpr ⟨fun c hc => hdigits c (List.mem_of_mem_take hc), ?_⟩
      exact List.forall_mem_cons.mpr ⟨rfl, fun c hc => hdigits c (List.mem_of_mem_drop hc)⟩
    · refine List.forall_mem_append.mpr ⟨List.forall_mem_cons.mpr ⟨rfl, ?_⟩, hdigits⟩
      exact List.forall_mem_cons.mpr ⟨rfl, hzeros _⟩

variable {d : Dialect}

theorem lexes_intText (n : Int64) : Lexes d isBreak [.plain (Literal.intText n)] := by
  rcases Json.Number.intText_cases n with ⟨m, -, htext⟩ | ⟨m, -, htext⟩
  · exact lexes_plain_digits false (isNumberChar_toDigits m) htext
  · exact lexes_plain_digits true (isNumberChar_toDigits (m + 1)) htext

theorem lexes_floatText (x : Float) : Lexes d isBreak [.plain (Literal.floatText x)] := by
  unfold Literal.floatText
  split
  · exact lexes_plain (by cases d <;> rfl)
  · exact lexes_plain (by cases d <;> rfl)
  · exact lexes_plain (by cases d <;> rfl)
  · next negative significand exponent tight _ =>
      exact lexes_plain_digits negative (isNumberChar_inFull (isNumberChar_toDigits _))
        String.toList_ofList

theorem Constant.lexes_piece (value : Constant) : Lexes d isBreak [value.piece] := by
  cases value with
  | null => exact lexes_plain (by cases d <;> rfl)
  | bool b => exact lexes_plain (by cases b <;> cases d <;> rfl)
  | int n => exact lexes_intText n
  | float x => exact lexes_floatText x
  | text s => exact lexes_quoted s

theorem Term.lexes_piece (term : Term) : Lexes d isBreak [term.piece] := by
  cases term with
  | column name => exact lexes_name name
  | constant value => exact value.lexes_piece

/-! ### Tests and conditions -/

theorem lexes_listed {values : List Constant} (h : values ≠ []) :
    Lexes d isBreak (listed values) := by
  induction values with
  | nil => exact absurd rfl h
  | cons value rest ih =>
      rcases rest with - | ⟨next, rest⟩
      · exact value.lexes_piece
      · -- a comma ends the value before it, and its blank leads the next one
        have hcomma : Lexes d isAny [.plain ", "] := lexes_plain_blank (by cases d <;> rfl)
        have hrest := hcomma.lead (ih (List.cons_ne_nil next rest))
        exact value.lexes_piece.append_follows (hrest.follows rfl)

theorem follows_closing : Follows d [.plain ")"] :=
  (lexes_plain (by cases d <;> rfl)).follows rfl

theorem Atom.lexes_pieces (atom : Atom) : Lexes d isBreak atom.pieces := by
  cases atom with
  | compare left comparator right =>
      have hsymbol : Lexes d isAny [.plain (" " ++ symbol comparator ++ " ")] :=
        lexes_plain_blank (by cases comparator <;> cases d <;> rfl)
      have hrest := hsymbol.lead right.lexes_piece
      exact left.lexes_piece.append_follows (hrest.follows (by cases comparator <;> rfl))
  | isIn left values negated =>
      rcases values with - | ⟨value, rest⟩
      · exact lexes_plain (by cases negated <;> cases d <;> rfl)
      · have hopening : Lexes d isAny [.plain (if negated then " NOT IN (" else " IN (")] :=
          lexes_plain_parenthesis (by cases negated <;> cases d <;> rfl)
        have hvalues := lexes_listed (d := d) (List.cons_ne_nil value rest)
        have hrest := (hopening.lead hvalues).append_follows follows_closing
        exact left.lexes_piece.append_follows (hrest.follows (by cases negated <;> rfl))
  | isNull left negated =>
      have hnull : Lexes d isBreak [.plain (if negated then " IS NOT NULL" else " IS NULL")] :=
        lexes_plain (by cases negated <;> cases d <;> rfl)
      exact left.lexes_piece.append_follows (hnull.follows (by cases negated <;> rfl))

theorem lexes_between (k : Connector) : Lexes d isAny [between k] := by
  cases k with
  | and => exact lexes_plain_blank (by cases d <;> rfl)
  | or => exact lexes_plain_blank (by cases d <;> rfl)

/-- Pieces may be put in parentheses. -/
theorem Lexes.placed {ps : List Piece} (h : Lexes d isBreak ps) (isPlain : Bool) :
    Lexes d isBreak (if isPlain then ps else .plain "(" :: ps ++ [.plain ")"]) := by
  split
  · exact h
  · have hopening : Lexes d isAny [.plain "("] := lexes_plain_parenthesis (by cases d <;> rfl)
    exact (hopening.lead h).append_follows follows_closing

/-- A connector goes between pieces. -/
theorem Lexes.tied {ps : List Piece} (h : Lexes d isBreak ps) (k : Connector) :
    Follows d (between k :: ps) := by
  have htied := (lexes_between k).lead h
  cases k with
  | and => exact htied.follows rfl
  | or => exact htied.follows rfl

mutual

theorem Condition.lexes_pieces : ∀ c : Condition, Lexes d isBreak c.pieces
  | .atom atom => atom.lexes_pieces
  | .join _ [] => lexes_nil
  | .join _ [item] => item.lexes_pieces
  | .join k (item :: next :: rest) =>
      (item.lexes_pieces.placed (bare k true item)).append_follows
        (follows_itemPieces k (next :: rest))

theorem follows_itemPieces (k : Connector) : ∀ items : List Condition,
    Follows d (itemPieces k false items)
  | [] => follows_nil
  | item :: rest =>
      ((item.lexes_pieces.placed (bare k false item)).tied k).append (follows_itemPieces k rest)

end

/-! ### Statements -/

/-- A statement is lexed piece by piece. -/
theorem Select.lex_text (s : Select) (d : Dialect) :
    lex d (s.text d) = some (s.pieces.flatMap (Piece.lexemes d)) := by
  have hselect : Lexes d isAny [.plain "SELECT * FROM "] := lexes_plain_blank (by cases d <;> rfl)
  have hwhere : Lexes d isAny [.plain " WHERE "] := lexes_plain_blank (by cases d <;> rfl)
  have hpieces : Lexes d isBreak s.pieces := by
    rcases s with ⟨table, - | condition⟩
    · exact hselect.lead (lexes_name table)
    · have hcondition := (hwhere.lead condition.lexes_pieces).follows rfl
      exact hselect.lead ((lexes_name table).append_follows hcondition)
  have htext : (s.text d).toList = chars d s.pieces ++ [] := by
    rw [Select.text, String.toList_join, List.flatMap_map, List.append_nil]
    rfl
  have hend : Ahead isBreak [] := by
    intro c hc
    cases hc
  rw [lex, htext, hpieces [] hend]
  show some (_ ++ []) = _
  rw [List.append_nil]

end WhereClause.Sql

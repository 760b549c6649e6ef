/-
WhereClause/Proofs/JsonGrammar.lean

The grammar of JSON texts, and that readers follow it.

`Element` says which texts stand for a value: the value itself (`Value`) with blanks before and
behind it.  Arrays hold elements, and objects hold members, which are keys with an element
each.  Numbers, strings and blanks are those of the format; what a string stands for is put
together from its marks (`Chars`).

Every text of the grammar is read as the value that it stands for (`Element.ofText?`).  The
readers thread the text that is left, so each of them is followed with any text behind what
it should read.  Only after a number does it matter how this text begins
(`Number.EndsAt`).  Readers of arrays and objects use two calls a character at most, which is
the bound that a text is read with.
-/
import Mathlib.Data.List.TakeWhile
import WhereClause.Json.Reader

namespace WhereClause.Json

/-! ### Numbers -/

namespace Number

/-- Some digits, at least one. -/
structure IsDigits (ds : List Char) : Prop where
  ne_nil : ds ≠ []
  isDigit : ∀ d ∈ ds, d.isDigit = true

/-- The digits after a point, if there is one. -/
inductive Fraction : List Char → List Char → Prop
  | none : Fraction [] []
  | digits {ds : List Char} : IsDigits ds → Fraction ds ('.' :: ds)

/-- An exponent, if there is one. -/
inductive Exponent : Option Int → List Char → Prop
  | none : Exponent none []
  | unsigned {e : Char} {ds : List Char} : e = 'e' ∨ e = 'E' → IsDigits ds →
      Exponent (some (Nat.ofDigitChars 10 ds 0 : Int)) (e :: ds)
  | plus {e : Char} {ds : List Char} : e = 'e' ∨ e = 'E' → IsDigits ds →
      Exponent (some (Nat.ofDigitChars 10 ds 0 : Int)) (e :: '+' :: ds)
  | minus {e : Char} {ds : List Char} : e = 'e' ∨ e = 'E' → IsDigits ds →
      Exponent (some (-(Nat.ofDigitChars 10 ds 0 : Int))) (e :: '-' :: ds)

/-- A number: an optional sign, digits of which only a single one may be a leading zero, and
optional fraction and exponent. -/
inductive Written : Number → List Char → Prop
  | intro {negative : Bool} {whole fraction f e : List Char} {exponent : Option Int} :
      IsDigits whole → (whole.head? = some '0' → whole = ['0']) → Fraction fraction f →
      Exponent exponent e →
      Written ⟨negative, whole, fraction, exponent⟩
        ((if negative then ['-'] else []) ++ whole ++ f ++ e)

/-- A text that does not go on with a number. -/
def EndsAt (rest : List Char) : Prop :=
  ∀ c ∈ rest.head?, c.isDigit = false ∧ c ≠ '.' ∧ c ≠ 'e' ∧ c ≠ 'E'

end Number

/-! ### Strings -/

/-- The marks of a string and how they are written. -/
inductive Chars : List Mark → List Char → Prop
  | nil : Chars [] []
  | plain {c : Char} {marks : List Mark} {cs : List Char} : c ≠ '"' → c ≠ '\\' →
      ¬c.toNat < 0x20 → Chars marks cs → Chars (.char c :: marks) (c :: cs)
  | short {letter c : Char} {marks : List Mark} {cs : List Char} :
      shortEscape? letter = some c → Chars marks cs →
      Chars (.char c :: marks) ('\\' :: letter :: cs)
  | unit {a b c d : Char} {code : Nat} {marks : List Mark} {cs : List Char} :
      fourHexDigits? a b c d = some code → Chars marks cs →
      Chars (.unit code :: marks) ('\\' :: 'u' :: a :: b :: c :: d :: cs)

/-- The text that some marks stand for. -/
def textOf (marks : List Mark) : Option String :=
  (assemble marks).map String.ofList

/-! ### Values -/

/-- Blanks between the parts of a text. -/
def Gap (cs : List Char) : Prop :=
  ∀ c ∈ cs, isGap c = true

mutual

/-- A value and how it is written. -/
inductive Value : Json → List Char → Prop
  | null : Value null ['n', 'u', 'l', 'l']
  | bool (b : Bool) : Value (bool b) (if b then ['t', 'r', 'u', 'e'] else ['f', 'a', 'l', 's', 'e'])
  | number {n : Number} {cs : List Char} : n.Written cs → Value (number n) cs
  | string {marks : List Mark} {cs : List Char} : Chars marks cs →
      Value (string (textOf marks)) ('"' :: cs ++ ['"'])
  | emptyArray {gap : List Char} : Gap gap → Value (array []) ('[' :: gap ++ [']'])
  | array {items : List Json} {cs : List Char} : Elements items cs →
      Value (array items) ('[' :: cs ++ [']'])
  | emptyObject {gap : List Char} : Gap gap → Value (object []) ('\x7b' :: gap ++ ['\x7d'])
  | object {entries : List (Option String × Json)} {cs : List Char} : Members entries cs →
      Value (object entries) ('\x7b' :: cs ++ ['\x7d'])

/-- A value with blanks around it. -/
inductive Element : Json → List Char → Prop
  | intro {value : Json} {before cs after : List Char} : Gap before → Value value cs →
      Gap after → Element value (before ++ cs ++ after)

/-- The values of an array, with commas between them. -/
inductive Elements : List Json → List Char → Prop
  | last {item : Json} {cs : List Char} : Element item cs → Elements [item] cs
  | more {item : Json} {items : List Json} {cs rest : List Char} : Element item cs →
      Elements items rest → Elements (item :: items) (cs ++ ',' :: rest)

/-- A key and its value. -/
inductive Member : Option String × Json → List Char → Prop
  | intro {marks : List Mark} {value : Json} {before key after cs : List Char} : Gap before →
      Chars marks key → Gap after → Element value cs →
      Member (textOf marks, value) (before ++ '"' :: key ++ '"' :: after ++ ':' :: cs)

/-- The entries of an object, with commas between them. -/
inductive Members : List (Option String × Json) → List Char → Prop
  | last {entry : Option String × Json} {cs : List Char} : Member entry cs → Members [entry] cs
  | more {entry : Option String × Json} {entries : List (Option String × Json)}
      {cs rest : List Char} : Member entry cs → Members entries rest →
      Members (entry :: entries) (cs ++ ',' :: rest)

end

/-! ### Reading numbers -/

namespace Number

variable {rest : List Char}

theorem endsAt_nil : EndsAt [] :=
  fun _ hc => nomatch hc

theorem endsAt_cons {c : Char} (h : c.isDigit = false ∧ c ≠ '.' ∧ c ≠ 'e' ∧ c ≠ 'E') :
    EndsAt (c :: rest) := by
  intro d hd
  cases hd
  exact h

/-- Digits are read up to the first character that is none. -/
theorem digits_append {ds : List Char} (hds : ∀ d ∈ ds, d.isDigit = true)
    (hrest : ∀ c ∈ rest.head?, c.isDigit = false) : digits (ds ++ rest) = (ds, rest) := by
  rw [digits, List.takeWhile_append_of_pos hds, List.dropWhile_append_of_pos hds]
  rcases rest with - | ⟨c, cs⟩
  · rw [List.takeWhile_nil, List.dropWhile_nil, List.append_nil]
  · have hc : ¬c.isDigit = true := Bool.eq_false_iff.mp (hrest c rfl)
    rw [List.takeWhile_cons_of_neg hc, List.dropWhile_cons_of_neg hc, List.append_nil]

theorem wellFormed_of_head {ds : List Char} (hne : ds ≠ []) (h : ds.head? = some '0' → ds = ['0']) :
    wellFormed ds = true := by
  rw [wellFormed.eq_def]
  split
  · exact absurd rfl hne
  · rfl
  · next hzero => exact absurd (List.cons.inj (h rfl)).2 hzero
  · rfl

/-- A fraction, and what follows it, does not begin with a digit. -/
theorem Fraction.head {fraction f : List Char} (h : Fraction fraction f)
    (hrest : ∀ c ∈ rest.head?, c.isDigit = false) : ∀ c ∈ (f ++ rest).head?, c.isDigit = false := by
  cases h with
  | none => exact hrest
  | digits _ =>
      intro c hc
      cases hc
      decide

theorem Fraction.readFraction {fraction f : List Char} (h : Fraction fraction f)
    (hrest : ∀ c ∈ rest.head?, c.isDigit = false ∧ c ≠ '.') :
    readFraction (f ++ rest) = some (fraction, rest) := by
  cases h with
  | none =>
      rw [List.nil_append, readFraction.eq_def]
      split
      · exact absurd rfl (hrest '.' rfl).2
      · rfl
  | digits hds =>
      rw [List.cons_append, Number.readFraction,
        digits_append hds.isDigit fun c hc => (hrest c hc).1]
      rcases fraction with - | ⟨d, ds⟩
      · exact absurd rfl hds.ne_nil
      · rfl

/-- An exponent, and what follows it, does not begin like a fraction. -/
theorem Exponent.head {exponent : Option Int} {e : List Char} (h : Exponent exponent e)
    (hrest : EndsAt rest) : ∀ c ∈ (e ++ rest).head?, c.isDigit = false ∧ c ≠ '.' := by
  have hmark : ∀ e : Char, e = 'e' ∨ e = 'E' → e.isDigit = false ∧ e ≠ '.' := by
    rintro e (rfl | rfl) <;> decide
  cases h with
  | none => exact fun c hc => ⟨(hrest c hc).1, (hrest c hc).2.1⟩
  | unsigned he _ | plus he _ | minus he _ =>
      intro c hc
      cases hc
      exact hmark _ he

theorem readExponentDigits_append (negative : Bool) {ds : List Char} (hds : IsDigits ds)
    (hrest : EndsAt rest) :
    readExponentDigits negative (ds ++ rest) =
      some (some (if negative then -(Nat.ofDigitChars 10 ds 0 : Int)
        else (Nat.ofDigitChars 10 ds 0 : Int)), rest) := by
  rw [readExponentDigits, digits_append hds.isDigit fun c hc => (hrest c hc).1]
  rcases ds with - | ⟨d, ds⟩
  · exact absurd rfl hds.ne_nil
  · rfl

theorem Exponent.readExponent {exponent : Option Int} {e : List Char} (h : Exponent exponent e)
    (hrest : EndsAt rest) : readExponent (e ++ rest) = some (exponent, rest) := by
  cases h with
  | none =>
      rcases rest with - | ⟨c, cs⟩
      · rfl
      · obtain ⟨-, -, he, hE⟩ := hrest c rfl
        simp [Number.readExponent, he, hE]
  | @unsigned e ds he hds =>
      -- a digit is not taken for a sign
      have hsign : ∀ c, c.isDigit = false → ∀ cs, ds ++ rest = c :: cs → False := by
        intro c hc cs heq
        rcases ds with - | ⟨d, ds⟩
        · exact hds.ne_nil rfl
        · cases heq
          rw [hds.isDigit _ List.mem_cons_self] at hc
          cases hc
      rw [List.cons_append, Number.readExponent, if_pos he]
      · exact readExponentDigits_append false hds hrest
      · exact hsign '-' rfl
      · exact hsign '+' rfl
  | plus he hds =>
      rw [Number.readExponent.eq_def]
      show (if _ then readExponentDigits false (_ ++ rest) else _) = _
      rw [if_pos he]
      exact readExponentDigits_append false hds hrest
  | minus he hds =>
      rw [Number.readExponent.eq_def]
      show (if _ then readExponentDigits true (_ ++ rest) else _) = _
      rw [if_pos he]
      exact readExponentDigits_append true hds hrest

theorem Written.exists_head {n : Number} {cs : List Char} (h : n.Written cs) :
    ∃ c ds, cs = c :: ds ∧ (c.isDigit = true ∨ c = '-') := by
  obtain ⟨hwhole, -, -, -⟩ := h
  rename_i negative whole _ _ _ _
  cases negative with
  | true => exact ⟨'-', _, rfl, .inr rfl⟩
  | false =>
      rcases whole with - | ⟨d, ds⟩
      · exact absurd rfl hwhole.ne_nil
      · exact ⟨d, _, rfl, .inl (hwhole.isDigit d List.mem_cons_self)⟩

/-- A number is read up to a character that does not go on with it. -/
theorem Written.read {n : Number} {cs : List Char} (h : n.Written cs) (hrest : EndsAt rest) :
    read (cs ++ rest) = some (n, rest) := by
  obtain ⟨hwhole, hzero, hfraction, hexponent⟩ := h
  rename_i negative whole fraction f e exponent
  have hunsigned : readUnsigned negative (whole ++ (f ++ (e ++ rest))) =
      some (⟨negative, whole, fraction, exponent⟩, rest) := by
    have hhead := hexponent.head hrest
    rw [readUnsigned, digits_append hwhole.isDigit (hfraction.head fun c hc => (hhead c hc).1)]
    simp [wellFormed_of_head hwhole.ne_nil hzero, hfraction.readFraction hhead,
      hexponent.readExponent hrest]
  cases negative with
  | true => simpa [Number.read] using hunsigned
  | false =>
      rw [← hunsigned, if_neg Bool.false_ne_true, List.nil_append, List.append_assoc,
        List.append_assoc, Number.read.eq_def]
      split
      · next heq =>
          rcases whole with - | ⟨d, ds⟩
          · exact absurd rfl hwhole.ne_nil
          · cases heq
            cases hwhole.isDigit '-' List.mem_cons_self
      · rfl

end Number

/-! ### Reading strings -/

theorem body_shortEscape {letter c : Char} (h : shortEscape? letter = some c) (rest : List Char) :
    body ('\\' :: letter :: rest) = (body rest).map (before (.char c)) := by
  have hletter : letter ≠ 'u' := by
    rintro rfl
    cases h
  rw [body]
  · rw [h]
    rcases body rest with - | read
    · rfl
    · rfl
  · rintro a b c d rest' rfl
    exact absurd rfl hletter

theorem body_codeUnit {a b c d : Char} {code : Nat} (h : fourHexDigits? a b c d = some code)
    (rest : List Char) :
    body ('\\' :: 'u' :: a :: b :: c :: d :: rest) = (body rest).map (before (.unit code)) := by
  rw [body, h]
  rcases body rest with - | read
  · rfl
  · rfl

theorem body_plain {c : Char} (hquote : c ≠ '"') (hbackslash : c ≠ '\\') (h : ¬c.toNat < 0x20)
    (rest : List Char) : body (c :: rest) = (body rest).map (before (.char c)) := by
  rw [body.eq_def]
  split
  · next heq => cases heq
  · next heq =>
      cases heq
      exact absurd rfl hquote
  · next heq =>
      cases heq
      exact absurd rfl hbackslash
  · next heq =>
      cases heq
      exact absurd rfl hbackslash
  · next heq =>
      cases heq
      rw [if_neg h]

/-- A string is read up to its closing quote. -/
theorem Chars.body {marks : List Mark} {cs : List Char} (h : Chars marks cs) (rest : List Char) :
    body (cs ++ '"' :: rest) = some (marks, rest) := by
  induction h with
  | nil => rfl
  | plain hquote hbackslash hcontrol _ ih =>
      rw [List.cons_append, body_plain hquote hbackslash hcontrol, ih]
      rfl
  | short hescape _ ih =>
      rw [List.cons_append, List.cons_append, body_shortEscape hescape, ih]
      rfl
  | unit hcode _ ih =>
      simp only [List.cons_append]
      rw [body_codeUnit hcode, ih]
      rfl

theorem Chars.readString {marks : List Mark} {cs : List Char} (h : Chars marks cs)
    (rest : List Char) : readString (cs ++ '"' :: rest) = some (textOf marks, rest) := by
  rw [Json.readString, h.body]
  rfl

/-! ### Reading values -/

theorem skip_cons {c : Char} (h : isGap c = false) (cs : List Char) : skip (c :: cs) = c :: cs := by
  rw [skip, List.dropWhile_cons_of_neg (Bool.eq_false_iff.mp h)]

theorem skip_gap {gap : List Char} (h : Gap gap) (cs : List Char) : skip (gap ++ cs) = skip cs :=
  List.dropWhile_append_of_pos h

theorem skip_gap_cons {gap : List Char} (h : Gap gap) {c : Char} (hc : isGap c = false)
    (cs : List Char) : skip (gap ++ c :: cs) = c :: cs := by
  rw [skip_gap h, skip_cons hc]

/-- What ends a number does so behind blanks as well. -/
theorem Gap.endsAt_append {gap rest : List Char} (h : Gap gap) (hrest : Number.EndsAt rest) :
    Number.EndsAt (gap ++ rest) := by
  rcases gap with - | ⟨c, gap⟩
  · exact hrest
  · have hc : isGap c = true := h c List.mem_cons_self
    simp only [isGap, Bool.or_eq_true, beq_iff_eq] at hc
    refine Number.endsAt_cons ?_
    rcases hc with ((rfl | rfl) | rfl) | rfl <;> decide

/-- A text is read as what is behind its leading blanks. -/
theorem readValue_skip {cs ds : List Char} (h : skip cs = skip ds) (calls : Nat) :
    readValue calls cs = readValue calls ds := by
  rcases calls with - | calls
  · rfl
  · rw [readValue, readValue, h]

theorem readItems_skip {cs ds : List Char} (h : skip cs = skip ds) (calls : Nat) :
    readItems calls cs = readItems calls ds := by
  rcases calls with - | calls
  · rfl
  · rw [readItems, readItems, readValue_skip h]

theorem readEntries_skip {cs ds : List Char} (h : skip cs = skip ds) (calls : Nat) :
    readEntries calls cs = readEntries calls ds := by
  rcases calls with - | calls
  · rfl
  · rw [readEntries, readEntries, h]

section NumberHead

variable {c : Char} (hc : c.isDigit = true ∨ c = '-')
include hc

theorem ne_of_numberHead {d : Char} (hdigit : d.isDigit = false) (hsign : d ≠ '-') : c ≠ d := by
  rintro rfl
  rcases hc with hc | hc
  · rw [hdigit] at hc
    cases hc
  · exact hsign hc

theorem isGap_of_numberHead : isGap c = false := by
  have hne : ∀ d : Char, d.isDigit = false → d ≠ '-' → c ≠ d := fun d => ne_of_numberHead hc
  simp [isGap, hne ' ' rfl (by decide), hne '\n' rfl (by decide), hne '\t' rfl (by decide),
    hne '\r' rfl (by decide)]

/-- What begins like a number is read as one. -/
theorem readValue_number {cs rest : List Char} {n : Number}
    (h : Number.read (c :: cs) = some (n, rest)) (calls : Nat) :
    readValue (calls + 1) (c :: cs) = some (number n, rest) := by
  rw [readValue, skip_cons (isGap_of_numberHead hc)]
  split
  case h_7 =>
    rw [h]
    rfl
  all_goals
    -- all other values begin with another character
    next heq => exact absurd (List.cons.inj heq).1 (ne_of_numberHead hc rfl (by decide))

end NumberHead

/-- The first character of a value does not end an array. -/
theorem Value.exists_head {value : Json} {cs : List Char} (h : Value value cs) :
    ∃ c ds, cs = c :: ds ∧ isGap c = false ∧ c ≠ ']' := by
  cases h with
  | null => exact ⟨'n', _, rfl, rfl, by decide⟩
  | bool b =>
      cases b with
      | false => exact ⟨'f', _, rfl, rfl, by decide⟩
      | true => exact ⟨'t', _, rfl, rfl, by decide⟩
  | number hn =>
      obtain ⟨c, ds, rfl, hc⟩ := hn.exists_head
      exact ⟨c, ds, rfl, isGap_of_numberHead hc, ne_of_numberHead hc rfl (by decide)⟩
  | string _ => exact ⟨'"', _, rfl, rfl, by decide⟩
  | emptyArray _ | array _ => exact ⟨'[', _, rfl, rfl, by decide⟩
  | emptyObject _ | object _ => exact ⟨'\x7b', _, rfl, rfl, by decide⟩

/-- Behind its leading blanks a text begins with some character, whatever follows it. -/
def Begins (c : Char) (cs : List Char) : Prop :=
  ∃ ds, ∀ tail, skip (cs ++ tail) = c :: (ds ++ tail)

theorem Begins.append {c : Char} {cs : List Char} (h : Begins c cs) (rest : List Char) :
    Begins c (cs ++ rest) := by
  obtain ⟨ds, hskip⟩ := h
  refine ⟨ds ++ rest, fun tail => ?_⟩
  rw [List.append_assoc, hskip, List.append_assoc]

theorem begins_gap_cons {gap : List Char} (hgap : Gap gap) {c : Char} (hc : isGap c = false)
    (ds : List Char) : Begins c (gap ++ c :: ds) := by
  refine ⟨ds, fun tail => ?_⟩
  rw [List.append_assoc, List.cons_append, skip_gap_cons hgap hc]

theorem Element.exists_begins {value : Json} {cs : List Char} (h : Element value cs) :
    ∃ c, Begins c cs ∧ isGap c = false ∧ c ≠ ']' := by
  obtain ⟨hbefore, hvalue, -⟩ := h
  obtain ⟨c, ds, rfl, hc, hbracket⟩ := hvalue.exists_head
  exact ⟨c, (begins_gap_cons hbefore hc ds).append _, hc, hbracket⟩

theorem Elements.exists_begins {items : List Json} {cs : List Char} (h : Elements items cs) :
    ∃ c, Begins c cs ∧ isGap c = false ∧ c ≠ ']' := by
  cases h with
  | last hitem => exact hitem.exists_begins
  | more hitem _ =>
      obtain ⟨c, hbegins, hc⟩ := hitem.exists_begins
      exact ⟨c, hbegins.append _, hc⟩

theorem Member.begins {entry : Option String × Json} {cs : List Char} (h : Member entry cs) :
    Begins '"' cs := by
  obtain ⟨hbefore, -, -, -⟩ := h
  rw [List.append_assoc, List.append_assoc]
  exact begins_gap_cons hbefore rfl _

theorem Members.begins {entries : List (Option String × Json)} {cs : List Char}
    (h : Members entries cs) : Begins '"' cs := by
  cases h with
  | last hentry => exact hentry.begins
  | more hentry _ => exact hentry.begins.append _

section Steps

variable {calls : Nat} {cs gap rest : List Char} (hgap : Gap gap)
include hgap

/-- The last value of an array is read up to the closing bracket. -/
theorem readItems_last {item : Json}
    (h : readValue calls (cs ++ ']' :: rest) = some (item, gap ++ ']' :: rest)) :
    readItems (calls + 1) (cs ++ ']' :: rest) = some ([item], rest) := by
  rw [readItems, h]
  simp [skip_gap_cons hgap (show isGap ']' = false from rfl)]

theorem readItems_more {item : Json} {items : List Json} {after : List Char}
    (h : readValue calls (cs ++ ',' :: rest) = some (item, gap ++ ',' :: rest))
    (hrest : readItems calls rest = some (items, after)) :
    readItems (calls + 1) (cs ++ ',' :: rest) = some (item :: items, after) := by
  rw [readItems, h]
  simp [skip_gap_cons hgap (show isGap ',' = false from rfl), hrest]

variable {marks : List Mark} {value : Json} {before key after : List Char} (hbefore : Gap before)
  (hkey : Chars marks key) (hafter : Gap after)
include hbefore hkey hafter

/-- The last entry of an object is read up to the closing brace. -/
theorem readEntries_last
    (h : readValue calls (cs ++ '\x7d' :: rest) = some (value, gap ++ '\x7d' :: rest)) :
    readEntries (calls + 1)
        (before ++ '"' :: key ++ '"' :: after ++ ':' :: cs ++ '\x7d' :: rest) =
      some ([(textOf marks, value)], rest) := by
  have htext : before ++ '"' :: key ++ '"' :: after ++ ':' :: cs ++ '\x7d' :: rest =
      before ++ '"' :: (key ++ '"' :: (after ++ ':' :: (cs ++ '\x7d' :: rest))) := by simp
  rw [htext, readEntries, skip_gap_cons hbefore (show isGap '"' = false from rfl)]
  simp [hkey.readString, skip_gap_cons hafter (show isGap ':' = false from rfl), h,
    skip_gap_cons hgap (show isGap '\x7d' = false from rfl)]

theorem readEntries_more {entries : List (Option String × Json)} {behind : List Char}
    (h : readValue calls (cs ++ ',' :: rest) = some (value, gap ++ ',' :: rest))
    (hrest : readEntries calls rest = some (entries, behind)) :
    readEntries (calls + 1) (before ++ '"' :: key ++ '"' :: after ++ ':' :: cs ++ ',' :: rest) =
      some ((textOf marks, value) :: entries, behind) := by
  have htext : before ++ '"' :: key ++ '"' :: after ++ ':' :: cs ++ ',' :: rest =
      before ++ '"' :: (key ++ '"' :: (after ++ ':' :: (cs ++ ',' :: rest))) := by simp
  rw [htext, readEntries, skip_gap_cons hbefore (show isGap '"' = false from rfl)]
  simp [hkey.readString, skip_gap_cons hafter (show isGap ':' = false from rfl), h,
    skip_gap_cons hgap (show isGap ',' = false from rfl), hrest]

end Steps

mutual

/-- A value is read whatever follows, unless it is a number and what follows goes on with
it. -/
theorem Value.readValue : ∀ {value : Json} {cs : List Char}, Value value cs →
    ∀ (rest : List Char) (calls : Nat), Number.EndsAt rest → 2 * cs.length ≤ calls →
      readValue calls (cs ++ rest) = some (value, rest)
  | _, _, .null, rest, calls, _, hcalls => by
      obtain ⟨calls, rfl⟩ := Nat.exists_eq_add_one.mpr (Nat.lt_of_lt_of_le (by decide) hcalls)
      rfl
  | _, _, .bool b, rest, calls, _, hcalls => by
      cases b with
      | false =>
          obtain ⟨calls, rfl⟩ := Nat.exists_eq_add_one.mpr (Nat.lt_of_lt_of_le (by decide) hcalls)
          rfl
      | true =>
          obtain ⟨calls, rfl⟩ := Nat.exists_eq_add_one.mpr (Nat.lt_of_lt_of_le (by decide) hcalls)
          rfl
  | _, _, .number hn, rest, calls, hrest, hcalls => by
      obtain ⟨c, ds, rfl, hc⟩ := hn.exists_head
      obtain ⟨calls, rfl⟩ := Nat.exists_eq_add_one.mpr (Nat.lt_of_lt_of_le (by simp) hcalls)
      exact readValue_number hc (hn.read hrest) calls
  | _, _, .string hchars, rest, calls, _, hcalls => by
      obtain ⟨calls, rfl⟩ := Nat.exists_eq_add_one.mpr (Nat.lt_of_lt_of_le (by simp) hcalls)
      rw [Json.readValue, List.append_assoc, List.cons_append, skip_cons rfl]
      simp [hchars.readString]
  | _, _, .emptyArray hgap, rest, calls, _, hcalls => by
      obtain ⟨calls, rfl⟩ := Nat.exists_eq_add_one.mpr (Nat.lt_of_lt_of_le (by simp) hcalls)
      rw [Json.readValue, List.append_assoc, List.cons_append, skip_cons rfl]
      simp [skip_gap_cons hgap (show isGap ']' = false from rfl)]
  | _, _, .array hitems, rest, calls, _, hcalls => by
      simp only [List.length_append, List.length_cons, List.length_nil] at hcalls
      obtain ⟨calls, rfl⟩ : ∃ n, calls = n + 1 := Nat.exists_eq_add_one.mpr (by omega)
      -- no closing bracket comes first, so items are read
      obtain ⟨c, ⟨ds, hskip⟩, hc, hbracket⟩ := hitems.exists_begins
      have hread := hitems.readItems rest calls (by omega)
      rw [readItems_skip ((hskip _).trans (skip_cons hc _).symm)] at hread
      rw [Json.readValue, List.append_assoc, List.cons_append, skip_cons rfl]
      simp [hskip, hbracket, hread]
  | _, _, .emptyObject hgap, rest, calls, _, hcalls => by
      obtain ⟨calls, rfl⟩ := Nat.exists_eq_add_one.mpr (Nat.lt_of_lt_of_le (by simp) hcalls)
      rw [Json.readValue, List.append_assoc, List.cons_append, skip_cons rfl]
      simp [skip_gap_cons hgap (show isGap '\x7d' = false from rfl)]
  | _, _, .object hentries, rest, calls, _, hcalls => by
      simp only [List.length_append, List.length_cons, List.length_nil] at hcalls
      obtain ⟨calls, rfl⟩ : ∃ n, calls = n + 1 := Nat.exists_eq_add_one.mpr (by omega)
      obtain ⟨ds, hskip⟩ := hentries.begins
      have hread := hentries.readEntries rest calls (by omega)
      rw [readEntries_skip ((hskip _).trans (skip_cons rfl _).symm)] at hread
      rw [Json.readValue, List.append_assoc, List.cons_append, skip_cons rfl]
      simp [hskip, hread]

theorem Element.readValue : ∀ {value : Json} {cs : List Char}, Element value cs →
    ∀ (rest : List Char) (calls : Nat), Number.EndsAt rest → 2 * cs.length ≤ calls →
      ∃ gap, Gap gap ∧ readValue calls (cs ++ rest) = some (value, gap ++ rest)
  | _, _, .intro hbefore hvalue hafter, rest, calls, hrest, hcalls => by
      simp only [List.length_append] at hcalls
      refine ⟨_, hafter, ?_⟩
      rw [List.append_assoc, List.append_assoc, readValue_skip (skip_gap hbefore _)]
      exact hvalue.readValue _ calls (hafter.endsAt_append hrest) (by omega)

theorem Elements.readItems : ∀ {items : List Json} {cs : List Char}, Elements items cs →
    ∀ (rest : List Char) (calls : Nat), 2 * (cs.length + 1) ≤ calls →
      readItems calls (cs ++ ']' :: rest) = some (items, rest)
  | _, _, .last hitem, rest, calls, hcalls => by
      obtain ⟨calls, rfl⟩ : ∃ n, calls = n + 1 := Nat.exists_eq_add_one.mpr (by omega)
      obtain ⟨gap, hgap, hread⟩ := hitem.readValue (']' :: rest) calls
        (Number.endsAt_cons (by decide)) (by omega)
      exact readItems_last hgap hread
  | _, _, .more hitem hitems, rest, calls, hcalls => by
      simp only [List.length_append, List.length_cons] at hcalls
      obtain ⟨calls, rfl⟩ : ∃ n, calls = n + 1 := Nat.exists_eq_add_one.mpr (by omega)
      rw [List.append_assoc, List.cons_append]
      obtain ⟨gap, hgap, hread⟩ := hitem.readValue (',' :: (_ ++ ']' :: rest)) calls
        (Number.endsAt_cons (by decide)) (by omega)
      exact readItems_more hgap hread (hitems.readItems rest calls (by omega))

theorem Members.readEntries : ∀ {entries : List (Option String × Json)} {cs : List Char},
    Members entries cs → ∀ (rest : List Char) (calls : Nat), 2 * (cs.length + 1) ≤ calls →
      readEntries calls (cs ++ '\x7d' :: rest) = some (entries, rest)
  | _, _, .last (.intro hbefore hkey hafter hvalue), rest, calls, hcalls => by
      simp only [List.length_append, List.length_cons] at hcalls
      obtain ⟨calls, rfl⟩ : ∃ n, calls = n + 1 := Nat.exists_eq_add_one.mpr (by omega)
      obtain ⟨gap, hgap, hread⟩ := hvalue.readValue ('\x7d' :: rest) calls
        (Number.endsAt_cons (by decide)) (by omega)
      exact readEntries_last hgap hbefore hkey hafter hread
  | _, _, .more (.intro hbefore hkey hafter hvalue) hentries, rest, calls, hcalls => by
      simp only [List.length_append, List.length_cons] at hcalls
      obtain ⟨calls, rfl⟩ : ∃ n, calls = n + 1 := Nat.exists_eq_add_one.mpr (by omega)
      rw [List.append_assoc, List.cons_append]
      obtain ⟨gap, hgap, hread⟩ := hvalue.readValue (',' :: (_ ++ '\x7d' :: rest)) calls
        (Number.endsAt_cons (by decide)) (by omega)
      exact readEntries_more hgap hbefore hkey hafter hread (hentries.readEntries rest calls (by omega))

end

/-- A text of the grammar is read as the value that it stands for. -/
theorem Element.ofText? {value : Json} {cs : List Char} (h : Element value cs) :
    ofText? (String.ofList cs) = some value := by
  obtain ⟨gap, hgap, hread⟩ := h.readValue [] (2 * cs.length + 2) Number.endsAt_nil (by omega)
  have hend : skip gap = [] := by
    have hskip := skip_gap hgap []
    rwa [List.append_nil] at hskip
  rw [List.append_nil, List.append_nil] at hread
  rw [Json.ofText?, String.toList_ofList, hread]
  simp [hend]

end WhereClause.Json

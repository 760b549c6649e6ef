/-
WhereClause/Proofs/LikePattern.lean

What the search for a text selects.

A pattern is a row of parts, and it selects the texts that can be cut into as many pieces,
each of which its part stands for (`Like.accepts_cons_iff`).  The operators on texts put a
`%` before the text that is searched for, or behind it, or both.  So a subject is selected
exactly if a piece of it, taken where the operator looks, is accepted by the text itself as a
pattern (`Operator.selects_pattern_iff`).  Any text accepts itself, and a text without
wildcards accepts nothing else.

None of this is said of a text with a backslash in it, which is not escaped: at the end of the
text it takes the `%` that the operator adds.
-/
import Mathlib.Data.List.Infix
import WhereClause.Proofs.OperandKinds

namespace WhereClause

/-! ### Patterns -/

namespace Like

/-- A part of a pattern. -/
inductive Part where
  | exactly (c : Char)
  | anyOne
  | anyRun
  deriving DecidableEq, Repr

/-- What a character of a pattern stands for. -/
def Part.of (c : Char) : Part :=
  if c = '%' then anyRun else if c = '_' then anyOne else exactly c

/-- The parts of a pattern.  The character behind a backslash stands for itself, and so does
a backslash with nothing behind it. -/
def parts : List Char → List Part
  | [] => []
  | '\\' :: c :: rest => .exactly c :: parts rest
  | c :: rest => .of c :: parts rest

/-- Whether a row of parts accepts a text.  Wherever any run may stand, all that can be left
of the text is tried. -/
def accepts : List Part → List Char → Bool
  | [], s => s.isEmpty
  | .anyRun :: ps, s => s.tails.any fun rest => accepts ps rest
  | .anyOne :: ps, _ :: s => accepts ps s
  | .exactly c :: ps, a :: s => a == c && accepts ps s
  | _ :: _, [] => false

/-- Whether a pattern selects a subject. -/
def selects (pattern subject : String) : Bool :=
  accepts (parts pattern.toList) subject.toList

/-- The pieces of a text that a part stands for. -/
def Part.StandsFor : Part → List Char → Prop
  | exactly c, piece => piece = [c]
  | anyOne, piece => ∃ c, piece = [c]
  | anyRun, _ => True

variable {p : Part} {ps qs : List Part} {s t : List Char}

theorem accepts_nil_iff : accepts [] s = true ↔ s = [] :=
  List.isEmpty_iff

/-- The first part stands for a piece at the beginning, and the others accept the rest. -/
theorem accepts_cons_iff :
    accepts (p :: ps) s = true ↔
      ∃ piece rest, s = piece ++ rest ∧ p.StandsFor piece ∧ accepts ps rest = true := by
  cases p with
  | exactly c =>
      cases s with
      | nil => simp [accepts, Part.StandsFor]
      | cons a s =>
          simp only [accepts, Part.StandsFor, Bool.and_eq_true, beq_iff_eq]
          constructor
          · rintro ⟨rfl, h⟩
            exact ⟨[a], s, rfl, rfl, h⟩
          · rintro ⟨_, rest, hs, rfl, h⟩
            cases hs
            exact ⟨rfl, h⟩
  | anyOne =>
      cases s with
      | nil => simp [accepts, Part.StandsFor]
      | cons a s => simp [accepts, Part.StandsFor]
  | anyRun =>
      simp only [accepts, List.any_eq_true, List.mem_tails, Part.StandsFor, true_and]
      constructor
      · rintro ⟨rest, ⟨piece, rfl⟩, hrest⟩
        exact ⟨piece, rest, rfl, hrest⟩
      · rintro ⟨piece, rest, rfl, hrest⟩
        exact ⟨rest, List.suffix_append piece rest, hrest⟩

theorem accepts_append_iff :
    accepts (ps ++ qs) s = true ↔
      ∃ t u, s = t ++ u ∧ accepts ps t = true ∧ accepts qs u = true := by
  induction ps generalizing s with
  | nil => simp [accepts_nil_iff]
  | cons p ps ih =>
      rw [List.cons_append, accepts_cons_iff]
      constructor
      · rintro ⟨piece, rest, rfl, hpiece, hrest⟩
        obtain ⟨t, u, rfl, ht, hu⟩ := ih.mp hrest
        exact ⟨piece ++ t, u, (List.append_assoc _ _ _).symm,
          accepts_cons_iff.mpr ⟨piece, t, rfl, hpiece, ht⟩, hu⟩
      · rintro ⟨_, u, rfl, ht, hu⟩
        obtain ⟨piece, t, rfl, hpiece, ht⟩ := accepts_cons_iff.mp ht
        exact ⟨piece, t ++ u, List.append_assoc _ _ _, hpiece, ih.mpr ⟨t, u, rfl, ht, hu⟩⟩

/-- A run at the beginning leaves what is accepted at the end. -/
theorem accepts_anyRun_cons_iff :
    accepts (.anyRun :: ps) s = true ↔ ∃ t, t <:+ s ∧ accepts ps t = true := by
  simp only [accepts, List.any_eq_true, List.mem_tails]

/-- A run at the end leaves what is accepted at the beginning. -/
theorem accepts_append_anyRun_iff :
    accepts (ps ++ [.anyRun]) s = true ↔ ∃ t, t <+: s ∧ accepts ps t = true := by
  rw [accepts_append_iff]
  constructor
  · rintro ⟨t, u, rfl, ht, -⟩
    exact ⟨t, List.prefix_append t u, ht⟩
  · rintro ⟨t, ⟨u, rfl⟩, ht⟩
    exact ⟨t, u, rfl, ht, accepts_anyRun_cons_iff.mpr ⟨[], List.nil_suffix, rfl⟩⟩

/-- Where nothing is escaped each character is a part. -/
theorem parts_eq_map (h : '\\' ∉ s) : parts s = s.map Part.of := by
  fun_induction parts s with
  | case1 => rfl
  | case2 c rest => exact absurd List.mem_cons_self h
  | case3 c rest _ ih => rw [ih fun hmem => h (List.mem_cons_of_mem c hmem), List.map_cons]

/-! ### Texts as patterns -/

/-- Each character stands for itself, among others. -/
theorem Part.standsFor_of (c : Char) : (Part.of c).StandsFor [c] := by
  rw [Part.of]
  split_ifs
  · exact trivial
  · exact ⟨c, rfl⟩
  · exact rfl

theorem Part.of_eq_exactly {c : Char} (hrun : c ≠ '%') (hone : c ≠ '_') :
    Part.of c = .exactly c := by
  rw [Part.of, if_neg hrun, if_neg hone]

/-- A text accepts itself. -/
theorem accepts_map_of_self (s : List Char) : accepts (s.map Part.of) s = true := by
  induction s with
  | nil => rfl
  | cons c s ih => exact accepts_cons_iff.mpr ⟨[c], s, rfl, Part.standsFor_of c, ih⟩

/-- A text without wildcards accepts only itself. -/
theorem accepts_map_of_iff (hrun : '%' ∉ s) (hone : '_' ∉ s) :
    accepts (s.map Part.of) t = true ↔ t = s := by
  refine ⟨fun h => ?_, fun h => h ▸ accepts_map_of_self s⟩
  induction s generalizing t with
  | nil => exact accepts_nil_iff.mp h
  | cons c s ih =>
      rw [List.mem_cons, not_or] at hrun hone
      obtain ⟨piece, rest, rfl, hpiece, hrest⟩ := accepts_cons_iff.mp h
      rw [Part.of_eq_exactly (Ne.symm hrun.1) (Ne.symm hone.1)] at hpiece
      rw [show piece = [c] from hpiece, ih hrun.2 hone.2 hrest, List.singleton_append]

end Like

/-! ### The operators on texts -/

/-- The text that is searched for in place of a value. -/
def Literal.searchText? : Literal → Option String
  | text s => some s
  | int n => some (toString n.toInt)
  | bool b => some (if b then "true" else "false")
  | null | float _ | list _ => none

theorem Literal.patternText_of_searchText? {literal : Literal} {text : String}
    (h : literal.searchText? = some text) :
    patternText (some (.value literal)) = .ok text := by
  cases literal with
  | text _ | int _ | bool _ => exact congrArg Except.ok (Option.some.inj h)
  | null | float _ | list _ => cases h

namespace Operator

variable {operator : Operator} {text subject : String}

/-- A text stands in a subject where the operator looks for it. -/
def Occurs (operator : Operator) (text subject : List Char) : Prop :=
  match operator with
  | contains => text <:+: subject
  | startsWith => text <+: subject
  | endsWith => text <:+ subject
  | _ => False

/-- The parts of a text with the runs that an operator puts around them. -/
def around (operator : Operator) (ps : List Like.Part) : List Like.Part :=
  match operator with
  | startsWith => ps ++ [.anyRun]
  | endsWith => .anyRun :: ps
  | _ => .anyRun :: ps ++ [.anyRun]

/-- An operator adds its runs, unless there is a backslash in the text that they come behind. -/
theorem parts_pattern (hback : '\\' ∉ text.toList) :
    Like.parts (operator.pattern text).toList = operator.around (text.toList.map .of) := by
  have hrun : "%".toList.map Like.Part.of = [.anyRun] := rfl
  rw [Like.parts_eq_map]
  · cases operator <;>
      simp only [pattern, around, String.toList_append, List.map_append, hrun,
        List.singleton_append]
  · cases operator <;> simp [pattern, hback]

/-- The pattern for a text accepts what has a piece, in the right place, that the text itself
accepts. -/
theorem selects_pattern_iff (hsearch : operator.searchesText = true)
    (hback : '\\' ∉ text.toList) :
    Like.selects (operator.pattern text) subject = true ↔
      ∃ piece, operator.Occurs piece subject.toList ∧
        Like.accepts (text.toList.map .of) piece = true := by
  rw [Like.selects, parts_pattern hback]
  cases operator
  case contains =>
    refine Like.accepts_anyRun_cons_iff.trans ?_
    constructor
    · rintro ⟨rest, hrest, haccepts⟩
      obtain ⟨piece, hpiece, htext⟩ := Like.accepts_append_anyRun_iff.mp haccepts
      exact ⟨piece, List.infix_iff_prefix_suffix.mpr ⟨rest, hpiece, hrest⟩, htext⟩
    · rintro ⟨piece, hinfix, htext⟩
      obtain ⟨rest, hpiece, hrest⟩ := List.infix_iff_prefix_suffix.mp hinfix
      exact ⟨rest, hrest, Like.accepts_append_anyRun_iff.mpr ⟨piece, hpiece, htext⟩⟩
  case startsWith =>
    exact Like.accepts_append_anyRun_iff
  case endsWith =>
    exact Like.accepts_anyRun_cons_iff
  all_goals cases hsearch

/-- What has the text in the right place is selected. -/
theorem selects_of_occurs (hsearch : operator.searchesText = true) (hback : '\\' ∉ text.toList)
    (h : operator.Occurs text.toList subject.toList) :
    Like.selects (operator.pattern text) subject = true :=
  (selects_pattern_iff hsearch hback).mpr ⟨text.toList, h, Like.accepts_map_of_self _⟩

-- a text that ends with a backslash is not even found in itself
example : Like.selects (startsWith.pattern "a\\") "a\\" = false := by decide +kernel

/-- If there are no wildcards in the text then nothing else is selected. -/
theorem selects_iff_occurs (hsearch : operator.searchesText = true) (hback : '\\' ∉ text.toList)
    (hrun : '%' ∉ text.toList) (hone : '_' ∉ text.toList) :
    Like.selects (operator.pattern text) subject = true ↔
      operator.Occurs text.toList subject.toList := by
  rw [selects_pattern_iff hsearch hback]
  simp only [Like.accepts_map_of_iff hrun hone, exists_eq_right]

end Operator

/-- A comparison that searches for a text, a whole number or a truth value is called as one
comparison with a pattern.  If there is no backslash in the text then the pattern selects
every subject that has the text where the operator looks for it, and if there is no wildcard
in it either then the pattern selects no other. -/
theorem search_selects_occurrences (c : Comparison) (literal : Literal) (text : String)
    (hsearch : c.operator.searchesText = true) (hright : c.right = some (.value literal))
    (htext : literal.searchText? = some text) :
    ∃ pattern, c.alone {} =
        ⟨[.called .and (.compare c.left .like (.value (.text pattern)))], none⟩ ∧
      ∀ subject : String,
        ('\\' ∉ text.toList → c.operator.Occurs text.toList subject.toList →
          Like.selects pattern subject = true) ∧
        ('%' ∉ text.toList → '_' ∉ text.toList → '\\' ∉ text.toList →
          (Like.selects pattern subject = true ↔
            c.operator.Occurs text.toList subject.toList)) := by
  refine ⟨c.operator.pattern text, Comparison.alone_eq_iff.mpr ?_, fun subject => ⟨?_, ?_⟩⟩
  · have hleft : ({} : Mapping).left c = c.left := Mapping.idle_empty _ _
    have hvalue : ({} : Mapping).right c = some (.value literal) := by
      rw [Mapping.right, hright, Option.map_some, Mapping.idle_empty]
    rw [Comparison.call, hleft, hvalue, callOf_of_searchesText hsearch,
      Literal.patternText_of_searchText? htext]
    rfl
  · exact Operator.selects_of_occurs hsearch
  · intro hrun hone hback
    exact Operator.selects_iff_occurs hsearch hback hrun hone

/-- A text that overlaps itself is found behind a beginning that leads nowhere, and not where
only its characters are there. -/
theorem search_selects_overlapping :
    (Comparison.on "a" .contains (.value (.text "aab"))).operator.searchesText = true ∧
      (Literal.text "aab").searchText? = some "aab" ∧
      ∃ pattern, (Comparison.on "a" .contains (.value (.text "aab"))).alone {} =
          ⟨[.called .and (.compare (.field "a") .like (.value (.text pattern)))], none⟩ ∧
        Like.selects pattern "baaabb" = true ∧ ¬Like.selects pattern "ababab" = true := by
  obtain ⟨pattern, halone, hall⟩ := search_selects_occurrences
    (Comparison.on "a" .contains (.value (.text "aab"))) (.text "aab") "aab" rfl rfl rfl
  refine ⟨rfl, rfl, pattern, halone, ?_, ?_⟩
  · exact (hall "baaabb").1 (by decide) ⟨['b', 'a'], ['b'], rfl⟩
  · rw [(hall "ababab").2 (by decide) (by decide) (by decide)]
    show ¬"aab".toList <:+: "ababab".toList
    decide

end WhereClause

/-
WhereClause/Proofs/TypedLine.lean

What becomes of a literal that is typed at the shell.

A line is cut into words before its value is read, and the words of the value are joined
again.  So the comparison that a line asks for has the connector, the field and the operator
that were typed, and the literal with the runs of blanks in its texts squeezed
(`ofLine_lineOf`).

The value is cut off at the right place since no spelling of an operator goes on where the
token of an operator that takes a value ends (`Operator.not_prefix`).
-/
import WhereClause.Proofs.TypedValue

namespace WhereClause

open Text

/-! ### The operator in a line -/

namespace Operator

/-- The words of the token of an operator. -/
def words (operator : Operator) : List (List Char) :=
  cut [] operator.token.toList

theorem intercalate_words (operator : Operator) :
    [' '].intercalate operator.words = operator.token.toList := by
  cases operator <;> decide +kernel

theorem flatMap_words (operator : Operator) :
    operator.words.flatMap (· ++ [' ']) = operator.token.toList ++ [' '] := by
  cases operator <;> decide +kernel

theorem exists_length_words (operator : Operator) :
    ∃ n, operator.words.length = n + 1 ∧ n + 1 ≤ Shell.Command.operatorWords := by
  cases operator <;> exact ⟨_, rfl, by decide⟩

theorem isWord_of_mem_words {operator : Operator} {w : List Char} (h : w ∈ operator.words) :
    IsWord w :=
  isWord_of_mem_cut h

/-- No spelling goes on where the token of an operator that takes a value ends. -/
theorem not_prefix {operator : Operator} (h : operator.takesValue = true) :
    ∀ spelling ∈ spellings,
      ¬(operator.token.toList ++ [' ']).flatMap upperChar <+: spelling.1.toList := by
  cases operator
  case isNull | notNull => cases h
  all_goals decide +kernel

/-- The token of an operator that takes a value, with more words behind it, spells no
operator. -/
theorem ofText?_of_token {operator : Operator} (h : operator.takesValue = true) {cs : List Char}
    (hne : cs ≠ []) (hcs : ∀ c ∈ cs.getLast?, isBlank c = false) :
    ofText? (String.ofList (operator.token.toList ++ ' ' :: cs)) = none := by
  have htrimmed : Trimmed (operator.token.toList ++ ' ' :: cs) := by
    refine ⟨?_, ?_⟩
    · cases operator <;> exact fun c hc => by cases hc; rfl
    · rw [List.getLast?_append_of_ne_nil _ (List.cons_ne_nil _ _), ← List.singleton_append,
        List.getLast?_append_of_ne_nil _ hne]
      exact hcs
  rw [ofText?, trim, String.toList_ofList, htrimmed.trimmed_eq, List.lookup_eq_none_iff]
  intro spelling hspelling
  rw [bne_iff_ne]
  rintro heq
  refine not_prefix h spelling hspelling ⟨cs.flatMap upperChar, ?_⟩
  rw [← heq, upper, String.toList_ofList, String.toList_ofList, ← List.flatMap_append,
    List.append_assoc, List.singleton_append]

end Operator

namespace Shell.Command

theorem joined_map (ws : List (List Char)) :
    joined (ws.map String.ofList) = String.ofList ([' '].intercalate ws) := by
  have hchars : String.toList ∘ String.ofList = id := funext fun cs => String.toList_ofList
  apply String.toList_injective
  rw [joined, String.toList_intercalate, List.map_map, hchars, List.map_id]
  exact String.toList_ofList.symm

/-- Of the words from an operator on, the longest operator is that one. -/
theorem longestOperator_words {operator : Operator} (h : operator.takesValue = true)
    {ws : List (List Char)} (hws : ∀ w ∈ ws, IsWord w) {n : Nat} (hn : n ≤ ws.length) :
    longestOperator ((operator.words ++ ws).map String.ofList) (operator.words.length + n) =
      some (operator, ws.map String.ofList) := by
  have htake : ∀ n, ((operator.words ++ ws).map String.ofList).take (operator.words.length + n) =
      (operator.words ++ ws.take n).map String.ofList := fun n => by
    rw [← List.map_take, List.take_length_add_append]
  have hdrop : ((operator.words ++ ws).map String.ofList).drop operator.words.length =
      ws.map String.ofList := by
    rw [← List.map_drop, List.drop_left]
  obtain ⟨k, hk, -⟩ := operator.exists_length_words
  have hwords : operator.words ≠ [] := List.ne_nil_of_length_eq_add_one hk
  induction n with
  | zero =>
      have htoken : joined ((operator.words ++ ws.take 0).map String.ofList) = operator.token := by
        rw [List.take_zero, List.append_nil, joined_map, operator.intercalate_words,
          String.ofList_toList]
      have htake := htake 0
      rw [Nat.add_zero, hk] at htake ⊢
      rw [hk] at hdrop
      rw [longestOperator, htake, htoken, operator.ofText?_token, hdrop]
  | succ n ih =>
      -- one word more than the token and the words after it that were tried before
      have hmore : ws.take (n + 1) ≠ [] := by
        apply List.ne_nil_of_length_pos
        rw [List.length_take]
        omega
      obtain ⟨hne, hlast⟩ := exists_last_intercalate
        (fun w hw => hws w (List.mem_of_mem_take hw)) hmore
      have hnone : Operator.ofText? (joined ((operator.words ++ ws.take (n + 1)).map String.ofList)) =
          none := by
        rw [joined_map, intercalate_append hwords hmore, operator.intercalate_words]
        exact Operator.ofText?_of_token h hne hlast
      have htake := htake (n + 1)
      rw [← Nat.add_assoc] at htake ⊢
      rw [longestOperator, htake, hnone]
      exact ih (Nat.le_of_succ_le hn)

/-- The longest operator among at most so many words as an operator can have. -/
theorem longestOperator_typed {operator : Operator} (h : operator.takesValue = true)
    {ws : List (List Char)} (hws : ∀ w ∈ ws, IsWord w) :
    longestOperator ((operator.words ++ ws).map String.ofList)
        (min operatorWords ((operator.words ++ ws).map String.ofList).length) =
      some (operator, ws.map String.ofList) := by
  obtain ⟨k, hk, hle⟩ := operator.exists_length_words
  obtain ⟨n, hn⟩ := Nat.exists_eq_add_of_le (show operator.words.length ≤
    min operatorWords ((operator.words ++ ws).map String.ofList).length by
      rw [List.length_map, List.length_append]
      omega)
  rw [hn]
  refine longestOperator_words h hws ?_
  rw [List.length_map, List.length_append] at hn
  omega

/-! ### Lines -/

/-- A text that can stand for a field at the beginning of a line. -/
structure IsField (field : String) : Prop where
  word : IsWord field.toList
  not_named : ∀ c ∈ field.toList.head?, c ≠ ':'
  not_or : isOr field = false

/-- The words before the operator in the line of a comparison. -/
def leadingWords (connector : Connector) (field : String) : List (List Char) :=
  match connector with
  | .and => [field.toList]
  | .or => ["or".toList, field.toList]

/-- The line with which a comparison with a literal is typed. -/
def lineOf (connector : Connector) (field : String) (operator : Operator) (value : Literal) :
    String :=
  (match connector with | .and => "" | .or => "or ") ++ field ++ " " ++ operator.token ++ " " ++
    value.toJson

theorem toList_lineOf (connector : Connector) (field : String) (operator : Operator)
    (value : Literal) :
    (lineOf connector field operator value).toList =
      (leadingWords connector field ++ operator.words).flatMap (· ++ [' ']) ++ value.json := by
  rw [List.flatMap_append, operator.flatMap_words]
  cases connector with
  | and => simp [lineOf, leadingWords, Literal.toJson]
  | or => simp [lineOf, leadingWords, Literal.toJson]

section Line

variable {connector : Connector} {field : String} {operator : Operator} {value : Literal}
  {depth : Nat}

theorem isWord_of_mem_leadingWords (hfield : IsField field) :
    ∀ w ∈ leadingWords connector field, IsWord w := by
  cases connector with
  | and => exact List.forall_mem_singleton.mpr hfield.word
  | or =>
      have hor : IsWord "or".toList := ⟨by decide, isBlank_of_all rfl⟩
      exact List.forall_mem_cons.mpr ⟨hor, List.forall_mem_singleton.mpr hfield.word⟩

/-- The words before the operator are taken for the connector and the field. -/
theorem leadingConnector_leadingWords (hfield : IsField field) (ws : List String) :
    leadingConnector ((leadingWords connector field).map String.ofList ++ ws) =
      (connector, field :: ws) := by
  cases connector with
  | and =>
      simp [leadingWords, leadingConnector, hfield.not_or]
  | or =>
      have hor : isOr "or" = true := by decide
      simp [leadingWords, leadingConnector, hor]

/-- A line begins with a character that is neither blank nor the sign of a command by name. -/
theorem exists_head_lineOf (hfield : IsField field) :
    ∃ c cs, (lineOf connector field operator value).toList = c :: cs ∧ isBlank c = false ∧
      c ≠ ':' := by
  rw [toList_lineOf]
  cases connector with
  | and =>
      obtain ⟨⟨hne, hword⟩, hnamed, -⟩ := hfield
      rcases hcs : field.toList with - | ⟨c, cs⟩
      · exact absurd hcs hne
      · rw [hcs] at hword hnamed
        refine ⟨c, cs ++ ' ' :: (operator.words.flatMap (· ++ [' ']) ++ value.json), ?_,
          hword c List.mem_cons_self, hnamed c rfl⟩
        simp [leadingWords, hcs]
  | or => exact ⟨'o', _, rfl, by decide, by decide⟩

/-- The last character of the text of a value. -/
theorem exists_last_json (hvalue : value.Nests depth) :
    ∃ cs c, value.json = cs ++ [c] ∧ isBlank c = false := by
  cases hvalue with
  | null => exact ⟨['n', 'u', 'l'], 'l', rfl, by decide⟩
  | bool b =>
      cases b with
      | false => exact ⟨['f', 'a', 'l', 's'], 'e', rfl, by decide⟩
      | true => exact ⟨['t', 'r', 'u'], 'e', rfl, by decide⟩
  | int n =>
      rcases List.eq_nil_or_concat' (Literal.intText n).toList with hnil | ⟨cs, c, hcs⟩
      · obtain ⟨c, cs, htext, -⟩ := Json.Number.exists_head_intText n
        rw [hnil] at htext
        cases htext
      · refine ⟨cs, c, hcs, Literal.isBlank_of_mem_intText (n := n) ?_⟩
        rw [hcs]
        exact List.mem_append_right cs (List.mem_singleton.mpr rfl)
  | text s => exact ⟨_, '"', rfl, by decide⟩
  | @list _ items _ =>
      cases items with
      | nil => exact ⟨['['], ']', rfl, by decide⟩
      | cons item items => exact ⟨_, ']', rfl, by decide⟩

/-- The text of a value is not empty, and it does not end in a blank. -/
theorem not_blank_last_json (hvalue : value.Nests depth) :
    value.json ≠ [] ∧ ∀ c ∈ value.json.getLast?, isBlank c = false := by
  obtain ⟨cs, c, hcs, hc⟩ := exists_last_json hvalue
  rw [hcs, List.getLast?_concat]
  exact ⟨List.concat_ne_nil c cs, fun d hd => Option.mem_some.mp hd ▸ hc⟩

/-- The words of the text of a value are joined to the text of the squeezed value. -/
theorem joined_cut_json (hvalue : value.Nests depth) :
    joined ((cut [] value.json).map String.ofList) = value.squeezed.toJson := by
  have hsqueezed := Literal.squeezed_json hvalue true []
  rw [List.append_nil] at hsqueezed
  rw [joined_map, intercalate_cut [] (not_blank_last_json hvalue).2]
  show String.ofList (Text.squeezed isBlank true value.json) = value.squeezed.toJson
  rw [hsqueezed, Text.squeezed, List.append_nil, Literal.toJson]

theorem cut_json_ne_nil (hvalue : value.Nests depth) : cut [] value.json ≠ [] := by
  obtain ⟨cs, c, hcs, hc⟩ := exists_last_json hvalue
  intro hnil
  have hblank := isBlank_of_cut_eq_nil hnil c
  rw [hcs] at hblank
  rw [hblank (List.mem_append_right cs (List.mem_singleton.mpr rfl))] at hc
  cases hc

/-- The words of a line ask for the comparison with the squeezed value. -/
theorem ofWords_lineOf (hfield : IsField field) (hoperator : operator.takesValue = true)
    (hvalue : value.Nests Json.depthLimit) :
    ofWords ((leadingWords connector field ++ (operator.words ++ cut [] value.json)).map
      String.ofList) = .ok (.add connector field operator value.squeezed) := by
  have hlongest := longestOperator_typed hoperator fun w (hw : w ∈ cut [] value.json) =>
    isWord_of_mem_cut hw
  have hrest : ((cut [] value.json).map String.ofList).isEmpty = false := by
    rw [List.isEmpty_eq_false_iff]
    exact fun hnil => cut_json_ne_nil hvalue (List.map_eq_nil_iff.mp hnil)
  have hread : valueOf value.squeezed.toJson = value.squeezed := by
    rw [valueOf, Literal.ofJson?_toJson hvalue.squeezed]
    rfl
  rw [List.map_append, ofWords, leadingConnector_leadingWords hfield]
  simp only [hlongest, hoperator, hrest, joined_cut_json hvalue, hread]
  rfl

/-- A line is understood by its words. -/
theorem ofLine_lineOf_eq (hfield : IsField field) (hvalue : value.Nests depth) :
    ofLine (lineOf connector field operator value) =
      ofWords ((leadingWords connector field ++ (operator.words ++ cut [] value.json)).map
        String.ofList) := by
  have htrimmed : Trimmed (lineOf connector field operator value).toList := by
    refine ⟨?_, ?_⟩
    · obtain ⟨c, cs, hline, hc, -⟩ := exists_head_lineOf hfield
      rw [hline]
      intro d hd
      cases hd
      exact hc
    · obtain ⟨hne, hlast⟩ := not_blank_last_json hvalue
      rw [toList_lineOf, List.getLast?_append_of_ne_nil _ hne]
      exact hlast
  have hwords : cut [] (lineOf connector field operator value).toList =
      leadingWords connector field ++ (operator.words ++ cut [] value.json) := by
    rw [toList_lineOf, cut_words, List.append_assoc]
    intro w hw
    rcases List.mem_append.mp hw with hw | hw
    · exact isWord_of_mem_leadingWords hfield w hw
    · exact Operator.isWord_of_mem_words hw
  rw [ofLine, htrimmed.trimmed_eq, ← hwords]
  obtain ⟨c, cs, hline, -, hc⟩ := exists_head_lineOf hfield
  rw [hline]
  split
  · next heq => exact absurd (List.cons.inj heq).1 hc
  · rfl

end Line

/-- A comparison with a literal that is typed at the shell is understood as the comparison
with the same connector, field and operator, and with the literal in which one space stands
for each run of those blanks of a text that are not escaped.  So it is understood as typed if
and only if each of these blanks stands alone and is a space. -/
theorem ofLine_lineOf (connector : Connector) (field : String) (operator : Operator)
    (value : Literal) (hfield : IsField field) (hoperator : operator.takesValue = true)
    (hvalue : value.Nests Json.depthLimit) :
    ofLine (lineOf connector field operator value) =
        .ok (.add connector field operator value.squeezed) ∧
      (ofLine (lineOf connector field operator value) =
          .ok (.add connector field operator value) ↔
        ∀ s ∈ value.texts, Single Json.isBare s.toList) := by
  have hline : ofLine (lineOf connector field operator value) =
      .ok (.add connector field operator value.squeezed) := by
    rw [ofLine_lineOf_eq hfield hvalue, ofWords_lineOf hfield hoperator hvalue]
  refine ⟨hline, ?_⟩
  rw [hline, ← value.squeezed_eq_self_iff, Except.ok.injEq, add.injEq]
  simp

theorem isField_priority : IsField "priority" := by
  refine ⟨⟨by decide, isBlank_of_all rfl⟩, ?_, by decide⟩
  intro c hc
  cases hc
  decide

/-- A value without blanks is understood as typed. -/
theorem ofLine_lineOf_priority :
    IsField "priority" ∧ Operator.greaterEqual.takesValue = true ∧
      (Literal.int 3).Nests Json.depthLimit ∧
      ofLine (lineOf .or "priority" .greaterEqual (.int 3)) =
        .ok (.add .or "priority" .greaterEqual (.int 3)) := by
  have hline := ofLine_lineOf .or "priority" .greaterEqual (.int 3) isField_priority rfl (.int 3)
  exact ⟨isField_priority, rfl, .int 3, hline.1⟩

/-- Of two spaces in a text one is lost. -/
theorem ofLine_two_spaces :
    IsField "priority" ∧ Operator.equal.takesValue = true ∧
      (Literal.text "x  y").Nests Json.depthLimit ∧
      lineOf .and "priority" .equal (.text "x  y") = "priority = \"x  y\"" ∧
      ofLine "priority = \"x  y\"" = .ok (.add .and "priority" .equal (.text "x y")) ∧
      ofLine "priority = \"x  y\"" ≠ .ok (.add .and "priority" .equal (.text "x  y")) := by
  have hsqueezed : (Literal.text "x  y").squeezed = .text "x y" :=
    congrArg Literal.text (by decide +kernel)
  have htyped : lineOf .and "priority" .equal (.text "x  y") = "priority = \"x  y\"" := by
    decide +kernel
  have hline : ofLine "priority = \"x  y\"" =
      .ok (.add .and "priority" .equal (.text "x y")) := by
    rw [← htyped, ofLine_lineOf_eq isField_priority (@Literal.Nests.text 0 _),
      ofWords_lineOf isField_priority rfl (.text _), hsqueezed]
  refine ⟨isField_priority, rfl, .text _, htyped, hline, ?_⟩
  rw [hline]
  simp

end Shell.Command

end WhereClause

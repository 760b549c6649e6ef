/-
WhereClause/Proofs/JsonText.lean

A literal is read back from its JSON text.

This holds for literals without floating point numbers whose lists are nested as deep as a
text may nest them (`Literal.Nests`).  Their texts follow the grammar of JSON, and the value
that such a text stands for is the literal again (`Literal.Nests.exists_value`).  How texts of
the grammar are read is not looked at here.

A written character is one mark, whatever its form (`exists_chars_escaped`).  A number is
written without a needless zero (`Number.head_toDigits`).

In the other direction, a text with an object in it stands for no literal
(`HasObject.literal?_eq_none`).
-/
import WhereClause.Json.Literal
import WhereClause.Proofs.JsonGrammar

namespace WhereClause

namespace Json

/-! ### Numbers -/

namespace Number

/-- The first of the decimal digits of a number that is not zero is not zero either. -/
theorem head_toDigits {n : Nat} (hn : 0 < n) : ∃ d ds, Nat.toDigits 10 n = d :: ds ∧ d ≠ '0' := by
  have hdigit : ∀ n < 10, 0 < n → Nat.digitChar n ≠ '0' := by decide
  induction n using Nat.strongRecOn with
  | ind n ih =>
      rcases Nat.lt_or_ge n 10 with hlt | hge
      · exact ⟨n.digitChar, [], Nat.toDigits_of_lt_base hlt, hdigit n hlt hn⟩
      · obtain ⟨d, ds, hds, hd⟩ := ih (n / 10) (by omega) (by omega)
        refine ⟨d, ds ++ [(n % 10).digitChar], ?_, hd⟩
        rw [Nat.toDigits_of_base_le (by decide) hge, hds]
        rfl

theorem exists_head_toDigits (n : Nat) :
    ∃ d ds, Nat.toDigits 10 n = d :: ds ∧ d.isDigit = true := by
  rcases hds : Nat.toDigits 10 n with - | ⟨d, ds⟩
  · exact absurd hds Nat.toDigits_ne_nil
  · have hd : d ∈ Nat.toDigits 10 n := by
      rw [hds]
      exact List.mem_cons_self
    exact ⟨d, ds, rfl, Nat.isDigit_of_mem_toDigits (by decide) (by decide) hd⟩

theorem isDigits_toDigits (n : Nat) : IsDigits (Nat.toDigits 10 n) :=
  ⟨Nat.toDigits_ne_nil, fun _ hd => Nat.isDigit_of_mem_toDigits (by decide) (by decide) hd⟩

/-- The decimal digits of a number, behind a sign or not, are a number of the format. -/
theorem written_toDigits (negative : Bool) (n : Nat) :
    Written ⟨negative, Nat.toDigits 10 n, [], none⟩
      ((if negative then ['-'] else []) ++ Nat.toDigits 10 n) := by
  have hzero : (Nat.toDigits 10 n).head? = some '0' → Nat.toDigits 10 n = ['0'] := by
    intro hhead
    rcases Nat.eq_zero_or_pos n with rfl | hn
    · rfl
    · obtain ⟨d, ds, hds, hd⟩ := head_toDigits hn
      rw [hds] at hhead
      exact absurd (Option.some.inj hhead) hd
  have hwritten : Written ⟨negative, Nat.toDigits 10 n, [], none⟩ _ :=
    .intro (isDigits_toDigits n) hzero .none .none
  rwa [List.append_nil, List.append_nil] at hwritten

/-- An integer is written with its decimal digits, behind a sign if it is negative. -/
theorem intText_cases (n : Int64) :
    (∃ m, n.toInt = .ofNat m ∧ (Literal.intText n).toList = Nat.toDigits 10 m) ∨
      ∃ m, n.toInt = .negSucc m ∧
        (Literal.intText n).toList = '-' :: Nat.toDigits 10 (m + 1) := by
  rw [Literal.intText]
  rcases n.toInt with m | m
  · refine .inl ⟨m, rfl, ?_⟩
    show (toString m).toList = Nat.toDigits 10 m
    rw [Nat.toString_eq_ofList_toDigits, String.toList_ofList]
  · refine .inr ⟨m, rfl, ?_⟩
    show ("-" ++ toString (m + 1)).toList = '-' :: Nat.toDigits 10 (m + 1)
    rw [String.toList_append, Nat.toString_eq_ofList_toDigits]
    exact congrArg ('-' :: ·) String.toList_ofList

theorem isDigit_or_eq_of_mem_intText {n : Int64} {c : Char}
    (h : c ∈ (Literal.intText n).toList) : c.isDigit = true ∨ c = '-' := by
  have hdigit : ∀ m, c ∈ Nat.toDigits 10 m → c.isDigit = true := fun m hc =>
    Nat.isDigit_of_mem_toDigits (by decide) (by decide) hc
  rcases intText_cases n with ⟨m, -, htext⟩ | ⟨m, -, htext⟩
  · rw [htext] at h
    exact .inl (hdigit m h)
  · rw [htext] at h
    exact (List.mem_cons.mp h).elim .inr fun hc => .inl (hdigit (m + 1) hc)

/-- The text of an integer of 64 bits is a number that stands for the integer. -/
theorem exists_written_intText (n : Int64) :
    ∃ number, Written number (Literal.intText n).toList ∧ number.literal? = some (.int n) := by
  have hn : Int64.ofInt n.toInt = n := n.ofInt_toInt
  rcases intText_cases n with ⟨m, hz, htext⟩ | ⟨m, hz, htext⟩
  · have hm : m < Nat.pow 2 63 := by
      have hlt := n.toInt_lt
      rw [hz] at hlt
      exact Int.ofNat_lt.mp hlt
    have hint : int? ⟨false, Nat.toDigits 10 m, [], none⟩ = some n := by
      rw [← hn, hz]
      simp [int?, Nat.ofDigitChars_ten_toDigits, hm]
    refine ⟨_, ?_, by rw [literal?, hint]⟩
    rw [htext]
    exact written_toDigits false m
  · have hm : m + 1 ≤ Nat.pow 2 63 := by
      have hle := n.le_toInt
      rw [hz, Int.negSucc_eq, Int.neg_le_neg_iff] at hle
      exact Int.ofNat_le.mp hle
    have hint : int? ⟨true, Nat.toDigits 10 (m + 1), [], none⟩ = some n := by
      rw [← hn, hz, Int.negSucc_eq]
      simp [int?, Nat.ofDigitChars_ten_toDigits, hm]
    refine ⟨_, ?_, by rw [literal?, hint]⟩
    rw [htext]
    exact written_toDigits true (m + 1)

/-- The text of an integer begins with a digit or with a sign. -/
theorem exists_head_intText (n : Int64) :
    ∃ c cs, (Literal.intText n).toList = c :: cs ∧ (c.isDigit = true ∨ c = '-') := by
  rcases intText_cases n with ⟨m, -, htext⟩ | ⟨m, -, htext⟩
  · obtain ⟨d, ds, hds, hd⟩ := exists_head_toDigits m
    exact ⟨d, ds, htext.trans hds, .inl hd⟩
  · exact ⟨'-', _, htext, .inr rfl⟩

end Number

/-! ### Strings -/

/-- A code unit that is not half of a surrogate pair stands for itself. -/
theorem assemble_unit {code : Nat} (h : code < 0xD800) (marks : List Mark) :
    assemble (.unit code :: marks) = (assemble marks).map (Char.ofNat code :: ·) := by
  have hlow : isLowSurrogate code = false := by
    rw [isLowSurrogate, Bool.and_eq_false_iff]
    exact .inl (decide_eq_false (by omega))
  have hhigh : isHighSurrogate code = false := by
    rw [isHighSurrogate, Bool.and_eq_false_iff]
    exact .inl (decide_eq_false (by omega))
  rw [assemble.eq_def]
  simp only [hlow, hhigh]
  rfl

/-- The two last digits tell one control character from the other. -/
theorem fourHexDigits?_control :
    ∀ n < 0x20, fourHexDigits? '0' '0' (n / 16).digitChar (n % 16).digitChar = some n := by
  decide

/-- A written text is a row of marks that stand for its characters. -/
theorem exists_chars_escaped (cs : List Char) :
    ∃ marks, Chars marks (cs.flatMap escaped) ∧ assemble marks = some cs := by
  induction cs with
  | nil => exact ⟨[], .nil, rfl⟩
  | cons c cs ih =>
      obtain ⟨marks, hmarks, hcs⟩ := ih
      have hplain : assemble (.char c :: marks) = some (c :: cs) := by
        rw [assemble, hcs]
        rfl
      rw [List.flatMap_cons, escaped.eq_def]
      split
      -- a character without a short escape stands by its code or as it is
      case h_8 hquote hbackslash _ _ _ _ _ =>
        split
        · next hcontrol =>
            refine ⟨.unit c.toNat :: marks, .unit (fourHexDigits?_control _ hcontrol) hmarks, ?_⟩
            rw [assemble_unit (by omega), hcs, Char.ofNat_toNat]
            rfl
        · next hcontrol =>
            exact ⟨.char c :: marks, .plain hquote hbackslash hcontrol hmarks, hplain⟩
      all_goals exact ⟨.char _ :: marks, .short rfl hmarks, hplain⟩

/-- What is written between the quotes of a text stands for the text. -/
theorem exists_chars_textOf (s : String) :
    ∃ marks, Chars marks (s.toList.flatMap escaped) ∧ textOf marks = some s := by
  obtain ⟨marks, hchars, hassemble⟩ := exists_chars_escaped s.toList
  refine ⟨marks, hchars, ?_⟩
  rw [textOf, hassemble, Option.map_some, String.ofList_toList]

/-- A text in quotes stands for itself. -/
theorem value_quoted (s : String) : Value (string (some s)) (quoted s) := by
  obtain ⟨marks, hchars, htext⟩ := exists_chars_textOf s
  rw [← htext]
  exact .string hchars

end Json

/-! ### Values -/

/-- A literal without floating point numbers and with lists nested at most so deep. -/
inductive Literal.Nests : Nat → Literal → Prop
  | null {depth : Nat} : Nests depth null
  | bool {depth : Nat} (b : Bool) : Nests depth (bool b)
  | int {depth : Nat} (n : Int64) : Nests depth (int n)
  | text {depth : Nat} (s : String) : Nests depth (text s)
  | list {depth : Nat} {items : List Literal} :
      (∀ item ∈ items, Nests depth item) → Nests (depth + 1) (list items)

namespace Json

/-- No blanks are blanks as well. -/
theorem gap_nil : Gap [] :=
  List.forall_mem_nil _

theorem Value.element {value : Json} {cs : List Char} (h : Value value cs) : Element value cs := by
  have helement := Element.intro gap_nil h gap_nil
  rwa [List.append_nil, List.nil_append] at helement

end Json

open Json

/-- The members of a list are the values of an array. -/
theorem Literal.exists_elements {depth : Nat} {item : Literal} {items : List Literal}
    (h : ∀ l ∈ item :: items, ∃ value, Value value l.json ∧ value.depth ≤ depth ∧
      value.literal? = some l) :
    ∃ values, Elements values (item.json ++ jsonRest items) ∧ itemsDepth values ≤ depth ∧
      literals? values = some (item :: items) := by
  induction items generalizing item with
  | nil =>
      obtain ⟨value, hwritten, hdepth, hvalue⟩ := h item List.mem_cons_self
      refine ⟨[value], ?_, by simpa [itemsDepth] using hdepth, by simp [literals?, hvalue]⟩
      rw [jsonRest, List.append_nil]
      exact .last hwritten.element
  | cons next items ih =>
      obtain ⟨hitem, hitems⟩ := List.forall_mem_cons.mp h
      obtain ⟨value, hwritten, hdepth, hvalue⟩ := hitem
      obtain ⟨values, hwrittens, hdepths, hvalues⟩ := ih hitems
      refine ⟨value :: values, ?_, max_le hdepth hdepths, by simp [literals?, hvalue, hvalues]⟩
      rw [jsonRest]
      exact .more hwritten.element hwrittens

/-- The text of a literal is that of a value which stands for the literal. -/
theorem Literal.Nests.exists_value {depth : Nat} {l : Literal} (h : l.Nests depth) :
    ∃ value, Value value l.json ∧ value.depth ≤ depth ∧ value.literal? = some l := by
  induction h with
  | null => exact ⟨.null, .null, Nat.zero_le _, rfl⟩
  | bool b =>
      refine ⟨.bool b, ?_, Nat.zero_le _, rfl⟩
      cases b with
      | false => exact Value.bool false
      | true => exact Value.bool true
  | int n =>
      obtain ⟨number, hwritten, hvalue⟩ := Number.exists_written_intText n
      exact ⟨.number number, .number hwritten, Nat.zero_le _, hvalue⟩
  | text s => exact ⟨.string (some s), value_quoted s, Nat.zero_le _, rfl⟩
  | @list depth items _ ih =>
      cases items with
      | nil => exact ⟨.array [], .emptyArray gap_nil, Nat.succ_le_succ (Nat.zero_le depth), rfl⟩
      | cons item items =>
          obtain ⟨values, hwrittens, hdepths, hvalues⟩ := exists_elements ih
          exact ⟨.array values, .array hwrittens, Nat.succ_le_succ hdepths,
            by simp [literal?, hvalues]⟩

/-- A literal is read back from its JSON text. -/
theorem Literal.ofJson?_toJson {l : Literal} (h : l.Nests Json.depthLimit) :
    Literal.ofJson? l.toJson = some l := by
  obtain ⟨value, hwritten, hdepth, hvalue⟩ := h.exists_value
  rw [ofJson?, toJson, hwritten.element.ofText?]
  simp [hdepth, hvalue]

/-! ### Objects -/

/-- There is an object in a value, at any depth. -/
inductive Json.HasObject : Json → Prop
  | here (entries : List (Option String × Json)) : HasObject (object entries)
  | within {item : Json} {items : List Json} : item ∈ items → HasObject item →
      HasObject (array items)

/-- A list of values stands for literals only if each of the values does. -/
theorem Json.literals?_eq_none {item : Json} {items : List Json} (hitem : item ∈ items)
    (h : item.literal? = none) : literals? items = none := by
  induction items with
  | nil => cases hitem
  | cons first rest ih =>
      rw [literals?]
      rcases List.mem_cons.mp hitem with rfl | hrest
      · rw [h]
        rfl
      · rw [ih hrest]
        rcases first.literal? with - | l
        · rfl
        · rfl

/-- A value with an object in it stands for no literal. -/
theorem Json.HasObject.literal?_eq_none {value : Json} (h : value.HasObject) :
    value.literal? = none := by
  induction h with
  | here entries => rfl
  | within hitem _ ih =>
      rw [literal?, literals?_eq_none hitem ih]
      rfl

/-- A literal without floating point numbers whose lists are nested as deep as a text may nest
them is read back from its JSON text, and no text with an object in it is read as a literal. -/
theorem Literal.read_back_or_refused :
    (∀ l : Literal, l.Nests Json.depthLimit → Literal.ofJson? l.toJson = some l) ∧
      ∀ (value : Json) (cs : List Char), Json.Element value cs → value.HasObject →
        Literal.ofJson? (String.ofList cs) = none := by
  refine ⟨fun l h => ofJson?_toJson h, fun value cs hwritten hobject => ?_⟩
  rw [ofJson?, hwritten.ofText?]
  simp [hobject.literal?_eq_none]

theorem Literal.read_back_or_refused_nested :
    (Literal.list [.int Int64.minValue, .text "\"", .list [], .null]).Nests Json.depthLimit ∧
      Literal.ofJson? "[-9223372036854775808,\"\\\"\",[],null]" =
        some (.list [.int Int64.minValue, .text "\"", .list [], .null]) ∧
      Json.Element (.array [.object []]) "[ \x7b\x7d ]".toList ∧
      Literal.ofJson? "[ \x7b\x7d ]" = none := by
  have hnests : (Literal.list [.int Int64.minValue, .text "\"", .list [], .null]).Nests
      Json.depthLimit := by
    refine .list fun item hitem => ?_
    simp only [List.mem_cons, List.not_mem_nil, or_false] at hitem
    rcases hitem with rfl | rfl | rfl | rfl
    · exact .int _
    · exact .text _
    · exact .list nofun
    · exact .null
  have hspace : Json.Gap [' '] := List.forall_mem_singleton.mpr rfl
  have helement : Json.Element (.array [.object []]) "[ \x7b\x7d ]".toList :=
    (Json.Value.array (.last (.intro hspace (.emptyObject gap_nil) hspace))).element
  have htext : (Literal.list [.int Int64.minValue, .text "\"", .list [], .null]).toJson =
      "[-9223372036854775808,\"\\\"\",[],null]" := by decide +kernel
  refine ⟨hnests, ?_, helement, ?_⟩
  · rw [← htext]
    exact read_back_or_refused.1 _ hnests
  · exact read_back_or_refused.2 _ _ helement (.within List.mem_cons_self (.here []))

end WhereClause

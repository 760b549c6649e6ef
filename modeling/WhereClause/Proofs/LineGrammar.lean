/-
WhereClause/Proofs/LineGrammar.lean

The lines that are understood as comparisons.

A line without a colon at its beginning is understood by its words.  `Asks` says which
comparison they ask for, without regard to how it is found: an `or` in front, a field, the
longest row of words that spells an operator, and a value for operators that take one.
`ofLine_iff_asks` says that a line is understood in this way or not at all.

An operator is only looked for among the first three words behind the field.  No longer row
of words spells one: words are joined by spaces, which are neither trimmed off nor lost in
upper case, and no spelling has more than two of them (`ofText?_joined_eq_none`).
-/
import WhereClause.Proofs.TypedLine

namespace WhereClause

namespace Text

/-! ### The words of a text -/

/-- The words of a text: runs of characters that are not blank, with blanks around them. -/
inductive Separated : List Char → List (List Char) → Prop
  | blank {gap : List Char} : (∀ c ∈ gap, isBlank c = true) → Separated gap []
  | last {gap w : List Char} : (∀ c ∈ gap, isBlank c = true) → IsWord w → Separated (gap ++ w) [w]
  | more {gap w cs : List Char} {d : Char} {ws : List (List Char)} :
      (∀ c ∈ gap, isBlank c = true) → IsWord w → isBlank d = true → Separated (d :: cs) ws →
      Separated (gap ++ w ++ d :: cs) (w :: ws)

theorem Separated.cons {c : Char} {cs : List Char} {ws : List (List Char)}
    (hc : isBlank c = true) (h : Separated cs ws) : Separated (c :: cs) ws := by
  cases h with
  | blank hgap => exact .blank (List.forall_mem_cons.mpr ⟨hc, hgap⟩)
  | last hgap hw => exact .last (List.forall_mem_cons.mpr ⟨hc, hgap⟩) hw
  | more hgap hw hd hrest => exact .more (List.forall_mem_cons.mpr ⟨hc, hgap⟩) hw hd hrest

/-- A text is cut into its words. -/
theorem separated_cut {carry : List Char} (hcarry : ∀ c ∈ carry, isBlank c = false)
    (cs : List Char) : Separated (carry.reverse ++ cs) (cut carry cs) := by
  have hnone : ∀ c ∈ ([] : List Char), isBlank c = true := List.forall_mem_nil _
  have hword : ∀ {carry : List Char}, (∀ c ∈ carry, isBlank c = false) → carry ≠ [] →
      IsWord carry.reverse := fun hcarry hne =>
    ⟨fun h => hne (List.reverse_eq_nil_iff.mp h), fun c hc => hcarry c (List.mem_reverse.mp hc)⟩
  induction cs generalizing carry with
  | nil =>
      rw [cut, List.append_nil]
      split
      · next hnil =>
          rw [hnil]
          exact .blank hnone
      · next hne => exact .last hnone (hword hcarry hne)
  | cons c cs ih =>
      rw [cut]
      split
      · next hc =>
          have hrest : Separated (c :: cs) (cut [] cs) := .cons hc (ih (List.forall_mem_nil _))
          split
          · next hnil =>
              rw [hnil]
              exact hrest
          · next hne => exact .more hnone (hword hcarry hne) hc hrest
      · next hc =>
          have hcarried : ∀ d ∈ c :: carry, isBlank d = false :=
            List.forall_mem_cons.mpr ⟨Bool.eq_false_iff.mpr hc, hcarry⟩
          have hrest := ih hcarried
          rwa [List.reverse_cons, List.append_assoc, List.singleton_append] at hrest

theorem cut_of_blank {cs : List Char} (h : ∀ c ∈ cs, isBlank c = true) (carry : List Char) :
    cut carry cs = cut carry [] := by
  induction cs generalizing carry with
  | nil => rfl
  | cons c cs ih =>
      obtain ⟨hc, hcs⟩ := List.forall_mem_cons.mp h
      conv_lhs => rw [cut, if_pos hc, ih hcs]
      rfl

theorem cut_append_blank {bs : List Char} (h : ∀ c ∈ bs, isBlank c = true) (carry cs : List Char) :
    cut carry (cs ++ bs) = cut carry cs := by
  induction cs generalizing carry with
  | nil => exact cut_of_blank h carry
  | cons c cs ih => rw [List.cons_append, cut, cut, ih, ih]

theorem cut_blank_append {bs : List Char} (h : ∀ c ∈ bs, isBlank c = true) (cs : List Char) :
    cut [] (bs ++ cs) = cut [] cs := by
  induction bs with
  | nil => rfl
  | cons b bs ih =>
      obtain ⟨hb, hbs⟩ := List.forall_mem_cons.mp h
      rw [List.cons_append, cut, if_pos hb, if_pos rfl, ih hbs]

/-- The blanks at the ends of a text do not matter for its words. -/
theorem cut_trimmed (cs : List Char) : cut [] (trimmed cs) = cut [] cs := by
  have hfront : cut [] (cs.dropWhile isBlank) = cut [] cs := by
    conv_rhs => rw [← List.takeWhile_append_dropWhile (p := isBlank) (l := cs)]
    exact (cut_blank_append (fun c hc => List.mem_takeWhile_imp hc) _).symm
  rw [← hfront, trimmed]
  generalize cs.dropWhile isBlank = ds
  have hds : ds = (ds.reverse.dropWhile isBlank).reverse ++ (ds.reverse.takeWhile isBlank).reverse := by
    rw [← List.reverse_append, List.takeWhile_append_dropWhile, List.reverse_reverse]
  conv_rhs => rw [hds]
  refine (cut_append_blank (fun c hc => ?_) [] _).symm
  exact List.mem_takeWhile_imp (List.mem_reverse.mp hc)

/-! ### Words that are joined -/

/-- Joined words have a space between any two of them. -/
theorem length_le_count_intercalate (ws : List (List Char)) :
    ws.length ≤ ([' '].intercalate ws).count ' ' + 1 := by
  induction ws with
  | nil => exact Nat.zero_le _
  | cons w ws ih =>
      rcases ws with - | ⟨v, ws⟩
      · exact Nat.le_add_left 1 _
      · rw [List.intercalate_cons_cons, List.count_append, List.count_append, List.length_cons]
        have hspace : [' '].count ' ' = 1 := rfl
        omega

/-- Joined words neither begin nor end with a blank. -/
theorem trimmed_intercalate {ws : List (List Char)} (hws : ∀ w ∈ ws, IsWord w) :
    Trimmed ([' '].intercalate ws) := by
  rcases ws with - | ⟨w, ws⟩
  · exact ⟨nofun, nofun⟩
  · have hlast := exists_last_intercalate hws (List.cons_ne_nil w ws)
    refine ⟨fun c hc => ?_, hlast.2⟩
    obtain ⟨hne, hword⟩ := hws w List.mem_cons_self
    rcases w with - | ⟨d, w⟩
    · exact absurd rfl hne
    · have hhead : ([' '].intercalate ((d :: w) :: ws)).head? = some d := by
        rcases ws with - | ⟨v, ws⟩
        · rfl
        · rw [List.intercalate_cons_cons]
          rfl
      rw [hhead] at hc
      exact hword c (Option.some.inj hc ▸ List.mem_cons_self)

/-- Spaces are kept in upper case. -/
theorem count_le_count_upper (cs : List Char) :
    cs.count ' ' ≤ (cs.flatMap upperChar).count ' ' := by
  induction cs with
  | nil => exact Nat.zero_le _
  | cons c cs ih =>
      rw [List.flatMap_cons, List.count_append, List.count_cons]
      split
      · next hc =>
          rw [eq_of_beq hc]
          have hspace : (upperChar ' ').count ' ' = 1 := by decide
          omega
      · omega

end Text

open Text

/-! ### The longest operator -/

namespace Operator

/-- No spelling of an operator has more than two spaces in it. -/
theorem count_spelling_le : ∀ spelling ∈ spellings, spelling.1.toList.count ' ' ≤ 2 := by
  decide +kernel

end Operator

namespace Shell.Command

theorem toList_joined (words : List String) :
    (joined words).toList = [' '].intercalate (words.map String.toList) :=
  String.toList_intercalate

/-- Words in a greater number than an operator can have spell none. -/
theorem ofText?_joined_eq_none {words : List String} (hwords : ∀ w ∈ words, IsWord w.toList)
    (h : operatorWords < words.length) : Operator.ofText? (joined words) = none := by
  have hlist : ∀ w ∈ words.map String.toList, IsWord w := by
    intro w hw
    obtain ⟨s, hs, rfl⟩ := List.mem_map.mp hw
    exact hwords s hs
  rw [Operator.ofText?, trim, toList_joined, (trimmed_intercalate hlist).trimmed_eq,
    List.lookup_eq_none_iff]
  intro spelling hspelling
  rw [bne_iff_ne]
  intro heq
  have hspelled := Operator.count_spelling_le spelling hspelling
  rw [← heq, upper, String.toList_ofList, String.toList_ofList] at hspelled
  have hjoined := length_le_count_intercalate (words.map String.toList)
  have hupper := count_le_count_upper ([' '].intercalate (words.map String.toList))
  rw [List.length_map] at hjoined
  have hthree : operatorWords = 3 := rfl
  omega

/-- The first `k` of some words spell an operator, and no greater number of first words
spells one. -/
structure SpellsLongest (words : List String) (k : Nat) (operator : Operator) : Prop where
  pos : 1 ≤ k
  le : k ≤ words.length
  spelled : Operator.ofText? (joined (words.take k)) = some operator
  longest : ∀ j, k < j → j ≤ words.length → Operator.ofText? (joined (words.take j)) = none

/-- What is found among the first `n` words is the longest operator there. -/
theorem longestOperator_eq_some_iff {words : List String} {n : Nat} {operator : Operator}
    {rest : List String} :
    longestOperator words n = some (operator, rest) ↔
      ∃ k, 1 ≤ k ∧ k ≤ n ∧ Operator.ofText? (joined (words.take k)) = some operator ∧
        (∀ j, k < j → j ≤ n → Operator.ofText? (joined (words.take j)) = none) ∧
        rest = words.drop k := by
  induction n with
  | zero =>
      rw [longestOperator]
      refine iff_of_false (Option.some_ne_none _).symm ?_
      rintro ⟨k, hpos, hle, -⟩
      omega
  | succ n ih =>
      rw [longestOperator]
      rcases hspelled : Operator.ofText? (joined (words.take (n + 1))) with - | found
      · show longestOperator words n = some (operator, rest) ↔ _
        rw [ih]
        constructor
        · rintro ⟨k, hpos, hle, hk, hlongest, hrest⟩
          refine ⟨k, hpos, Nat.le_succ_of_le hle, hk, fun j hkj hj => ?_, hrest⟩
          rcases Nat.lt_or_eq_of_le hj with hj | rfl
          · exact hlongest j hkj (Nat.le_of_lt_succ hj)
          · exact hspelled
        · rintro ⟨k, hpos, hle, hk, hlongest, hrest⟩
          have hne : k ≠ n + 1 := by
            rintro rfl
            rw [hspelled] at hk
            cases hk
          exact ⟨k, hpos, by omega, hk, fun j hkj hj => hlongest j hkj (Nat.le_succ_of_le hj),
            hrest⟩
      · show some (found, words.drop (n + 1)) = some (operator, rest) ↔ _
        constructor
        · rintro heq
          cases heq
          exact ⟨n + 1, by omega, Nat.le_refl _, hspelled, fun j hkj hj => by omega, rfl⟩
        · rintro ⟨k, hpos, hle, hk, hlongest, rfl⟩
          -- a shorter one would not be the longest
          rcases Nat.lt_or_eq_of_le hle with hlt | rfl
          · rw [hlongest (n + 1) hlt (Nat.le_refl _)] at hspelled
            cases hspelled
          · rw [hk] at hspelled
            cases hspelled
            rfl

/-- The operator that is found behind a field is spelled by the longest row of words that
spells one. -/
theorem longestOperator_iff_spellsLongest {words : List String}
    (hwords : ∀ w ∈ words, IsWord w.toList) {operator : Operator} {rest : List String} :
    longestOperator words (min operatorWords words.length) = some (operator, rest) ↔
      ∃ k, SpellsLongest words k operator ∧ rest = words.drop k := by
  have hmany : ∀ j, operatorWords < j → j ≤ words.length →
      Operator.ofText? (joined (words.take j)) = none := fun j hj hle =>
    ofText?_joined_eq_none (fun w hw => hwords w (List.mem_of_mem_take hw)) (by
      rwa [List.length_take, Nat.min_eq_left hle])
  rw [longestOperator_eq_some_iff]
  constructor
  · rintro ⟨k, hpos, hle, hk, hlongest, hrest⟩
    refine ⟨k, ⟨hpos, by omega, hk, fun j hkj hj => ?_⟩, hrest⟩
    rcases Nat.lt_or_ge operatorWords j with hlt | hge
    · exact hmany j hlt hj
    · exact hlongest j hkj (by omega)
  · rintro ⟨k, ⟨hpos, hle, hk, hlongest⟩, hrest⟩
    have hbound : k ≤ operatorWords := by
      rcases Nat.lt_or_ge operatorWords k with hlt | hge
      · rw [hmany k hlt hle] at hk
        cases hk
      · exact hge
    exact ⟨k, hpos, by omega, hk, fun j hkj hj => hlongest j hkj (by omega), hrest⟩

/-! ### The comparison that is asked for -/

/-- The texts that are `or` in some mixture of cases. -/
def spellingsOfOr : List String :=
  ["or", "oR", "Or", "OR"]

/-- The connector that leads some words, and the words after it. -/
inductive Leads : List String → Connector → List String → Prop
  | or {word : String} {rest : List String} : word ∈ spellingsOfOr → Leads (word :: rest) .or rest
  | and {words : List String} : (∀ word ∈ words.head?, word ∉ spellingsOfOr) → Leads words .and words

/-- The value that the words behind an operator stand for. -/
inductive StandsFor (operator : Operator) (words : List String) : Literal → Prop
  | null : operator.takesValue = false → StandsFor operator words .null
  | json {value : Literal} : operator.takesValue = true → words ≠ [] →
      Literal.ofJson? (joined words) = some value → StandsFor operator words value
  | text : operator.takesValue = true → words ≠ [] → Literal.ofJson? (joined words) = none →
      StandsFor operator words (.text (joined words))

/-- The comparison that some words ask for. -/
inductive Asks (words : List String) (connector : Connector) (field : String)
    (operator : Operator) (value : Literal) : Prop
  | intro {rest : List String} {k : Nat} : Leads words connector (field :: rest) →
      SpellsLongest rest k operator → StandsFor operator (rest.drop k) value →
      Asks words connector field operator value

/-- A character in lower case is the same character, or it is the one 32 places later. -/
theorem toLower_cases (c : Char) : c.toLower = c ∨ c.toLower.toNat = c.toNat + 32 := by
  unfold Char.toLower
  split
  · next h =>
      have hz : c.val.toNat ≤ 90 := UInt32.le_iff_toNat_le.mp h.2
      right
      show (c.val + 32).toNat = c.val.toNat + 32
      rw [UInt32.toNat_add]
      exact Nat.mod_eq_of_lt (by show _ + 32 < _; omega)
  · exact .inl rfl

theorem isOr_iff {word : String} : isOr word = true ↔ word ∈ spellingsOfOr := by
  have hcase : ∀ c lower upper : Char, upper.toNat + 32 = lower.toNat → c.toLower = lower →
      c = lower ∨ c = upper := by
    intro c lower upper hupper hlower
    rcases toLower_cases c with heq | heq
    · exact .inl (heq.symm.trans hlower)
    · refine .inr (Char.toNat_inj.mp ?_)
      rw [hlower] at heq
      omega
  constructor
  · intro h
    have hchars : word.toList.map Char.toLower = ['o', 'r'] := eq_of_beq h
    rw [← String.ofList_toList (s := word)]
    generalize word.toList = cs at hchars ⊢
    rcases cs with - | ⟨c, - | ⟨d, - | ⟨e, cs⟩⟩⟩
    · simp at hchars
    · simp at hchars
    · obtain ⟨hc, hd⟩ := List.cons.inj hchars
      rcases hcase c 'o' 'O' rfl hc with rfl | rfl <;>
        rcases hcase d 'r' 'R' rfl (List.cons.inj hd).1 with rfl | rfl <;> decide
    · simp at hchars
  · intro h
    simp only [spellingsOfOr, List.mem_cons, List.not_mem_nil, or_false] at h
    rcases h with rfl | rfl | rfl | rfl <;> decide

theorem leads_iff {words rest : List String} {connector : Connector} :
    Leads words connector rest ↔ leadingConnector words = (connector, rest) := by
  constructor
  · intro h
    cases h with
    | or hword => rw [leadingConnector, if_pos (isOr_iff.mpr hword)]
    | and hwords =>
        rcases words with - | ⟨word, words⟩
        · rfl
        · have hword : ¬isOr word = true := fun h => hwords word rfl (isOr_iff.mp h)
          rw [leadingConnector, if_neg hword]
  · intro h
    rcases words with - | ⟨word, words⟩
    · cases h
      refine .and fun word hword => ?_
      cases hword
    · rw [leadingConnector] at h
      split at h
      · next hor =>
          cases h
          exact .or (isOr_iff.mp hor)
      · next hor =>
          cases h
          refine .and fun w hw hspelled => hor (isOr_iff.mpr ?_)
          cases hw
          exact hspelled

/-- The words behind an operator stand for a value unless one is missing. -/
theorem standsFor_iff {operator : Operator} {words : List String} {value : Literal} :
    StandsFor operator words value ↔
      if operator.takesValue = true then words ≠ [] ∧ value = valueOf (joined words)
      else value = .null := by
  constructor
  · intro h
    cases h with
    | null htakes => simp [htakes]
    | json htakes hne hread => simp [htakes, hne, valueOf, hread]
    | text htakes hne hread => simp [htakes, hne, valueOf, hread]
  · intro h
    split at h
    · next htakes =>
        obtain ⟨hne, rfl⟩ := h
        rcases hread : Literal.ofJson? (joined words) with - | value
        · rw [valueOf, hread]
          exact .text htakes hne hread
        · rw [valueOf, hread]
          exact .json htakes hne hread
    · next htakes =>
        rw [h]
        exact .null (Bool.eq_false_iff.mpr htakes)

section Words

variable {words : List String} (hwords : ∀ w ∈ words, IsWord w.toList)
include hwords

theorem asks_iff {connector : Connector} {field : String} {operator : Operator} {value : Literal} :
    Asks words connector field operator value ↔
      ∃ rest after, leadingConnector words = (connector, field :: rest) ∧
        longestOperator rest (min operatorWords rest.length) = some (operator, after) ∧
        StandsFor operator after value := by
  -- what is left of the words are words
  have hrest : ∀ {rest}, Leads words connector (field :: rest) → ∀ w ∈ rest, IsWord w.toList := by
    intro rest h w hw
    cases h with
    | or _ => exact hwords w (List.mem_cons_of_mem _ (List.mem_cons_of_mem _ hw))
    | and _ => exact hwords w (List.mem_cons_of_mem _ hw)
  constructor
  · rintro ⟨hleads, hlongest, hvalue⟩
    exact ⟨_, _, leads_iff.mp hleads,
      (longestOperator_iff_spellsLongest (hrest hleads)).mpr ⟨_, hlongest, rfl⟩, hvalue⟩
  · rintro ⟨rest, after, hleading, hfound, hvalue⟩
    have hleads := leads_iff.mpr hleading
    obtain ⟨k, hlongest, rfl⟩ := (longestOperator_iff_spellsLongest (hrest hleads)).mp hfound
    exact .intro hleads hlongest hvalue

/-- Words are understood as the comparison that they ask for. -/
theorem ofWords_eq_ok_iff {command : Command} :
    ofWords words = .ok command ↔
      ∃ connector field operator value, command = .add connector field operator value ∧
        Asks words connector field operator value := by
  simp only [asks_iff hwords, standsFor_iff]
  rw [ofWords]
  rcases hleading : leadingConnector words with ⟨connector, - | ⟨field, rest⟩⟩
  · simp
  · rcases hfound : longestOperator rest (min operatorWords rest.length) with - | ⟨operator, after⟩
    · simp [hfound]
    · rcases htakes : operator.takesValue with - | -
      · simp [hfound, htakes, eq_comm (a := command)]
      · rcases after with - | ⟨word, after⟩
        · simp [hfound, htakes]
        · simp [hfound, htakes, eq_comm (a := command)]

end Words

/-- A line that does not begin with a colon is understood by its words.  It is understood as
a comparison if its words ask for this comparison, and if they ask for none then it is not
understood. -/
theorem ofLine_iff_asks (line : String) (h : ∀ c ∈ (trimmed line.toList).head?, c ≠ ':') :
    Separated line.toList ((words line).map String.toList) ∧
      (∀ command, ofLine line = .ok command ↔
        ∃ connector field operator value, command = .add connector field operator value ∧
          Asks (words line) connector field operator value) ∧
      ((∃ reason, ofLine line = .error reason) ↔
        ¬∃ connector field operator value, Asks (words line) connector field operator value) := by
  have hchars : (words line).map String.toList = cut [] line.toList := by
    rw [words, List.map_map]
    exact (List.map_congr_left fun w _ => String.toList_ofList).trans (List.map_id _)
  have hline : ofLine line = ofWords (words line) := by
    rw [words, ← cut_trimmed, ofLine]
    split
    · next heq =>
        rw [heq] at h
        exact absurd rfl (h ':' rfl)
    · rfl
  have hwords : ∀ w ∈ words line, IsWord w.toList := by
    intro w hw
    have hmem := List.mem_map_of_mem (f := String.toList) hw
    rw [hchars] at hmem
    exact isWord_of_mem_cut hmem
  rw [hline]
  refine ⟨?_, fun command => ofWords_eq_ok_iff hwords, ?_⟩
  · rw [hchars]
    exact separated_cut (List.forall_mem_nil _) line.toList
  · rcases hfound : ofWords (words line) with reason | command
    · refine iff_of_true ⟨reason, rfl⟩ ?_
      rintro ⟨connector, field, operator, value, hasks⟩
      have hok := (ofWords_eq_ok_iff hwords).mpr ⟨connector, field, operator, value, rfl, hasks⟩
      rw [hfound] at hok
      cases hok
    · obtain ⟨connector, field, operator, value, -, hasks⟩ := (ofWords_eq_ok_iff hwords).mp hfound
      refine iff_of_false ?_ fun hnone => hnone ⟨connector, field, operator, value, hasks⟩
      rintro ⟨reason, heq⟩
      cases heq

/-- Three words are taken for the operator, and no value is missed behind them. -/
theorem ofLine_iff_asks_isNotNull :
    (∀ c ∈ (trimmed " OR owner is not null ".toList).head?, c ≠ ':') ∧
      ofLine " OR owner is not null " = .ok (.add .or "owner" .notNull .null) ∧
      Asks ["OR", "owner", "is", "not", "null"] .or "owner" .notNull .null := by
  have hhead : ∀ c ∈ (trimmed " OR owner is not null ".toList).head?, c ≠ ':' := by
    intro c hc
    cases hc
    decide
  have hwords : words " OR owner is not null " = ["OR", "owner", "is", "not", "null"] := by
    decide +kernel
  have hasks : Asks ["OR", "owner", "is", "not", "null"] .or "owner" .notNull .null := by
    refine .intro (k := 3) (.or (by decide)) ⟨by decide, by decide, by decide +kernel, ?_⟩ (.null rfl)
    intro j hj hle
    exact absurd hle (by simp; omega)
  refine ⟨hhead, ?_, hasks⟩
  rw [(ofLine_iff_asks " OR owner is not null " hhead).2.1]
  exact ⟨_, _, _, _, rfl, hwords ▸ hasks⟩

end Shell.Command

end WhereClause

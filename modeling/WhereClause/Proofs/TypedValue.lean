/-
WhereClause/Proofs/TypedValue.lean

The blanks in the JSON text of a literal.

The text of a literal has no blanks but those that stand for themselves in a string
(`Json.isBare`).  To squeeze its runs of blanks is therefore to squeeze those in the texts of
the literal, and nothing else (`Literal.squeezed_json`).  Nothing happens to a literal if all
these blanks are single spaces (`Literal.squeezed_eq_self_iff`).
-/
import WhereClause.Proofs.JsonText
import WhereClause.Proofs.Words

namespace WhereClause

open Text

/-! ### Blanks in JSON texts -/

namespace Json

/-- A blank that stands for itself in a string. -/
def isBare (c : Char) : Bool :=
  isBlank c && 0x20 ≤ c.toNat

/-- Bare blanks are neither quotes nor backslashes nor control characters. -/
theorem escaped_of_isBare {c : Char} (h : isBare c = true) : escaped c = [c] := by
  obtain ⟨hblank, hcontrol⟩ := Bool.and_eq_true_iff.mp h
  rw [escaped.eq_def]
  split
  case h_8 => exact if_neg (Nat.not_lt.mpr (of_decide_eq_true hcontrol))
  all_goals exact absurd h (by decide)

theorem isBlank_control : ∀ n < 0x20,
    (('\\' :: 'u' :: '0' :: '0' :: twoHexDigits n).all fun d => !isBlank d) = true := by
  decide

/-- Any other character is written without blanks. -/
theorem isBlank_of_mem_escaped {c : Char} (h : isBare c = false) :
    ∀ d ∈ escaped c, isBlank d = false := by
  rw [escaped.eq_def]
  split
  case h_8 =>
    split
    · next hcontrol => exact isBlank_of_all (isBlank_control c.toNat hcontrol)
    · next hcontrol =>
        intro d hd
        rw [List.mem_singleton.mp hd]
        refine Bool.eq_false_iff.mpr fun hblank => ?_
        rw [isBare, hblank, Bool.true_and] at h
        exact hcontrol (Nat.lt_of_not_le (of_decide_eq_false h))
  all_goals exact isBlank_of_all rfl

theorem escaped_ne_nil (c : Char) : escaped c ≠ [] := by
  rw [escaped.eq_def]
  split
  case h_8 =>
    split
    · exact List.cons_ne_nil _ _
    · exact List.cons_ne_nil _ _
  all_goals exact List.cons_ne_nil _ _

/-- To squeeze a written string is to squeeze its bare blanks. -/
theorem squeezed_escaped (after : Bool) (cs rest : List Char) :
    squeezed isBlank after (cs.flatMap escaped ++ '"' :: rest) =
      (squeezed isBare after cs).flatMap escaped ++ '"' :: squeezed isBlank false rest := by
  induction cs generalizing after with
  | nil => exact squeezed_cons (by decide)
  | cons c cs ih =>
      rw [List.flatMap_cons, List.append_assoc]
      rcases hc : isBare c with - | -
      · rw [squeezed_append (isBlank_of_mem_escaped hc) (escaped_ne_nil c), ih, squeezed_cons hc,
          List.flatMap_cons, List.append_assoc]
      · have hblank : isBlank c = true := (Bool.and_eq_true_iff.mp hc).1
        rw [escaped_of_isBare hc, List.singleton_append, squeezed_blank hblank, squeezed_blank hc,
          ih]
        cases after with
        | true => rfl
        | false => rfl

end Json

/-! ### Literals with squeezed texts -/

namespace Literal

mutual

/-- The texts in a literal, at any depth. -/
def texts : Literal → List String
  | text s => [s]
  | list items => itemsTexts items
  | _ => []

/-- The texts in some literals. -/
def itemsTexts : List Literal → List String
  | [] => []
  | item :: rest => item.texts ++ itemsTexts rest

end

mutual

/-- A literal with one space in the place of each run of bare blanks in its texts. -/
def squeezed : Literal → Literal
  | text s => text (String.ofList (Text.squeezed Json.isBare false s.toList))
  | list items => list (squeezedItems items)
  | l => l

/-- Literals with squeezed texts. -/
def squeezedItems : List Literal → List Literal
  | [] => []
  | item :: rest => item.squeezed :: squeezedItems rest

end

mutual

/-- A literal is left as it is if all the bare blanks in its texts are single spaces. -/
theorem squeezed_eq_self_iff : ∀ l : Literal,
    l.squeezed = l ↔ ∀ s ∈ l.texts, Single Json.isBare s.toList
  | null => iff_of_true rfl (List.forall_mem_nil _)
  | bool _ => iff_of_true rfl (List.forall_mem_nil _)
  | int _ => iff_of_true rfl (List.forall_mem_nil _)
  | float _ => iff_of_true rfl (List.forall_mem_nil _)
  | text s => by
      rw [squeezed, texts, text.injEq, List.forall_mem_singleton, ← Text.squeezed_eq_self_iff]
      constructor
      · intro h
        rw [← String.toList_ofList (l := Text.squeezed Json.isBare false s.toList), h]
      · intro h
        rw [h, String.ofList_toList]
  | list items => by
      rw [squeezed, texts, list.injEq, squeezedItems_eq_self_iff items]

theorem squeezedItems_eq_self_iff : ∀ items : List Literal,
    squeezedItems items = items ↔ ∀ s ∈ itemsTexts items, Single Json.isBare s.toList
  | [] => iff_of_true rfl (List.forall_mem_nil _)
  | item :: rest => by
      rw [squeezedItems, itemsTexts, List.cons_eq_cons, squeezed_eq_self_iff item,
        squeezedItems_eq_self_iff rest, List.forall_mem_append]

end

theorem mem_squeezedItems {items : List Literal} {l : Literal} (h : l ∈ squeezedItems items) :
    ∃ item ∈ items, l = item.squeezed := by
  induction items with
  | nil => cases h
  | cons item rest ih =>
      rcases List.mem_cons.mp h with rfl | h
      · exact ⟨item, List.mem_cons_self, rfl⟩
      · obtain ⟨item', hitem, hl⟩ := ih h
        exact ⟨item', List.mem_cons_of_mem item hitem, hl⟩

theorem Nests.squeezed {depth : Nat} {l : Literal} (h : l.Nests depth) :
    l.squeezed.Nests depth := by
  induction h with
  | null => exact .null
  | bool b => exact .bool b
  | int n => exact .int n
  | text s => exact .text _
  | list hitems ih =>
      refine .list fun l hl => ?_
      obtain ⟨item, hitem, rfl⟩ := mem_squeezedItems hl
      exact ih item hitem

/-! ### The text of a literal -/

/-- The text of an integer has no blanks. -/
theorem isBlank_of_mem_intText {n : Int64} {c : Char} (h : c ∈ (intText n).toList) :
    isBlank c = false := by
  rcases Json.Number.isDigit_or_eq_of_mem_intText h with hdigit | rfl
  · have hrange : 48 ≤ c.toNat ∧ c.toNat ≤ 57 := Char.isDigit_iff_toNat.mp hdigit
    simp only [isBlank, blankRanges, List.any_cons, List.any_nil, Bool.or_false,
      Bool.or_eq_false_iff, Bool.and_eq_false_iff, decide_eq_false_iff_not]
    omega
  · decide

theorem squeezed_jsonRest {items : List Literal}
    (h : ∀ item ∈ items, ∀ after rest, Text.squeezed isBlank after (item.json ++ rest) =
      item.squeezed.json ++ Text.squeezed isBlank false rest) (rest : List Char) :
    Text.squeezed isBlank false (jsonRest items ++ rest) =
      jsonRest (squeezedItems items) ++ Text.squeezed isBlank false rest := by
  induction items with
  | nil => rfl
  | cons item items ih =>
      obtain ⟨hitem, hitems⟩ := List.forall_mem_cons.mp h
      have hcomma : ∀ first others rest : List Char,
          ',' :: first ++ others ++ rest = ',' :: (first ++ (others ++ rest)) :=
        fun first others rest => by simp
      rw [jsonRest, squeezedItems, jsonRest, hcomma, hcomma, squeezed_cons (by decide), hitem,
        ih hitems]

/-- To squeeze the text of a literal is to squeeze the texts in the literal. -/
theorem squeezed_json {depth : Nat} {l : Literal} (h : l.Nests depth) (after : Bool)
    (rest : List Char) :
    Text.squeezed isBlank after (l.json ++ rest) =
      l.squeezed.json ++ Text.squeezed isBlank false rest := by
  induction h generalizing after rest with
  | null => exact squeezed_append (isBlank_of_all rfl) (List.cons_ne_nil _ _)
  | bool b =>
      cases b with
      | false => exact squeezed_append (isBlank_of_all rfl) (List.cons_ne_nil _ _)
      | true => exact squeezed_append (isBlank_of_all rfl) (List.cons_ne_nil _ _)
  | int n =>
      obtain ⟨c, cs, htext, -⟩ := Json.Number.exists_head_intText n
      refine squeezed_append (fun c hc => isBlank_of_mem_intText hc) ?_
      rw [json, htext]
      exact List.cons_ne_nil c cs
  | text s =>
      have hquoted : ∀ (cs rest : List Char), '"' :: cs ++ ['"'] ++ rest = '"' :: (cs ++ '"' :: rest) :=
        fun cs rest => by simp
      rw [json, squeezed, json, Json.quoted, Json.quoted, hquoted, squeezed_cons (by decide),
        Json.squeezed_escaped, String.toList_ofList]
      simp
  | @list depth items _ ih =>
      cases items with
      | nil => exact squeezed_append (isBlank_of_all rfl) (List.cons_ne_nil _ _)
      | cons item items =>
          obtain ⟨hitem, hitems⟩ := List.forall_mem_cons.mp ih
          have hbrackets : ∀ (first others rest : List Char), '[' :: first ++ others ++ [']'] ++ rest =
              '[' :: (first ++ (others ++ ']' :: rest)) := fun first others rest => by simp
          rw [json, squeezed, squeezedItems, json, hbrackets, squeezed_cons (by decide), hitem,
            squeezed_jsonRest hitems, squeezed_cons (by decide)]
          simp

end Literal

end WhereClause

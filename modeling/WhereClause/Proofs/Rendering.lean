/-
WhereClause/Proofs/Rendering.lean

The explained form of a node can be read off its plan.

`written` makes a text from the events of a plan and from one text for each call:
a call gives way to its text, an opened scope to `(` and a closed one to `)`, and
whatever is not the first in its scope has its connector written before it.
There has to be exactly one text for each call.

`explain_eq_written` says that the explained form is what becomes of the events
in this way if the texts are those of the comparisons beneath the node.  So a
parenthesis is opened exactly where a query is asked for a nested scope.  The
two sides are made by two separate functions, which take the connector of a join
from different places; `WritesAs` holds them together along a plan.
-/
import WhereClause.Explain
import WhereClause.Proofs.Planned

namespace WhereClause

/-! ### Texts of events -/

/-- The connector before something in a scope, unless it comes first. -/
def separator (first : Bool) (k : Connector) : String :=
  if first then "" else " " ++ k.text ++ " "

/-- A text before another one, if there is one. -/
def before (s : String) : Option String → Option String :=
  Option.map fun t => s ++ t

@[simp] theorem before_before (s t : String) (text : Option String) :
    before s (before t text) = before (s ++ t) text := by
  cases text <;> simp [before, String.append_assoc]

@[simp] theorem before_empty (text : Option String) : before "" text = text := by
  cases text <;> simp [before]

/-- The text of some events, given the texts of their calls in order.  The flag
says whether the next thing is the first in its scope. -/
def written (first : Bool) : List String → List Event → Option String
  | [], [] => some ""
  | _ :: _, [] => none
  | [], .called _ _ :: _ => none
  | text :: texts, .called k _ :: rest =>
      before (separator first k ++ text) (written false texts rest)
  | texts, .opened k :: rest => before (separator first k ++ "(") (written true texts rest)
  | texts, .closed :: rest => before ")" (written false texts rest)

/-- Some texts in a row, the first of them with `lead` before it and all others
with `around`. -/
def separated (around : Connector) (first : Bool) (lead : Connector) : List String → String
  | [] => ""
  | text :: rest => separator first lead ++ text ++ separated around false around rest

/-- All texts but the first have the connector before them that joins them. -/
theorem separated_eq_intercalate {around lead : Connector} {first : Bool} {ts : List String}
    (h : ts ≠ []) :
    separated around first lead ts =
      separator first lead ++ (" " ++ around.text ++ " ").intercalate ts := by
  induction ts generalizing first lead with
  | nil => exact absurd rfl h
  | cons t rest ih =>
      rcases rest with - | ⟨s, rest⟩
      · simp [separated]
      · rw [separated, ih (List.cons_ne_nil s rest), String.intercalate_cons_cons]
        simp only [separator, Bool.false_eq_true, if_false, String.append_assoc]

/-- Texts in a row are written as the first of them are, and then the others. -/
theorem separated_append {around lead : Connector} {first : Bool} {ts us : List String}
    (h : ts ≠ []) :
    separated around first lead (ts ++ us) =
      separated around first lead ts ++ separated around false around us := by
  induction ts generalizing first lead with
  | nil => exact absurd rfl h
  | cons t rest ih =>
      rcases rest with - | ⟨s, rest⟩
      · simp [separated]
      · rw [List.cons_append, separated, ih (List.cons_ne_nil s rest)]
        simp only [separated, String.append_assoc]

/-! ### The explained form of a join -/

open Formula

namespace Formula

/-- Several texts are joined by the connector that the join then has. -/
theorem joinTerms_eq {connector : Option Connector} {k : Connector} {ts : List String}
    (h : 2 ≤ ts.length → connector = some k) :
    joinTerms connector ts = .ok ((" " ++ k.text ++ " ").intercalate ts) := by
  rcases ts with - | ⟨t, - | ⟨s, rest⟩⟩
  · simp [joinTerms]
  · simp [joinTerms]
  · rw [h (by simp)]
    rfl

theorem textWithin_join {connector : Option Connector} {k : Connector} {parts : List Formula}
    {ts : List String} (htexts : termTexts k parts = .ok ts) (hlength : ts.length = terms parts)
    (h : 2 ≤ terms parts → connector = some k) :
    (join connector parts).textWithin k = .ok ((" " ++ k.text ++ " ").intercalate ts) := by
  have hinner : (if 2 ≤ terms parts then connector.getD k else k) = k := by
    split
    · next hterms => rw [h hterms]; rfl
    · rfl
  rw [textWithin, hinner, htexts]
  exact joinTerms_eq (hlength ▸ h)

theorem termTexts_cons {around k : Connector} {part : Formula} {rest : List Formula}
    {text : String} {texts : List String} (hpart : part.isEmpty = false)
    (hk : part.outer.getD around = k) (htext : part.textWithin k = .ok text)
    (htexts : termTexts around rest = .ok texts) :
    termTexts around (part :: rest) =
      .ok ((if needsScope part.outer around then "(" ++ text ++ ")" else text) :: texts) := by
  rw [termTexts, hpart, hk, htext, htexts]
  rfl

theorem termTexts_of_allEmpty {around : Connector} {parts : List Formula}
    (h : allEmpty parts = true) : termTexts around parts = .ok [] := by
  induction parts with
  | nil => rfl
  | cons part rest ih =>
      rw [allEmpty, Bool.and_eq_true] at h
      rw [termTexts, if_pos h.1]
      exact ih h.2

end Formula

/-! ### Plans are written as they are explained -/

/-- Some items for some parts are written with the texts `ts` in a row. -/
structure WritesAs (around lead : Connector) (parts : List Formula) (items : List Item)
    (ts : List String) : Prop where
  termTexts_eq : termTexts around parts = .ok ts
  length_eq : ts.length = terms parts
  written_append : ∀ first texts tail,
    written first ((partsComparisons parts).map Comparison.explained ++ texts)
        ((recordItems items).events ++ tail) =
      before (separated around first lead ts) (written (first && ts.isEmpty) texts tail)

theorem WritesAs.ne_nil {around lead : Connector} {parts : List Formula} {items : List Item}
    {ts : List String} (h : WritesAs around lead parts items ts) (hparts : allEmpty parts = false) :
    ts ≠ [] := by
  rintro rfl
  have := terms_eq_zero_iff.mp h.length_eq.symm
  simp [this] at hparts

/-- The texts of a join written among others, with its connector before them. -/
theorem WritesAs.written_join {around lead : Connector} {parts : List Formula}
    {items : List Item} {ts : List String} (h : WritesAs around lead parts items ts)
    (hparts : allEmpty parts = false) (first : Bool) (texts : List String) (tail : List Event) :
    written first ((partsComparisons parts).map Comparison.explained ++ texts)
        ((recordItems items).events ++ tail) =
      before (separator first lead ++ (" " ++ around.text ++ " ").intercalate ts)
        (written false texts tail) := by
  have hne := h.ne_nil hparts
  rw [h.written_append, separated_eq_intercalate hne, List.isEmpty_eq_false_iff.mpr hne,
    Bool.and_false]

/-- A plan is written as its parts are explained. -/
theorem Planned.writesAs {m : Mapping} {around lead : Connector} {parts : List Formula}
    {items : List Item} (h : Planned m around lead parts items) :
    ∃ ts, WritesAs around lead parts items ts := by
  induction h with
  | nil =>
      refine ⟨[], rfl, rfl, ?_⟩
      intro first texts tail
      simp [recordItems, separated, partsComparisons]
  | absent hempty _ ih =>
      obtain ⟨ts, htexts, hlength, hwritten⟩ := ih
      have hnone := isEmpty_iff_comparisons.mp hempty
      refine ⟨ts, ?_, ?_, ?_⟩
      · rw [termTexts, if_pos hempty, htexts]
      · rw [terms_cons_of_isEmpty hempty, hlength]
      · simpa [partsComparisons, hnone] using hwritten
  | @call around lead c call rest items _ _ ih =>
      obtain ⟨ts, htexts, hlength, hwritten⟩ := ih
      refine ⟨c.explained :: ts, termTexts_cons rfl rfl rfl htexts, ?_, ?_⟩
      · rw [terms_cons_of_not_isEmpty rfl, List.length_cons, hlength]
      · intro first texts tail
        rw [recordItems_call]
        simp only [partsComparisons, comparisons, List.cons_append, List.nil_append,
          List.map_cons, written, hwritten, separated, before_before, Bool.false_and,
          List.isEmpty_cons, Bool.and_false]
  | @inPlace around lead connector parts rest items items' hempty hneeds hconnector hplan _
      ih ih' =>
      obtain ⟨ts, hts⟩ := ih
      obtain ⟨us, hus⟩ := ih'
      have haround := getD_of_needsScope_eq_false hneeds
      have hjoin := textWithin_join hts.termTexts_eq hts.length_eq hconnector
      -- the texts of the join count as one text, and are written in a row all the same
      refine ⟨(" " ++ around.text ++ " ").intercalate ts :: us, ?_, ?_, ?_⟩
      · rw [termTexts_cons hempty haround hjoin hus.termTexts_eq, hneeds]
        rfl
      · rw [terms_cons_of_not_isEmpty hempty, List.length_cons, hus.length_eq]
      · intro first texts tail
        rw [hplan.events_append, List.append_assoc, partsComparisons, comparisons, List.map_append,
          List.append_assoc, hts.written_join hempty, hus.written_append, before_before, separated,
          Bool.false_and, List.isEmpty_cons, Bool.and_false]
  | @apart around lead connector parts k rest items items' hempty houter hk hplan _ ih ih' =>
      obtain ⟨ts, hts⟩ := ih
      obtain ⟨us, hus⟩ := ih'
      have hconnector := connector_eq_of_outer_eq houter
      have haround : (join connector parts).outer.getD around = k := by rw [houter]; rfl
      have hneeds := needsScope_eq_true_iff.mpr ⟨k, houter, hk⟩
      have hjoin := textWithin_join hts.termTexts_eq hts.length_eq hconnector
      refine ⟨("(" ++ (" " ++ k.text ++ " ").intercalate ts ++ ")") :: us, ?_, ?_, ?_⟩
      · rw [termTexts_cons hempty haround hjoin hus.termTexts_eq, hneeds]
        rfl
      · rw [terms_cons_of_not_isEmpty hempty, List.length_cons, hus.length_eq]
      -- behind the parenthesis the first text has no connector before it
      · intro first texts tail
        rw [recordItems_scope lead items' hplan.refusal_eq_none, partsComparisons, comparisons,
          List.map_append, List.append_assoc]
        simp only [List.cons_append, List.append_assoc, written]
        rw [hts.written_join hempty, written, hus.written_append, separated]
        simp only [before_before, separator, if_true, String.append_assoc, String.empty_append,
          Bool.false_and, List.isEmpty_cons, Bool.and_false]

/-- The explained form of a formula is that of a single term. -/
theorem explain_of_termTexts {f : Formula} {ts : List String}
    (h : termTexts (f.outer.getD .and) [f] = .ok ts) :
    f.explain = .ok (separated (f.outer.getD .and) true .and ts) := by
  rcases hempty : f.isEmpty with - | -
  · have hk := getD_getD f.outer .and
    rcases htext : f.textWithin (f.outer.getD .and) with reason | text
    · rw [termTexts, hempty, hk, htext] at h
      cases h
    · rw [termTexts_cons hempty hk htext rfl, needsScope_getD] at h
      obtain rfl := Except.ok.inj h
      rw [explain, htext]
      simp [separated, separator]
  · rcases f with c | ⟨connector, parts⟩
    · cases hempty
    · have hparts : allEmpty parts = true := hempty
      rw [termTexts_of_allEmpty (by simp [allEmpty, hempty])] at h
      obtain rfl := Except.ok.inj h
      rw [explain, textWithin, termTexts_of_allEmpty hparts]
      rfl

/-- The explained form of a node is what becomes of the events of its plan if each
call gives way to the text of its comparison. -/
theorem explain_eq_written (n : Node) (m : Mapping) (h : (n.formula.record m).refusal = none) :
    ∃ text, n.explain = .ok text ∧
      written true (n.comparisons.map Comparison.explained) (n.formula.record m).events =
        some text := by
  obtain ⟨ts, hts⟩ := (planned_items h).writesAs
  have hwritten := hts.written_append true [] []
  simp only [partsComparisons, List.append_nil, Node.comparisons_formula] at hwritten
  refine ⟨_, explain_of_termTexts hts.termTexts_eq, ?_⟩
  rw [Formula.record, hwritten, written]
  simp [before]

theorem explain_eq_written_mixedFilter :
    let n : Node := .filter mixedFilter
    (n.formula.record {}).refusal = none ∧
      n.explain = .ok "(s = 1 or s = 2) and (a = b or (c is null and d contain \"x\"))" ∧
      ∃ text, n.explain = .ok text ∧
        written true (n.comparisons.map Comparison.explained) (n.formula.record {}).events =
          some text :=
  ⟨rfl, by decide +kernel, explain_eq_written (.filter mixedFilter) {} rfl⟩

end WhereClause

/-
WhereClause/Proofs/Alike.lean

Formulas that are compiled alike wherever they stand.

Two formulas are `Alike` if both of them say something or neither does, and if
they have the same outer connector and, among any terms, the same text and the
same items, refusals included.  Alike formulas have the same explained form and
the same record.

What a join says depends on its parts only through the terms that are made of
them (`SameTerms`).  So a part may give way to one that is alike, and parts that
say nothing may be dropped.  A join with a single term is like this term
(`alike_join_singleton`), and a join among the parts of a join with the
same connector is like its own parts in its place (`alike_splice`).  None of this
asks for a plan without refusals.
-/
import WhereClause.Proofs.Rendering

namespace WhereClause

namespace Formula

/-- Formulas that are compiled alike wherever they stand. -/
structure Alike (f g : Formula) : Prop where
  isEmpty_eq : f.isEmpty = g.isEmpty
  outer_eq : f.outer = g.outer
  textWithin_eq : ∀ around,
    f.textWithin (f.outer.getD around) = g.textWithin (g.outer.getD around)
  itemsWithin_eq : ∀ m around lead,
    f.itemsWithin m (f.outer.getD around) lead = g.itemsWithin m (g.outer.getD around) lead

namespace Alike

variable {f g h : Formula}

theorem refl (f : Formula) : Alike f f :=
  ⟨rfl, rfl, fun _ => rfl, fun _ _ _ => rfl⟩

theorem symm (hfg : Alike f g) : Alike g f where
  isEmpty_eq := hfg.isEmpty_eq.symm
  outer_eq := hfg.outer_eq.symm
  textWithin_eq around := (hfg.textWithin_eq around).symm
  itemsWithin_eq m around lead := (hfg.itemsWithin_eq m around lead).symm

theorem trans (hfg : Alike f g) (hgh : Alike g h) : Alike f h where
  isEmpty_eq := hfg.isEmpty_eq.trans hgh.isEmpty_eq
  outer_eq := hfg.outer_eq.trans hgh.outer_eq
  textWithin_eq around := (hfg.textWithin_eq around).trans (hgh.textWithin_eq around)
  itemsWithin_eq m around lead :=
    (hfg.itemsWithin_eq m around lead).trans (hgh.itemsWithin_eq m around lead)

/-- Alike formulas have the same explained form. -/
theorem explain_eq (hfg : Alike f g) : f.explain = g.explain :=
  hfg.textWithin_eq .and

/-- Alike formulas have the same record, refused or not. -/
theorem record_eq (hfg : Alike f g) (m : Mapping) : f.record m = g.record m :=
  congrArg recordItems (hfg.itemsWithin_eq m .and .and)

end Alike

/-! ### Parts with the same terms -/

/-- Parts of which the same terms are made among any others. -/
structure SameTerms (parts parts' : List Formula) : Prop where
  terms_eq : terms parts = terms parts'
  outerOfFirst_eq : outerOfFirst parts = outerOfFirst parts'
  termTexts_eq : ∀ around, termTexts around parts = termTexts around parts'
  termItems_eq : ∀ m around lead, termItems m around lead parts = termItems m around lead parts'

namespace SameTerms

variable {parts parts' parts'' : List Formula}

theorem refl (parts : List Formula) : SameTerms parts parts :=
  ⟨rfl, rfl, fun _ => rfl, fun _ _ _ => rfl⟩

theorem symm (h : SameTerms parts parts') : SameTerms parts' parts where
  terms_eq := h.terms_eq.symm
  outerOfFirst_eq := h.outerOfFirst_eq.symm
  termTexts_eq around := (h.termTexts_eq around).symm
  termItems_eq m around lead := (h.termItems_eq m around lead).symm

theorem trans (h : SameTerms parts parts') (h' : SameTerms parts' parts'') :
    SameTerms parts parts'' where
  terms_eq := h.terms_eq.trans h'.terms_eq
  outerOfFirst_eq := h.outerOfFirst_eq.trans h'.outerOfFirst_eq
  termTexts_eq around := (h.termTexts_eq around).trans (h'.termTexts_eq around)
  termItems_eq m around lead := (h.termItems_eq m around lead).trans (h'.termItems_eq m around lead)

theorem allEmpty_eq (h : SameTerms parts parts') : allEmpty parts = allEmpty parts' := by
  rw [Bool.eq_iff_iff, ← terms_eq_zero_iff, ← terms_eq_zero_iff, h.terms_eq]

/-- The first part may give way to one that is alike. -/
theorem cons {part part' : Formula} (hpart : Alike part part') (h : SameTerms parts parts') :
    SameTerms (part :: parts) (part' :: parts') := by
  have hempty := hpart.isEmpty_eq
  constructor
  · simp only [terms, List.countP_cons, hempty]
    exact congrArg (· + _) h.terms_eq
  · simp only [outerOfFirst, hempty, hpart.outer_eq, h.outerOfFirst_eq]
  · intro around
    rw [termTexts, termTexts, hempty, hpart.textWithin_eq, hpart.outer_eq, h.termTexts_eq]
  · intro m around lead
    rw [termItems, termItems, hempty, hpart.itemsWithin_eq, hpart.outer_eq, h.termItems_eq,
      h.termItems_eq]

/-- The first part may be dropped if it says nothing. -/
theorem skip {part : Formula} (hempty : part.isEmpty = true) (h : SameTerms parts parts') :
    SameTerms (part :: parts) parts' := by
  constructor
  · rw [terms_cons_of_isEmpty hempty, h.terms_eq]
  · rw [outerOfFirst, if_pos hempty, h.outerOfFirst_eq]
  · intro around
    rw [termTexts, if_pos hempty, h.termTexts_eq]
  · intro m around lead
    rw [termItems, if_pos hempty, h.termItems_eq]

theorem append_left (before : List Formula) (h : SameTerms parts parts') :
    SameTerms (before ++ parts) (before ++ parts') := by
  induction before with
  | nil => exact h
  | cons part rest ih => exact ih.cons (Alike.refl part)

/-- Parts that say nothing may be dropped. -/
theorem filter_append (parts rest : List Formula) :
    SameTerms (parts ++ rest) ((parts.filter fun part => !part.isEmpty) ++ rest) := by
  induction parts with
  | nil => exact refl rest
  | cons part rest ih =>
      rcases hempty : part.isEmpty with - | -
      · rw [List.filter_cons_of_pos (by simp [hempty])]
        exact ih.cons (Alike.refl part)
      · rw [List.filter_cons_of_neg (by simp [hempty])]
        exact ih.skip hempty

theorem of_allEmpty_append (h : allEmpty parts = true) (rest : List Formula) :
    SameTerms (parts ++ rest) rest := by
  have hfilter := filter_append parts rest
  rwa [List.filter_eq_nil_iff.mpr (by simpa using allEmpty_iff.mp h)] at hfilter

theorem of_allEmpty (h : allEmpty parts = true) : SameTerms parts [] := by
  simpa using of_allEmpty_append h []

/-- Joins of the same terms are alike. -/
theorem alike (h : SameTerms parts parts') (connector : Option Connector) :
    Alike (join connector parts) (join connector parts') := by
  have houter : (join connector parts).outer = (join connector parts').outer := by
    simp only [outer, h.terms_eq, h.outerOfFirst_eq]
  -- parts are looked at through their terms only
  refine ⟨h.allEmpty_eq, houter, ?_, ?_⟩
  · intro around
    simp only [textWithin, houter, h.terms_eq, h.termTexts_eq]
  · intro m around lead
    simp only [itemsWithin, houter, h.terms_eq, h.termItems_eq]

end SameTerms

/-! ### Joins with at most one term -/

/-- Joins that say nothing are alike. -/
theorem alike_of_allEmpty {parts parts' : List Formula} (h : allEmpty parts = true)
    (h' : allEmpty parts' = true) (connector connector' : Option Connector) :
    Alike (join connector parts) (join connector' parts') := by
  have hmiddle : Alike (join connector []) (join connector' []) :=
    ⟨rfl, rfl, fun _ => rfl, fun _ _ _ => rfl⟩
  exact (((SameTerms.of_allEmpty h).alike connector).trans hmiddle).trans
    ((SameTerms.of_allEmpty h').alike connector').symm

/-- A join with a single part is like this part. -/
theorem alike_join_singleton (connector : Option Connector) (part : Formula) :
    Alike (join connector [part]) part := by
  rcases hempty : part.isEmpty with - | -
  · have hterms : terms [part] < 2 := by simp [terms, hempty]
    have houter : (join connector [part]).outer = part.outer :=
      outer_join_cons_of_allEmpty hempty rfl
    refine ⟨by simp [isEmpty, allEmpty], houter, ?_, ?_⟩
    · intro around
      rw [textWithin, if_neg (by omega), houter, termTexts, hempty, getD_getD, needsScope_getD]
      rcases part.textWithin (part.outer.getD around) with reason | text <;> rfl
    · intro m around lead
      rw [itemsWithin_join_of_lt_two hterms, houter, termItems, hempty, getD_getD,
        needsScope_getD]
      simp [termItems]
  · rcases part with c | ⟨connector', parts⟩
    · cases hempty
    · exact alike_of_allEmpty (by simp [allEmpty, hempty]) hempty connector connector'

/-! ### A join within a join -/

theorem termItems_append (m : Mapping) (k lead : Connector) (parts rest : List Formula) :
    termItems m k lead (parts ++ rest) =
      termItems m k lead parts ++ termItems m k (if allEmpty parts then lead else k) rest := by
  induction parts generalizing lead with
  | nil => rfl
  | cons part parts ih =>
      rcases hempty : part.isEmpty with - | -
      · simp only [List.cons_append, termItems, hempty, allEmpty, ih, Bool.false_eq_true, if_false,
          Bool.false_and, ite_self, List.append_assoc]
      · simp only [List.cons_append, termItems, hempty, allEmpty, ih, if_true, Bool.true_and]

/-- The text of parts in a row, joined by a connector. -/
def rowText (k : Connector) (first : Bool) (parts : List Formula) : Except Refusal String :=
  (termTexts k parts).map (separated k first k)

theorem rowText_cons_of_isEmpty {k : Connector} {first : Bool} {part : Formula}
    {rest : List Formula} (h : part.isEmpty = true) :
    rowText k first (part :: rest) = rowText k first rest := by
  rw [rowText, termTexts, if_pos h, rowText]

theorem rowText_cons_of_not_isEmpty {k : Connector} {first : Bool} {part : Formula}
    {rest : List Formula} (h : part.isEmpty = false) :
    rowText k first (part :: rest) = do
      let text ← part.textWithin (part.outer.getD k)
      let after ← rowText k false rest
      return separator first k ++
        (if needsScope part.outer k then "(" ++ text ++ ")" else text) ++ after := by
  rw [rowText, termTexts, h, rowText]
  rcases part.textWithin (part.outer.getD k) with reason | text
  · rfl
  · rcases termTexts k rest with reason | texts <;> rfl

theorem rowText_append (k : Connector) (first : Bool) (parts rest : List Formula) :
    rowText k first (parts ++ rest) = do
      let before ← rowText k first parts
      let after ← rowText k (first && allEmpty parts) rest
      return before ++ after := by
  induction parts generalizing first with
  | nil =>
      show rowText k first rest =
        (rowText k (first && true) rest).bind fun after => .ok ("" ++ after)
      rw [Bool.and_true]
      rcases rowText k first rest with reason | after
      · rfl
      · simp [Except.bind]
  | cons part parts ih =>
      rcases hempty : part.isEmpty with - | -
      · rw [List.cons_append, rowText_cons_of_not_isEmpty hempty,
          rowText_cons_of_not_isEmpty hempty, ih, allEmpty, hempty]
        rcases part.textWithin (part.outer.getD k) with reason | text
        · rfl
        rcases rowText k false parts with reason | before
        · rfl
        simp only [Bool.false_and, Bool.and_false]
        rcases rowText k false rest with reason | after
        · rfl
        · simp [bind, Except.bind, pure, Except.pure, String.append_assoc]
      · rw [List.cons_append, rowText_cons_of_isEmpty hempty, rowText_cons_of_isEmpty hempty, ih,
          allEmpty, hempty, Bool.true_and]

/-- A row that says something starts with the connector before it. -/
theorem rowText_of_allEmpty_eq_false {k : Connector} {parts : List Formula}
    (h : allEmpty parts = false) (first : Bool) :
    rowText k first parts = (rowText k true parts).map fun text => separator first k ++ text := by
  induction parts with
  | nil => cases h
  | cons part rest ih =>
      rcases hempty : part.isEmpty with - | -
      · rw [rowText_cons_of_not_isEmpty hempty, rowText_cons_of_not_isEmpty hempty]
        rcases part.textWithin (part.outer.getD k) with reason | text
        · rfl
        rcases rowText k false rest with reason | after
        · rfl
        · simp [bind, Except.bind, pure, Except.pure, Except.map, separator, String.append_assoc]
      · rw [rowText_cons_of_isEmpty hempty, rowText_cons_of_isEmpty hempty]
        exact ih (by simpa [allEmpty, hempty] using h)

/-- A join among terms that are joined as its own hands its terms on. -/
theorem textWithin_join_self (k : Connector) (parts : List Formula) :
    (join (some k) parts).textWithin k = rowText k true parts := by
  have hinner : (if 2 ≤ terms parts then (some k).getD k else k) = k := ite_self k
  rw [textWithin, hinner, rowText]
  rcases termTexts k parts with reason | texts
  · rfl
  · rcases texts with - | ⟨text, texts⟩
    · rfl
    · show joinTerms (some k) (text :: texts) = .ok (separated k true k (text :: texts))
      rw [joinTerms_eq (k := k) fun _ => rfl,
        separated_eq_intercalate (List.cons_ne_nil text texts)]
      simp [separator]

section Splice

variable {k : Connector} {inner : List Formula} (hinner : 2 ≤ terms inner)

include hinner

/-- The parts of a join with several terms are written in its place. -/
theorem rowText_splice (first : Bool) (before after : List Formula) :
    rowText k first (before ++ join (some k) inner :: after) =
      rowText k first (before ++ (inner ++ after)) := by
  have hempty : (join (some k) inner).isEmpty = false := one_le_terms_iff.mp (by omega)
  have hlive : allEmpty inner = false := hempty
  have houter : (join (some k) inner).outer = some k := outer_join_of_two_le hinner
  have hscope : needsScope (some k) k = false := needsScope_getD (some k) k
  rw [rowText_append, rowText_append]
  congr 1
  funext text
  congr 1
  rw [rowText_cons_of_not_isEmpty hempty, houter, Option.getD_some, textWithin_join_self, hscope,
    rowText_append, hlive, Bool.and_false,
    rowText_of_allEmpty_eq_false hlive (first && allEmpty before)]
  rcases rowText k true inner with reason | text
  · rfl
  · rfl

/-- The parts of a join with several terms are planned in its place. -/
theorem termItems_splice (m : Mapping) (lead : Connector) (before after : List Formula) :
    termItems m k lead (before ++ join (some k) inner :: after) =
      termItems m k lead (before ++ (inner ++ after)) := by
  have hempty : (join (some k) inner).isEmpty = false := one_le_terms_iff.mp (by omega)
  have hlive : allEmpty inner = false := hempty
  have houter : (join (some k) inner).outer = some k := outer_join_of_two_le hinner
  have hscope : needsScope (some k) k = false := needsScope_getD (some k) k
  rw [termItems_append, termItems_append, termItems_append]
  simp only [termItems, hempty, hlive, houter, hscope, Option.getD_some, itemsWithin_join_self,
    Bool.false_eq_true, if_false]

/-- Around a join with several terms, a join with its connector has it at the top. -/
theorem outer_splice (before after : List Formula) :
    (join (some k) (before ++ join (some k) inner :: after)).outer = some k := by
  have hempty : (join (some k) inner).isEmpty = false := one_le_terms_iff.mp (by omega)
  by_cases hterms : 2 ≤ terms (before ++ join (some k) inner :: after)
  · exact outer_join_of_two_le hterms
  -- the join within is the only term, and has the same connector at its top
  · rw [terms, List.countP_append, ← terms, ← terms, terms_cons_of_not_isEmpty hempty] at hterms
    have hbefore : allEmpty before = true := terms_eq_zero_iff.mp (by omega)
    have hafter : allEmpty after = true := terms_eq_zero_iff.mp (by omega)
    rw [((SameTerms.of_allEmpty_append hbefore _).alike (some k)).outer_eq,
      outer_join_cons_of_allEmpty hempty hafter, outer_join_of_two_le hinner]

end Splice

/-- A join among the parts of a join with the same connector is like its own parts
in its place. -/
theorem alike_splice (k : Connector) (before inner after : List Formula) :
    Alike (join (some k) (before ++ join (some k) inner :: after))
      (join (some k) (before ++ (inner ++ after))) := by
  have hterms : terms inner = (inner.filter fun part => !part.isEmpty).length :=
    List.countP_eq_length_filter
  have hright := (SameTerms.filter_append inner after).append_left before
  -- the join within says nothing, or it is like its only term, or it joins several terms
  rcases hlive : inner.filter fun part => !part.isEmpty with - | ⟨part, - | ⟨part', rest⟩⟩
  · have hempty : (join (some k) inner).isEmpty = true :=
      terms_eq_zero_iff.mp (by simp [hterms, hlive])
    rw [hlive] at hright
    have hleft := ((SameTerms.refl after).skip hempty).append_left before
    exact (hleft.trans hright.symm).alike (some k)
  · rw [hlive] at hright
    have hinner := SameTerms.filter_append inner []
    rw [List.append_nil, List.append_nil, hlive] at hinner
    have hpart := (hinner.alike (some k)).trans (alike_join_singleton (some k) part)
    have hleft := ((SameTerms.refl after).cons hpart).append_left before
    exact (hleft.trans hright.symm).alike (some k)
  · have hinner : 2 ≤ terms inner := by simp [hterms, hlive]
    have houter := outer_splice (k := k) hinner before after
    have houter' : (join (some k) (before ++ (inner ++ after))).outer = some k := by
      refine outer_join_of_two_le ?_
      simp only [terms, List.countP_append] at hinner ⊢
      omega
    refine ⟨?_, houter.trans houter'.symm, ?_, ?_⟩
    · simp only [isEmpty, allEmpty_append, allEmpty]
    · intro around
      rw [houter, houter']
      exact (textWithin_join_self k _).trans
        ((rowText_splice hinner true before after).trans (textWithin_join_self k _).symm)
    · intro m around lead
      rw [houter, houter']
      exact itemsWithin_join_self.trans
        ((termItems_splice hinner m lead before after).trans itemsWithin_join_self.symm)

end Formula

/-! ### Nodes -/

/-- Nodes from which the same is compiled. -/
structure Node.SameForm (n n' : Node) : Prop where
  explain_eq : n.explain = n'.explain
  record_eq : ∀ m, n.formula.record m = n'.formula.record m
  outer_eq : n.formula.outer = n'.formula.outer

theorem Node.SameForm.of_alike {n n' : Node} (h : Formula.Alike n.formula n'.formula) :
    n.SameForm n' :=
  ⟨h.explain_eq, h.record_eq, h.outer_eq⟩

end WhereClause

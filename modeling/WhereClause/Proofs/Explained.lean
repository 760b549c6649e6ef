/-
WhereClause/Proofs/Explained.lean

Which formulas have an explained form, and which of them have an empty one.

Only a join of several terms without a connector cannot be written.  A formula in
which there is none has an explained form (`Joined.exists_explain`).

The explained form is empty exactly if there is no comparison in the formula
(`explain_eq_empty_iff`).  A part that says something has a text that is not empty,
and there is one text for each such part (`textsOf_termTexts`), so nothing that is
said gets lost when texts are joined.
-/
import WhereClause.Proofs.Rendering

namespace WhereClause

theorem Comparison.explained_ne_empty (c : Comparison) : c.explained ≠ "" := by
  simp [Comparison.explained]

namespace Formula

/-- A formula in which every join of several terms has a connector. -/
inductive Joined : Formula → Prop
  | test {c} : Joined (.test c)
  | join {connector parts} : (2 ≤ terms parts → connector.isSome) →
      (∀ part ∈ parts, Joined part) → Joined (.join connector parts)

variable {around : Connector} {connector : Option Connector} {part : Formula}
  {parts rest : List Formula} {text : String} {ts : List String}

/-! ### Texts of terms -/

/-- The texts of the terms of a join, if it has a text. -/
theorem exists_termTexts_of_textWithin
    (h : (join connector parts).textWithin around = .ok text) :
    ∃ k ts, termTexts k parts = .ok ts ∧ joinTerms connector ts = .ok text := by
  rw [textWithin] at h
  obtain ⟨ts, hts, hjoin⟩ := exists_of_bind_eq_ok h
  exact ⟨_, ts, hts, hjoin⟩

/-- The text of a part that says something comes before those of the rest. -/
theorem exists_texts_of_termTexts_cons (hpart : part.isEmpty = false)
    (h : termTexts around (part :: rest) = .ok ts) :
    ∃ text texts, part.textWithin (part.outer.getD around) = .ok text ∧
      termTexts around rest = .ok texts ∧
      ts = (if needsScope part.outer around then "(" ++ text ++ ")" else text) :: texts := by
  rw [termTexts, hpart] at h
  obtain ⟨text, htext, h⟩ := exists_of_bind_eq_ok h
  obtain ⟨texts, htexts, h⟩ := exists_of_bind_eq_ok h
  cases h
  exact ⟨text, texts, htext, htexts, rfl⟩

/-- Texts that are not empty are joined to a text that is not empty. -/
theorem joinTerms_ne_empty (h : joinTerms connector ts = .ok text) (hne : ts ≠ [])
    (hts : ∀ t ∈ ts, t ≠ "") : text ≠ "" := by
  rcases ts with - | ⟨t, - | ⟨s, rest⟩⟩
  · exact absurd rfl hne
  · cases h
    exact hts _ List.mem_cons_self
  · -- several texts need a connector, and the first of them is enough
    rcases connector with - | k
    · cases h
    · cases h
      have ht : t ≠ "" := hts t List.mem_cons_self
      simp [String.intercalate_cons_cons, ht]

/-- One text for each part that says something, none of them empty. -/
structure TextsOf (parts : List Formula) (ts : List String) : Prop where
  length_eq : ts.length = terms parts
  ne_empty : ∀ t ∈ ts, t ≠ ""

theorem TextsOf.cons (hpart : part.isEmpty = false) (htext : text ≠ "") (scope : Bool)
    (h : TextsOf rest ts) :
    TextsOf (part :: rest) ((if scope then "(" ++ text ++ ")" else text) :: ts) := by
  refine ⟨?_, List.forall_mem_cons.mpr ⟨?_, h.ne_empty⟩⟩
  · rw [List.length_cons, h.length_eq, terms_cons_of_not_isEmpty hpart]
  · cases scope <;> simp [htext]

theorem textsOf_termTexts (h : termTexts around parts = .ok ts) : TextsOf parts ts := by
  induction parts using parts_induct generalizing around ts with
  | nil =>
      cases h
      exact ⟨rfl, fun _ ht => absurd ht List.not_mem_nil⟩
  | test c rest ih =>
      obtain ⟨text, texts, htext, htexts, rfl⟩ := exists_texts_of_termTexts_cons rfl h
      cases htext
      exact (ih htexts).cons rfl c.explained_ne_empty _
  | join connector parts rest ihParts ihRest =>
      rcases hempty : (join connector parts).isEmpty with - | -
      · obtain ⟨text, texts, htext, htexts, rfl⟩ := exists_texts_of_termTexts_cons hempty h
        obtain ⟨k, inner, hinner, hjoin⟩ := exists_termTexts_of_textWithin htext
        -- a join that says something has a text to be joined
        have hne : inner ≠ [] := by
          have := one_le_terms_iff.mpr hempty
          have := (ihParts hinner).length_eq
          exact List.ne_nil_of_length_pos (by omega)
        exact (ihRest htexts).cons hempty (joinTerms_ne_empty hjoin hne (ihParts hinner).ne_empty) _
      · rw [termTexts, if_pos hempty] at h
        have hrest := ihRest h
        exact ⟨hrest.length_eq.trans (terms_cons_of_isEmpty hempty).symm, hrest.ne_empty⟩

/-! ### Empty explained forms -/

/-- The explained form is empty exactly if there is no comparison. -/
theorem explain_eq_empty_iff {f : Formula} : f.explain = .ok "" ↔ f.isEmpty = true := by
  rcases f with c | ⟨connector, parts⟩
  · simp [explain, textWithin, c.explained_ne_empty, isEmpty]
  · constructor
    · intro h
      obtain ⟨k, ts, hts, hjoin⟩ := exists_termTexts_of_textWithin h
      have htexts := textsOf_termTexts hts
      by_contra hempty
      have hterms := one_le_terms_iff.mpr (Bool.not_eq_true _ ▸ hempty)
      have hne : ts ≠ [] := List.ne_nil_of_length_pos (htexts.length_eq ▸ hterms)
      exact joinTerms_ne_empty hjoin hne htexts.ne_empty rfl
    · intro h
      rw [explain, textWithin, termTexts_of_allEmpty h]
      cases connector <;> rfl

/-! ### Formulas that can be written -/

theorem exists_joinTerms (h : 2 ≤ ts.length → connector.isSome) :
    ∃ text, joinTerms connector ts = .ok text := by
  rcases ts with - | ⟨t, - | ⟨s, rest⟩⟩
  · cases connector <;> exact ⟨_, rfl⟩
  · cases connector <;> exact ⟨_, rfl⟩
  · obtain ⟨k, rfl⟩ := Option.isSome_iff_exists.mp (h (by simp))
    exact ⟨_, rfl⟩

theorem exists_textWithin_join (h : ∀ k, ∃ ts, termTexts k parts = .ok ts)
    (hconnector : 2 ≤ terms parts → connector.isSome) (around : Connector) :
    ∃ text, (join connector parts).textWithin around = .ok text := by
  obtain ⟨ts, hts⟩ := h (if 2 ≤ terms parts then connector.getD around else around)
  obtain ⟨text, htext⟩ := exists_joinTerms ((textsOf_termTexts hts).length_eq ▸ hconnector)
  exact ⟨text, by rw [textWithin, hts]; exact htext⟩

theorem exists_termTexts (h : ∀ part ∈ parts, part.Joined) (around : Connector) :
    ∃ ts, termTexts around parts = .ok ts := by
  induction parts using parts_induct generalizing around with
  | nil => exact ⟨[], rfl⟩
  | test c rest ih =>
      obtain ⟨ts, hts⟩ := ih (List.forall_mem_cons.mp h).2 around
      exact ⟨_, termTexts_cons rfl rfl rfl hts⟩
  | join connector parts rest ihParts ihRest =>
      obtain ⟨hjoin, hrest⟩ := List.forall_mem_cons.mp h
      obtain ⟨ts, hts⟩ := ihRest hrest around
      rcases hempty : (join connector parts).isEmpty with - | -
      · cases hjoin with
        | join hconnector hparts =>
            obtain ⟨text, htext⟩ := exists_textWithin_join (ihParts hparts) hconnector _
            exact ⟨_, termTexts_cons hempty rfl htext hts⟩
      · exact ⟨ts, by rw [termTexts, if_pos hempty, hts]⟩

theorem Joined.exists_explain {f : Formula} (h : f.Joined) : ∃ text, f.explain = .ok text := by
  cases h with
  | test => exact ⟨_, rfl⟩
  | join hconnector hparts =>
      exact exists_textWithin_join (exists_termTexts hparts) hconnector _

end Formula

end WhereClause

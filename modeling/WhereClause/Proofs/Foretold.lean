/-
WhereClause/Proofs/Foretold.lean

What the outer connector of a node foretells.

The outer connector is worked out from the parts of a node before anything is written
or planned, and each parenthesis and each scope hangs on it.  Here it is held against
what comes out in the end.  There is none exactly if there is at most one comparison
beneath the node.  If there is one then it joins the items at the root of the plan and
the terms of the explained form, of which there are two or more.

`Phrased` says what counts as a term of an explained form: a comparison, or terms in
parentheses.  The texts of comparisons may hold parentheses and connectors of their own,
so it cannot be said by counting characters.  A join that needs no parentheses is one
text to the function that writes it, but several terms to a reader; `PhrasedAs` relates
the two, and it carries the number of terms along, as `LaidOut` does for the items of a
plan.

`outer_foretells` states all three.
-/
import WhereClause.Proofs.Alternation
import WhereClause.Proofs.SingleConnector

namespace WhereClause

open Formula

/-! ### Nodes without an outer connector -/

namespace Formula

theorem partsComparisons_filter (parts : List Formula) :
    partsComparisons (parts.filter fun part => !part.isEmpty) = partsComparisons parts := by
  induction parts with
  | nil => rfl
  | cons part rest ih =>
      rcases hempty : part.isEmpty with - | -
      · simp [partsComparisons, hempty, ih]
      · simp [partsComparisons, hempty, ih, isEmpty_iff_comparisons.mp hempty]

theorem one_le_length_comparisons {f : Formula} (h : f.isEmpty = false) :
    1 ≤ f.comparisons.length := by
  rw [Nat.one_le_iff_ne_zero, Ne, List.length_eq_zero_iff, ← isEmpty_iff_comparisons, h]
  exact Bool.false_ne_true

/-- Nothing is joined at the top exactly if there is at most one comparison. -/
theorem Joined.outer_eq_none_iff {f : Formula} (hf : f.Joined) :
    f.outer = none ↔ f.comparisons.length ≤ 1 := by
  induction hf with
  | test => simp [outer, comparisons]
  | @join connector parts hconnector _ ih =>
      have hmem : ∀ part, part ∈ parts.filter (fun part => !part.isEmpty) →
          part ∈ parts ∧ part.isEmpty = false := by simp
      rw [outer_join_eq, comparisons, ← partsComparisons_filter]
      rw [terms_eq_length_filter] at hconnector
      rcases hterms : parts.filter fun part => !part.isEmpty with - | ⟨only, - | ⟨next, rest⟩⟩
      · simp [hterms, partsComparisons]
      · have honly := hmem only (by simp [hterms])
        simpa [hterms, partsComparisons] using ih only honly.1
      · -- there is a comparison in each of the two, and the join has its connector
        have honly := one_le_length_comparisons (hmem only (by simp [hterms])).2
        have hnext := one_le_length_comparisons (hmem next (by simp [hterms])).2
        have hsome : connector ≠ none :=
          Option.isSome_iff_ne_none.mp (hconnector (by simp [hterms]))
        simp only [hterms, hsome, partsComparisons, List.length_append, false_iff]
        omega

/-- Where no join lacks its connector, a join that needs no scope has the connector around
it. -/
theorem connector_eq_of_needsScope_eq_false {connector : Option Connector}
    {parts : List Formula} {around : Connector} (h : 2 ≤ terms parts → connector.isSome)
    (hscope : needsScope (join connector parts).outer around = false)
    (hterms : 2 ≤ terms parts) : connector = some around := by
  obtain ⟨k, rfl⟩ := Option.isSome_iff_exists.mp (h hterms)
  rw [outer_join_of_two_le hterms] at hscope
  exact congrArg some (getD_of_needsScope_eq_false hscope)

end Formula

/-! ### The terms of an explained form -/

/-- Texts of terms that are joined by `around`, for some comparisons in order.  A term is a
comparison, or two terms or more in parentheses, joined by the opposite connector. -/
inductive Phrased : Connector → List Comparison → List String → Prop
  | nil {around} : Phrased around [] []
  | comparison {around c comparisons terms} : Phrased around comparisons terms →
      Phrased around (c :: comparisons) (c.explained :: terms)
  | parenthesised {around comparisons comparisons' terms terms'} : 2 ≤ terms.length →
      Phrased around.other comparisons terms → Phrased around comparisons' terms' →
      Phrased around (comparisons ++ comparisons')
        (("(" ++ (" " ++ around.other.text ++ " ").intercalate terms ++ ")") :: terms')

theorem Phrased.append {around : Connector} {comparisons comparisons' : List Comparison}
    {terms terms' : List String} (h : Phrased around comparisons terms)
    (h' : Phrased around comparisons' terms') :
    Phrased around (comparisons ++ comparisons') (terms ++ terms') := by
  induction h with
  | nil => exact h'
  | comparison _ ih => exact .comparison (ih h')
  | parenthesised htwo hinner _ _ ih =>
      rw [List.append_assoc]
      exact .parenthesised htwo hinner (ih h')

/-- The texts `ts` of some parts, read as the terms `us` among terms joined by `around`. -/
structure PhrasedAs (around : Connector) (parts : List Formula) (ts us : List String) :
    Prop where
  termTexts_eq : termTexts around parts = .ok ts
  phrased : Phrased around (partsComparisons parts) us
  separated_eq : ∀ first lead, separated around first lead ts = separated around first lead us
  terms_le : terms parts ≤ us.length
  /-- Parts that are joined by `around` are two terms or more. -/
  two_le : (join (some around) parts).outer = some around → 2 ≤ us.length

namespace PhrasedAs

variable {around : Connector} {connector : Option Connector} {part : Formula}
  {parts rest : List Formula} {text : String} {ts us ts' us' : List String}

/-- A part that says nothing comes before the rest. -/
theorem absent (hpart : part.isEmpty = true) (h : PhrasedAs around rest ts us) :
    PhrasedAs around (part :: rest) ts us := by
  obtain ⟨htexts, hphrased, hseparated, hterms, htwo⟩ := h
  refine ⟨?_, ?_, hseparated, ?_, ?_⟩
  · rw [termTexts, if_pos hpart, htexts]
  · rw [partsComparisons, isEmpty_iff_comparisons.mp hpart]
    exact hphrased
  · rwa [terms_cons_of_isEmpty hpart]
  · rwa [outer_join_cons_of_isEmpty hpart]

/-- A part that says something, in one text, comes before the rest. -/
theorem cons {k : Connector} (hpart : part.isEmpty = false) (hk : part.outer.getD around = k)
    (htext : part.textWithin k = .ok text)
    (hwritten : (if needsScope part.outer around then "(" ++ text ++ ")" else text) =
      (" " ++ around.text ++ " ").intercalate us)
    (hphrased : Phrased around part.comparisons us) (hone : 1 ≤ us.length)
    (htwo : part.outer = some around → 2 ≤ us.length) (h : PhrasedAs around rest ts' us') :
    PhrasedAs around (part :: rest)
      ((" " ++ around.text ++ " ").intercalate us :: ts') (us ++ us') := by
  have hne : us ≠ [] := List.ne_nil_of_length_pos hone
  have hterms := h.terms_le
  refine ⟨?_, hphrased.append h.phrased, ?_, ?_, ?_⟩
  · rw [termTexts_cons hpart hk htext h.termTexts_eq, hwritten]
  · intro first lead
    rw [separated, h.separated_eq, separated_append hne, separated_eq_intercalate hne]
  · rw [terms_cons_of_not_isEmpty hpart, List.length_append]
    omega
  · intro houter
    rw [List.length_append]
    exact two_le_of_outer_cons hpart hone hterms htwo houter

/-- The text of a join is made of the terms of its parts. -/
theorem textWithin_join (h : PhrasedAs around parts ts us) (hparts : allEmpty parts = false)
    (hconnector : 2 ≤ terms parts → connector = some around) :
    (join connector parts).textWithin around =
      .ok ((" " ++ around.text ++ " ").intercalate us) := by
  have hone := one_le_terms_iff.mpr hparts
  have hlength := (textsOf_termTexts h.termTexts_eq).length_eq
  have hts : ts ≠ [] := List.ne_nil_of_length_pos (hlength ▸ hone)
  have hus : us ≠ [] := List.ne_nil_of_length_pos (Nat.le_trans hone h.terms_le)
  have hseparated := h.separated_eq true around
  rw [separated_eq_intercalate hts, separated_eq_intercalate hus] at hseparated
  rw [Formula.textWithin_join h.termTexts_eq hlength hconnector]
  simpa [separator] using hseparated

/-- The terms of a join that goes in place are terms among those around it. -/
theorem inPlace (h : PhrasedAs around parts ts us)
    (hempty : (join connector parts).isEmpty = false)
    (hscope : needsScope (join connector parts).outer around = false)
    (hconnector : 2 ≤ terms parts → connector = some around)
    (hrest : PhrasedAs around rest ts' us') :
    PhrasedAs around (join connector parts :: rest)
      ((" " ++ around.text ++ " ").intercalate us :: ts') (us ++ us') := by
  have hk := getD_of_needsScope_eq_false hscope
  have houter := outer_join_congr hconnector
  have hone := Nat.le_trans (one_le_terms_iff.mpr hempty) h.terms_le
  have htext := h.textWithin_join hempty hconnector
  refine hrest.cons hempty hk htext ?_ h.phrased hone ?_
  · rw [hscope]
    rfl
  · exact fun heq => h.two_le (houter ▸ heq)

/-- A join in parentheses is a single term. -/
theorem apart (h : PhrasedAs around.other parts ts us)
    (hempty : (join connector parts).isEmpty = false)
    (houter : (join connector parts).outer = some around.other)
    (hrest : PhrasedAs around rest ts' us') :
    PhrasedAs around (join connector parts :: rest)
      ((" " ++ around.text ++ " ").intercalate
        ["(" ++ (" " ++ around.other.text ++ " ").intercalate us ++ ")"] :: ts')
      (["(" ++ (" " ++ around.other.text ++ " ").intercalate us ++ ")"] ++ us') := by
  have hconnector := connector_eq_of_outer_eq houter
  have hne : around.other ≠ around := (Connector.ne_other around).symm
  have hscope := needsScope_eq_true_iff.mpr ⟨_, houter, hne⟩
  have htwo := h.two_le ((outer_join_congr hconnector).symm.trans houter)
  have hnone : Phrased around [] [] := .nil
  have hphrased := Phrased.parenthesised htwo h.phrased hnone
  rw [List.append_nil] at hphrased
  have hk : (join connector parts).outer.getD around = around.other := by
    rw [houter]
    rfl
  have htext := h.textWithin_join hempty hconnector
  refine hrest.cons hempty hk htext ?_ hphrased (Nat.le_refl 1) ?_
  · rw [hscope, String.intercalate_singleton]
    rfl
  · exact fun heq => absurd (Option.some.inj (houter.symm.trans heq)) hne

end PhrasedAs

/-- Parts in which no join lacks its connector are written in terms. -/
theorem exists_phrasedAs {parts : List Formula} (h : ∀ part ∈ parts, part.Joined)
    (around : Connector) : ∃ ts us, PhrasedAs around parts ts us := by
  induction parts using parts_induct generalizing around with
  | nil => exact ⟨[], [], rfl, .nil, fun _ _ => rfl, Nat.le_refl 0, nofun⟩
  | test c rest ih =>
      obtain ⟨ts, us, hrest⟩ := ih (List.forall_mem_cons.mp h).2 around
      have hc : Phrased around (Formula.test c).comparisons [c.explained] := .comparison .nil
      refine ⟨_, _, hrest.cons rfl rfl rfl ?_ hc (Nat.le_refl 1) nofun⟩
      rw [String.intercalate_singleton]
      rfl
  | join connector parts rest ihParts ihRest =>
      obtain ⟨hjoin, hjoinRest⟩ := List.forall_mem_cons.mp h
      obtain ⟨ts', us', hrest⟩ := ihRest hjoinRest around
      rcases hempty : (join connector parts).isEmpty with - | -
      · cases hjoin with
        | join hisSome hparts =>
            rcases hscope : needsScope (join connector parts).outer around with - | -
            · have hconnector := connector_eq_of_needsScope_eq_false hisSome hscope
              obtain ⟨ts, us, hinner⟩ := ihParts hparts around
              exact ⟨_, _, hinner.inPlace hempty hscope hconnector hrest⟩
            · obtain ⟨k, houter, hne⟩ := needsScope_eq_true_iff.mp hscope
              obtain rfl := Connector.eq_other_of_ne hne
              obtain ⟨ts, us, hinner⟩ := ihParts hparts around.other
              exact ⟨_, _, hinner.apart hempty houter hrest⟩
      · exact ⟨ts', us', hrest.absent hempty⟩

/-- A formula with an outer connector is explained by two terms or more, which it joins. -/
theorem Formula.Joined.exists_terms {f : Formula} (hf : f.Joined) {k : Connector}
    (hk : f.outer = some k) :
    ∃ terms, 2 ≤ terms.length ∧ Phrased k f.comparisons terms ∧
      f.explain = .ok ((" " ++ k.text ++ " ").intercalate terms) := by
  obtain ⟨ts, us, h⟩ := exists_phrasedAs (List.forall_mem_singleton.mpr hf) k
  have htwo := h.two_le ((outer_join_singleton (some k) f).trans hk)
  have hne : us ≠ [] := List.ne_nil_of_length_pos (Nat.lt_of_succ_lt htwo)
  have htexts : termTexts (f.outer.getD .and) [f] = .ok ts := by
    rw [hk]
    exact h.termTexts_eq
  refine ⟨us, htwo, ?_, ?_⟩
  · simpa [partsComparisons] using h.phrased
  · rw [explain_of_termTexts htexts, hk, Option.getD_some, h.separated_eq,
      separated_eq_intercalate hne]
    simp [separator]

/-! ### What is foretold -/

/-- A reachable node has no outer connector exactly if there is at most one comparison
beneath it.  An outer connector joins two items or more at the root of a plan for the node
that is not refused, and two terms or more in its explained form. -/
theorem outer_foretells (n : Node) (hn : n.Reachable) :
    (n.formula.outer = none ↔ n.comparisons.length ≤ 1) ∧
    ∀ k, n.formula.outer = some k →
      (∀ m : Mapping, (n.formula.record m).refusal = none →
        2 ≤ (n.formula.items m).length ∧ TiedBy k .and (n.formula.items m)) ∧
      ∃ terms, 2 ≤ terms.length ∧ Phrased k n.comparisons terms ∧
        n.explain = .ok ((" " ++ k.text ++ " ").intercalate terms) := by
  rw [← n.comparisons_formula]
  refine ⟨hn.joined.outer_eq_none_iff, fun k hk => ⟨fun m h => ?_, hn.joined.exists_terms hk⟩⟩
  have hlaid := (planned_items h).laidOut
  rw [hk, Option.getD_some] at hlaid
  exact ⟨hlaid.two_le ((outer_join_singleton (some k) n.formula).trans hk), hlaid.tiedBy⟩

theorem outer_foretells_mixedFilter :
    let n : Node := .filter mixedFilter
    n.Reachable ∧ n.formula.outer = some .and ∧ ¬n.comparisons.length ≤ 1 ∧
      (n.formula.record {}).refusal = none ∧
      (2 ≤ (n.formula.items {}).length ∧ TiedBy .and .and (n.formula.items {})) ∧
      ∃ terms, 2 ≤ terms.length ∧ Phrased .and n.comparisons terms ∧
        n.explain = .ok (" and ".intercalate terms) := by
  intro n
  obtain ⟨hnone, hsome⟩ := outer_foretells n mixedFilter_reachable
  obtain ⟨hitems, hterms⟩ := hsome .and rfl
  have hmany : ¬n.comparisons.length ≤ 1 := by
    intro h
    cases hnone.mpr h
  exact ⟨mixedFilter_reachable, rfl, hmany, rfl, hitems {} rfl, hterms⟩

end WhereClause

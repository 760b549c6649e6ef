/-
WhereClause/Proofs/Words.lean

The words of a text, and what comes of joining them again.

A text that is cut into words and joined with single blanks is the same text but for its
blanks: each run of them has become one space (`squeezed`).  The key lemma is
`intercalate_cut`.  It carries the word that was already begun along, and with it whether
the blanks that come next are the first ones of a run.
-/
import Mathlib.Data.List.Chain
import WhereClause.Shell.Command

namespace WhereClause.Text

/-! ### Cutting -/

/-- A text that is one word. -/
def IsWord (w : List Char) : Prop :=
  w ≠ [] ∧ ∀ c ∈ w, isBlank c = false

theorem isBlank_space : isBlank ' ' = true := by
  decide

/-- No character of a text is blank, by evaluation. -/
theorem isBlank_of_all {w : List Char} (h : (w.all fun c => !isBlank c) = true) :
    ∀ c ∈ w, isBlank c = false := by
  intro c hc
  exact (Bool.not_eq_true' _).mp (List.all_eq_true.mp h c hc)

theorem isBlank_of_mem_cut {carry cs w : List Char} (hcarry : ∀ c ∈ carry, isBlank c = false)
    (h : w ∈ cut carry cs) : ∀ c ∈ w, isBlank c = false := by
  induction cs generalizing carry with
  | nil =>
      rw [cut] at h
      split at h
      · cases h
      · rw [List.mem_singleton.mp h]
        exact fun c hc => hcarry c (List.mem_reverse.mp hc)
  | cons c cs ih =>
      rw [cut] at h
      split at h
      · split at h
        · exact ih (List.forall_mem_nil _) h
        · rcases List.mem_cons.mp h with rfl | h
          · exact fun c hc => hcarry c (List.mem_reverse.mp hc)
          · exact ih (List.forall_mem_nil _) h
      · next hc =>
          exact ih (List.forall_mem_cons.mpr ⟨Bool.eq_false_iff.mpr hc, hcarry⟩) h

theorem isWord_of_mem_cut {cs w : List Char} (h : w ∈ cut [] cs) : IsWord w :=
  ⟨ne_nil_of_mem_cut h, isBlank_of_mem_cut (List.forall_mem_nil _) h⟩

theorem cut_ne_nil {carry : List Char} (h : carry ≠ []) (cs : List Char) : cut carry cs ≠ [] := by
  induction cs generalizing carry with
  | nil =>
      rw [cut, if_neg h]
      exact List.cons_ne_nil _ _
  | cons c cs ih =>
      rw [cut, if_neg h]
      split
      · exact List.cons_ne_nil _ _
      · exact ih (List.cons_ne_nil c carry)

/-- A text without words is blank. -/
theorem isBlank_of_cut_eq_nil {carry cs : List Char} (h : cut carry cs = []) :
    ∀ c ∈ cs, isBlank c = true := by
  induction cs generalizing carry with
  | nil => exact List.forall_mem_nil _
  | cons c cs ih =>
      rw [cut] at h
      split at h
      · next hc =>
          split at h
          · exact List.forall_mem_cons.mpr ⟨hc, ih h⟩
          · cases h
      · -- the word that is begun here cannot get lost
        exact absurd h (cut_ne_nil (List.cons_ne_nil c carry) cs)

/-- Characters that are not blank go on with the word that was begun. -/
theorem cut_append {w : List Char} (hw : ∀ c ∈ w, isBlank c = false) (carry cs : List Char) :
    cut carry (w ++ cs) = cut (w.reverse ++ carry) cs := by
  induction w generalizing carry with
  | nil => rfl
  | cons c w ih =>
      obtain ⟨hc, hw⟩ := List.forall_mem_cons.mp hw
      rw [List.cons_append, cut, hc, if_neg Bool.false_ne_true, ih hw, List.reverse_cons,
        List.append_assoc, List.singleton_append]

/-- A word ends at the next blank. -/
theorem cut_word {w : List Char} (hw : IsWord w) (cs : List Char) :
    cut [] (w ++ ' ' :: cs) = w :: cut [] cs := by
  have hne : w.reverse ≠ [] := fun h => hw.1 (List.reverse_eq_nil_iff.mp h)
  rw [cut_append hw.2, List.append_nil, cut, if_pos isBlank_space, if_neg hne,
    List.reverse_reverse]

/-- Words with a space behind each of them are cut there. -/
theorem cut_words {ws : List (List Char)} (hws : ∀ w ∈ ws, IsWord w) (cs : List Char) :
    cut [] (ws.flatMap (· ++ [' ']) ++ cs) = ws ++ cut [] cs := by
  induction ws with
  | nil => rfl
  | cons w ws ih =>
      obtain ⟨hw, hws⟩ := List.forall_mem_cons.mp hws
      rw [List.flatMap_cons, List.append_assoc, List.append_assoc, List.singleton_append,
        cut_word hw, ih hws, List.cons_append]

/-- A text without blanks at its ends. -/
structure Trimmed (cs : List Char) : Prop where
  head : ∀ c ∈ cs.head?, isBlank c = false
  last : ∀ c ∈ cs.getLast?, isBlank c = false

theorem dropWhile_of_head {cs : List Char} (h : ∀ c ∈ cs.head?, isBlank c = false) :
    cs.dropWhile isBlank = cs := by
  rcases cs with - | ⟨c, cs⟩
  · rfl
  · exact List.dropWhile_cons_of_neg (Bool.eq_false_iff.mp (h c rfl))

theorem Trimmed.trimmed_eq {cs : List Char} (h : Trimmed cs) : trimmed cs = cs := by
  have hlast : ∀ c ∈ cs.reverse.head?, isBlank c = false := by
    rw [List.head?_reverse]
    exact h.last
  rw [trimmed, dropWhile_of_head h.head, dropWhile_of_head hlast, List.reverse_reverse]

/-! ### Joining -/

/-- A text with one space in the place of each run of blanks.  What counts as a blank is said
by `p`, and blanks at the beginning are dropped if there was one before. -/
def squeezed (p : Char → Bool) (after : Bool) : List Char → List Char
  | [] => []
  | c :: cs =>
      if p c then
        if after then squeezed p true cs else ' ' :: squeezed p true cs
      else c :: squeezed p false cs

section Squeezed

variable {p : Char → Bool} {after : Bool} {c : Char} {cs : List Char}

theorem squeezed_blank (hc : p c = true) :
    squeezed p after (c :: cs) = if after then squeezed p true cs else ' ' :: squeezed p true cs := by
  rw [squeezed, if_pos hc]

theorem squeezed_cons (hc : p c = false) : squeezed p after (c :: cs) = c :: squeezed p false cs := by
  rw [squeezed, if_neg (Bool.eq_false_iff.mp hc)]

/-- What has no blanks in it is left as it is. -/
theorem squeezed_append {w : List Char} (hw : ∀ c ∈ w, p c = false) (hne : w ≠ []) :
    squeezed p after (w ++ cs) = w ++ squeezed p false cs := by
  induction w generalizing after with
  | nil => exact absurd rfl hne
  | cons c w ih =>
      obtain ⟨hc, hw⟩ := List.forall_mem_cons.mp hw
      rw [List.cons_append, squeezed_cons hc]
      rcases w with - | ⟨d, w⟩
      · rfl
      · rw [ih hw (List.cons_ne_nil d w), List.cons_append (a := c)]

theorem length_squeezed_le (after : Bool) (cs : List Char) :
    (squeezed p after cs).length ≤ cs.length := by
  induction cs generalizing after with
  | nil => exact Nat.le_refl 0
  | cons c cs ih =>
      have hblank := ih true
      have hplain := ih false
      rw [squeezed]
      split
      · split
        · exact Nat.le_succ_of_le hblank
        · exact Nat.succ_le_succ hblank
      · exact Nat.succ_le_succ hplain

end Squeezed

/-- After a blank a text is left as it is if it does not go on with a blank, which would get
lost. -/
theorem squeezed_true_eq_self_iff {p : Char → Bool} {cs : List Char} :
    squeezed p true cs = cs ↔ (∀ c ∈ cs.head?, p c = false) ∧ squeezed p false cs = cs := by
  rcases cs with - | ⟨c, cs⟩
  · exact iff_of_true rfl ⟨(nofun), rfl⟩
  · rcases hc : p c with - | -
    · rw [squeezed_cons hc, squeezed_cons hc]
      refine ⟨fun h => ⟨fun d hd => ?_, h⟩, fun h => h.2⟩
      cases hd
      exact hc
    · refine iff_of_false (fun h => ?_) fun h => ?_
      · -- the text would be shorter than itself
        have hlength := length_squeezed_le (p := p) true cs
        rw [squeezed_blank hc, if_pos rfl] at h
        rw [h, List.length_cons] at hlength
        omega
      · have hc' := h.1 c rfl
        rw [hc] at hc'
        cases hc'

/-- Blanks stand one at a time, and each of them is a space. -/
structure Single (p : Char → Bool) (cs : List Char) : Prop where
  spaces : ∀ c ∈ cs, p c = true → c = ' '
  apart : cs.IsChain fun c d => p c = true → p d = false

/-- Texts with single spaces for blanks are those that are left as they are. -/
theorem squeezed_eq_self_iff {p : Char → Bool} {cs : List Char} :
    squeezed p false cs = cs ↔ Single p cs := by
  induction cs with
  | nil => exact iff_of_true rfl ⟨List.forall_mem_nil _, .nil⟩
  | cons c cs ih =>
      rcases hc : p c with - | -
      · rw [squeezed_cons hc, List.cons_eq_cons, and_iff_right rfl, ih]
        constructor
        · rintro ⟨hspaces, hapart⟩
          refine ⟨List.forall_mem_cons.mpr ⟨fun h => ?_, hspaces⟩, ?_⟩
          · rw [hc] at h
            cases h
          · rw [List.isChain_cons]
            refine ⟨fun d _ h => ?_, hapart⟩
            rw [hc] at h
            cases h
        · rintro ⟨hspaces, hapart⟩
          exact ⟨(List.forall_mem_cons.mp hspaces).2, (List.isChain_cons.mp hapart).2⟩
      · rw [squeezed_blank hc, if_neg Bool.false_ne_true, List.cons_eq_cons,
          squeezed_true_eq_self_iff, ih]
        constructor
        · rintro ⟨rfl, hhead, hspaces, hapart⟩
          exact ⟨List.forall_mem_cons.mpr ⟨fun _ => rfl, hspaces⟩,
            List.isChain_cons.mpr ⟨fun d hd _ => hhead d hd, hapart⟩⟩
        · rintro ⟨hspaces, hapart⟩
          obtain ⟨hspace, hspaces⟩ := List.forall_mem_cons.mp hspaces
          obtain ⟨hhead, hapart⟩ := List.isChain_cons.mp hapart
          exact ⟨(hspace hc).symm, fun d hd => hhead d hd hc, hspaces, hapart⟩

/-- Joining the words of a text again squeezes its blanks. -/
theorem intercalate_cut (carry : List Char) {cs : List Char}
    (h : ∀ c ∈ cs.getLast?, isBlank c = false) :
    [' '].intercalate (cut carry cs) = carry.reverse ++ squeezed isBlank carry.isEmpty cs := by
  induction cs generalizing carry with
  | nil =>
      rcases carry with - | ⟨d, carry⟩
      · rfl
      · simp [cut, squeezed, List.intercalate]
  | cons c cs ih =>
      have hrest : ∀ d ∈ cs.getLast?, isBlank d = false := by
        intro d hd
        refine h d ?_
        rw [List.getLast?_cons, Option.mem_def.mp hd]
        rfl
      rcases hc : isBlank c with - | -
      · rw [cut, hc, if_neg Bool.false_ne_true, ih (c :: carry) hrest, squeezed_cons hc,
          List.reverse_cons, List.append_assoc]
        rfl
      · rw [cut, if_pos hc, squeezed_blank hc]
        rcases carry with - | ⟨d, carry⟩
        · rw [if_pos rfl, ih [] hrest]
          rfl
        · -- a blank is not the last character, so another word follows
          have hne : cut [] cs ≠ [] := by
            intro hnil
            have hall : ∀ d ∈ c :: cs, isBlank d = true :=
              List.forall_mem_cons.mpr ⟨hc, isBlank_of_cut_eq_nil hnil⟩
            have hlast := h _ (List.getLast?_eq_some_getLast (List.cons_ne_nil c cs))
            rw [hall _ (List.getLast_mem _)] at hlast
            cases hlast
          rw [if_neg (List.cons_ne_nil d carry), List.intercalate_cons_of_ne_nil hne, ih [] hrest,
            List.append_assoc]
          rfl

theorem intercalate_append {ws vs : List (List Char)} (hws : ws ≠ []) (hvs : vs ≠ []) :
    [' '].intercalate (ws ++ vs) = [' '].intercalate ws ++ ' ' :: [' '].intercalate vs := by
  induction ws with
  | nil => exact absurd rfl hws
  | cons w ws ih =>
      rcases ws with - | ⟨v, ws⟩
      · rw [List.singleton_append, List.intercalate_cons_of_ne_nil hvs, List.intercalate_singleton,
          List.append_assoc, List.singleton_append]
      · rw [List.cons_append, List.cons_append, List.intercalate_cons_cons,
          List.intercalate_cons_cons, ← List.cons_append, ih (List.cons_ne_nil v ws),
          List.append_assoc _ _ (' ' :: _)]

/-- Joined words end with their last word, and so with a character that is not blank. -/
theorem exists_last_intercalate {ws : List (List Char)} (hws : ∀ w ∈ ws, IsWord w) (h : ws ≠ []) :
    [' '].intercalate ws ≠ [] ∧ ∀ c ∈ ([' '].intercalate ws).getLast?, isBlank c = false := by
  obtain ⟨vs, w, rfl⟩ := (List.eq_nil_or_concat' ws).resolve_left h
  have hw : IsWord w := hws w (List.mem_append_right vs (List.mem_singleton.mpr rfl))
  obtain ⟨front, hfront⟩ : ∃ front, [' '].intercalate (vs ++ [w]) = front ++ w := by
    rcases List.eq_nil_or_concat' vs with rfl | ⟨us, v, rfl⟩
    · exact ⟨[], List.intercalate_singleton⟩
    · rw [intercalate_append (List.concat_ne_nil v us) (List.cons_ne_nil w []),
        List.intercalate_singleton]
      exact ⟨_, (List.append_assoc _ [' '] w).symm⟩
  rw [hfront]
  refine ⟨fun hnil => hw.1 (List.append_eq_nil_iff.mp hnil).2, fun c hc => ?_⟩
  rw [List.getLast?_append_of_ne_nil _ hw.1] at hc
  exact hw.2 c (List.mem_of_getLast? hc)

end WhereClause.Text

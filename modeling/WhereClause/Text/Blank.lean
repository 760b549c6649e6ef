/-
WhereClause/Text/Blank.lean

Blank characters and what is cut at them.  A character is blank if it has the
Unicode property White_Space; these are 25 code points, listed as ranges in
`blankRanges`.

`trim` drops the blanks at both ends of a text.  `words` cuts a text at its
runs of blanks: the words are the maximal blank-free pieces, in order, and none
of them is empty (`ne_nil_of_mem_cut`).
-/

namespace WhereClause.Text

/-- The code points with the property White_Space, as closed ranges. -/
def blankRanges : List (Nat × Nat) :=
  [(0x09, 0x0D), (0x20, 0x20), (0x85, 0x85), (0xA0, 0xA0), (0x1680, 0x1680), (0x2000, 0x200A),
    (0x2028, 0x2029), (0x202F, 0x202F), (0x205F, 0x205F), (0x3000, 0x3000)]

/-- A character with the property White_Space. -/
def isBlank (c : Char) : Bool :=
  blankRanges.any fun range => range.1 ≤ c.toNat && c.toNat ≤ range.2

/-! ### Trimming -/

/-- The characters between the blanks at both ends. -/
def trimmed (cs : List Char) : List Char :=
  ((cs.dropWhile isBlank).reverse.dropWhile isBlank).reverse

/-- A text without the blanks at its ends. -/
def trim (s : String) : String :=
  String.ofList (trimmed s.toList)

/-! ### Words -/

/-- The words of `cs`, where `carry` holds the characters of a word already
begun, latest first. -/
def cut (carry : List Char) : List Char → List (List Char)
  | [] => if carry = [] then [] else [carry.reverse]
  | c :: cs =>
      if isBlank c then
        if carry = [] then cut [] cs else carry.reverse :: cut [] cs
      else cut (c :: carry) cs

/-- The maximal blank-free pieces of a text, in order. -/
def words (s : String) : List String :=
  (cut [] s.toList).map String.ofList

/-- No word is empty. -/
theorem ne_nil_of_mem_cut {carry cs w : List Char} (h : w ∈ cut carry cs) : w ≠ [] := by
  induction cs generalizing carry with
  | nil =>
      by_cases hc : carry = []
      · simp [cut, hc] at h
      · simp only [cut, if_neg hc, List.mem_singleton] at h
        simpa [h] using hc
  | cons c cs ih =>
      by_cases hb : isBlank c
      · by_cases hc : carry = []
        · exact ih (by simpa [cut, hb, hc] using h)
        · simp only [cut, hb, if_true, if_neg hc, List.mem_cons] at h
          rcases h with rfl | h
          · simpa using hc
          · exact ih h
      · exact ih (by simpa [cut, hb] using h)

end WhereClause.Text

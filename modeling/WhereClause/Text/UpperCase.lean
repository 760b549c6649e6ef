/-
WhereClause/Text/UpperCase.lean

Upper case, as far as it can end in ASCII.  The full upper-case mapping of
Unicode sends a character to one, two or three characters.  Besides `a` to `z`,
only the characters of `ligatures` are sent to ASCII letters alone; every other
non-ASCII character keeps a non-ASCII character in its image.  Comparing with
ASCII spellings therefore needs no more than `upper`, which leaves all other
characters alone.
-/

namespace WhereClause.Text

/-- The non-ASCII characters whose upper-case form is ASCII: dotless i, long s,
sharp s and the Latin ligatures. -/
def ligatures : List (Char × String) :=
  [('ı', "I"), ('ſ', "S"), ('ß', "SS"), ('ﬀ', "FF"), ('ﬁ', "FI"), ('ﬂ', "FL"), ('ﬃ', "FFI"),
    ('ﬄ', "FFL"), ('ﬅ', "ST"), ('ﬆ', "ST")]

/-- The upper-case form of a character if that form is ASCII; any other
character stands for itself. -/
def upperChar (c : Char) : List Char :=
  match ligatures.lookup c with
  | some form => form.toList
  | none => [c.toUpper]

/-- A text in upper case, exactly where the result can be ASCII. -/
def upper (s : String) : String :=
  String.ofList (s.toList.flatMap upperChar)

end WhereClause.Text

/-
WhereClause/Text/Cluster.lean

User-perceived characters: the extended grapheme clusters of Unicode, such as a
letter with its accents, a Hangul syllable written by its parts, a flag, or
several emoji joined into one.

`BreakClass.goesOn` decides from the classes of the characters before a place,
and of the one after it, whether the cluster goes on there.  `clusters` cuts a
text at all other places.
-/
import WhereClause.Text.BreakClass

namespace WhereClause.Text

/-! ### Where a cluster goes on -/

namespace BreakClass

/-- The classes that always stand alone, but for a line feed after a carriage
return. -/
def isBreaking : BreakClass → Bool
  | .carriageReturn | .lineFeed | .control => true
  | _ => false

/-- The classes that go on with whatever character is before them. -/
def isTrailing : BreakClass → Bool
  | .extending | .linking | .nonJoiner | .joiner | .spacing => true
  | _ => false

/-- The parts of a Hangul syllable stand in the order lead, vowel, tail. -/
def isSyllablePair : BreakClass → BreakClass → Bool
  | .hangulLead, .hangulLead | .hangulLead, .hangulVowel | .hangulLead, .hangulOpen
  | .hangulLead, .hangulClosed => true
  | .hangulOpen, .hangulVowel | .hangulVowel, .hangulVowel | .hangulOpen, .hangulTail
  | .hangulVowel, .hangulTail => true
  | .hangulClosed, .hangulTail | .hangulTail, .hangulTail => true
  | _, _ => false

/-- The classes that may stand between two consonants of one conjunct. -/
def isConjunctMark : BreakClass → Bool
  | .extending | .linking | .joiner => true
  | _ => false

/-- Whether a text ends in a consonant and marks with a linker among them; the
classes of its characters are given latest first. -/
def endsInLinkedConsonant (before : List BreakClass) : Bool :=
  (before.takeWhile isConjunctMark).contains .linking &&
    (before.dropWhile isConjunctMark).head? == some .consonant

/-- The classes that may stand between a pictograph and a joiner. -/
def isExtend : BreakClass → Bool
  | .extending | .linking | .nonJoiner => true
  | _ => false

/-- Whether a text ends in a pictograph, marks that extend it, and a joiner; the
classes of its characters are given latest first. -/
def endsInJoinedPictograph : List BreakClass → Bool
  | .joiner :: before => (before.dropWhile isExtend).head? == some .pictograph
  | _ => false

/-- Whether a text ends in a regional indicator that has no partner, when they
are paired from the first on; the classes of its characters are given latest
first. -/
def endsInUnpairedRegional (before : List BreakClass) : Bool :=
  (before.takeWhile (· == .regional)).length % 2 == 1

/-- Whether a cluster goes on with a character of class `next`, where `before`
holds the classes of the characters before it, latest first. -/
def goesOn (before : List BreakClass) (next : BreakClass) : Bool :=
  match before with
  | [] => false
  | last :: _ =>
      if isBreaking last || isBreaking next then last == .carriageReturn && next == .lineFeed
      else
        isTrailing next || last == .leading || isSyllablePair last next ||
          (next == .consonant && endsInLinkedConsonant before) ||
          (next == .pictograph && endsInJoinedPictograph before) ||
          (next == .regional && endsInUnpairedRegional before)

end BreakClass

/-! ### Clusters -/

/-- The clusters of a text that is partly read.  `before` holds the classes of
the characters read and `carry` the cluster begun, both latest first. -/
def clustersAfter (before : List BreakClass) (carry : List Char) : List Char → List (List Char)
  | [] => [carry.reverse]
  | c :: cs =>
      if BreakClass.goesOn before (.of c) then clustersAfter (.of c :: before) (c :: carry) cs
      else carry.reverse :: clustersAfter (.of c :: before) [c] cs

/-- The clusters of a text, in order. -/
def clusters : List Char → List (List Char)
  | [] => []
  | c :: cs => clustersAfter [.of c] [c] cs

end WhereClause.Text

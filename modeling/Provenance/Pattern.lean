import Provenance.Text

/-!
# Patterns

A pattern is a text in which every `*` stands for any text, the empty one included. Matching takes
the leftmost place for each part between two stars, which never rules out a match that exists.
-/

namespace Provenance.Pattern

/-- What follows the leftmost occurrence of a part. -/
def afterFirst? (part : List Char) : List Char → Option (List Char)
  | [] => if part = [] then some [] else none
  | c :: rest =>
    if part.isPrefixOf (c :: rest) then some ((c :: rest).drop part.length)
    else afterFirst? part rest

/-- Whether the parts after the first star occur one after the other, the last one at the end. -/
def matchParts : List (List Char) → List Char → Bool
  | [], text => text.isEmpty
  | [last], text => last.isSuffixOf text
  | part :: parts, text =>
    match afterFirst? part text with
    | some rest => matchParts parts rest
    | none => false

/-- Whether a text matches a pattern. -/
def matchesChars (pattern text : List Char) : Bool :=
  match Text.pieces '*' pattern with
  | [] => text.isEmpty
  | [only] => only = text
  | first :: parts => first.isPrefixOf text && matchParts parts (text.drop first.length)

/-- Whether a text matches a pattern. -/
def accepts (pattern text : String) : Bool :=
  matchesChars pattern.toList text.toList

end Provenance.Pattern

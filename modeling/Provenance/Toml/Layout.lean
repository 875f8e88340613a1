/-!
# The layout of TOML

Blanks, line breaks and comments, which separate the statements of a text. Every function takes the
rest of the text and gives what follows the thing it reads.
-/

namespace Provenance.Toml

/-- What is read from the head of a text, and the rest. -/
abbrev Read (α : Type) := Option (α × List Char)

def isBlank (c : Char) : Bool :=
  c = ' ' || c = '\t'

/-- Characters other than tab that may stand anywhere in a line. -/
def isPrintable (c : Char) : Bool :=
  (0x20 ≤ c.toNat && c.toNat ≤ 0x7E) || 0x80 ≤ c.toNat

/-- Characters that may stand in a comment. -/
def isInLine (c : Char) : Bool :=
  c = '\t' || isPrintable c

/-- Characters of a key without quotes. -/
def isBare (c : Char) : Bool :=
  c.isAlphanum || c = '_' || c = '-'

def skipBlanks (cs : List Char) : List Char :=
  cs.dropWhile isBlank

/-- The rest after a line break. -/
def lineBreak? : List Char → Option (List Char)
  | '\n' :: rest => some rest
  | '\r' :: '\n' :: rest => some rest
  | _ => none

/-- The rest after a comment, up to the line break. -/
def skipComment : List Char → List Char
  | '#' :: rest => rest.dropWhile isInLine
  | cs => cs

/-- The rest after blanks, a comment and the end of the line. -/
def endOfLine? (cs : List Char) : Option (List Char) :=
  match skipComment (skipBlanks cs) with
  | [] => some []
  | rest => lineBreak? rest

/-- The rest after any blanks, comments and line breaks. -/
def skipLines : Nat → List Char → Option (List Char)
  | 0, _ => none
  | fuel + 1, cs =>
    match skipBlanks cs with
    | '#' :: rest =>
      match rest.dropWhile isInLine with
      | [] => some []
      | rest => (lineBreak? rest).bind (skipLines fuel)
    | cs =>
      match lineBreak? cs with
      | some rest => skipLines fuel rest
      | none => some cs

end Provenance.Toml

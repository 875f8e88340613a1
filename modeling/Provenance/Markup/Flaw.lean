/-!
# Flaws

What can be wrong with a text that is to be read as markup, and the wording of each case.
-/

namespace Provenance.Markup

/-- The bases in which a reference may write the code of a character. -/
inductive Radix where
  | decimal
  | hexadecimal
  deriving DecidableEq, Repr

namespace Radix

def base : Radix → Nat
  | decimal => 10
  | hexadecimal => 16

/-- How many bytes the digits of a code may take: enough for the largest code. -/
def limit : Radix → Nat
  | decimal => 7
  | hexadecimal => 6

def name : Radix → String
  | decimal => "decimal"
  | hexadecimal => "hexadecimal"

end Radix

/-- What is wrong with a reference. -/
inductive ReferenceFlaw where
  | unterminated
  | unknown
  | zero
  | tooLong (radix : Radix)
  | badDigit (radix : Radix) (c : Char)
  | noScalar (code : Nat)
  deriving DecidableEq, Repr

namespace ReferenceFlaw

def message : ReferenceFlaw → String
  | unterminated => "Cannot find ';' after '&'"
  | unknown => "Unrecognized escape symbol"
  | zero => "Null character entity not allowed"
  | tooLong radix => s!"Cannot convert {radix.name} to utf8"
  | badDigit radix c => s!"'{c}' is not a valid {radix.name} character"
  | noScalar code => s!"'{code}' is not a valid codepoint"

end ReferenceFlaw

/-- What is wrong with an attribute. -/
inductive AttributeFlaw where
  | noEquals
  | noValue
  | unquoted
  | unclosed (quote : Char)
  | repeated
  deriving DecidableEq, Repr

namespace AttributeFlaw

def message : AttributeFlaw → String
  | noEquals => "attribute key must be directly followed by `=` or space"
  | noValue => "`=` must be followed by an attribute value"
  | unquoted => "attribute value must be enclosed in `\"` or `'`"
  | unclosed quote => s!"missing closing quote `{quote}` in attribute value"
  | repeated => "duplicated attribute"

end AttributeFlaw

/-- The pieces of markup that have an end of their own. -/
inductive Construct where
  | tag
  | rawText
  | comment
  | declaration
  | instruction
  | remark
  deriving DecidableEq, Repr

namespace Construct

def name : Construct → String
  | tag => "Element"
  | rawText => "CData"
  | comment => "Comment"
  | declaration => "DOCTYPE"
  | instruction => "XmlDecl"
  | remark => "Bang"

end Construct

/-- What is wrong with a piece of markup. -/
inductive Flaw where
  | unfinished (construct : Construct)
  | unknownRemark (first : Char)
  | emptyDeclaration
  | endTag (expected found : String)
  | inAttribute (flaw : AttributeFlaw)
  | inReference (flaw : ReferenceFlaw)
  deriving DecidableEq, Repr

namespace Flaw

def message : Flaw → String
  | unfinished construct => s!"Unexpected EOF during reading {construct.name}"
  | unknownRemark first =>
    "Only Comment (`--`), CDATA (`[CDATA[`) and DOCTYPE (`DOCTYPE`) nodes can start with a '!', " ++
      s!"but symbol `{first}` found"
  | emptyDeclaration => "DOCTYPE declaration must not be empty"
  | endTag expected found => s!"Expecting </{expected}> found </{found}>"
  | inAttribute flaw => s!"error while parsing attribute: {flaw.message}"
  | inReference flaw => flaw.message

end Flaw

end Provenance.Markup

import Provenance.Digits
import Provenance.Markup.Flaw
import Provenance.Text

/-!
# Markup events

An XML text as a sequence of tags, character data and remarks. `Event.ofText` reads it: blanks at
the ends of a run of character data are dropped, references such as `&lt;` are replaced, and each
end tag must carry the name of the innermost element that is open (`nest`). Remarks are comments,
processing instructions and document type declarations; nothing in them is kept.

Names are not checked: a name is whatever stands between `<` and the first blank.
-/

namespace Provenance.Markup

/-- A piece of markup. An end tag keeps all that stands between `</` and `>`. -/
inductive Event where
  | startTag (name : String) (attributes : List (String × String))
  | emptyTag (name : String) (attributes : List (String × String))
  | endTag (content : String)
  | text (content : String)
  | rawText (content : String)
  | remark
  deriving DecidableEq, Repr

/-- The blanks that markup knows. -/
def isSpace (c : Char) : Bool :=
  c = ' ' || c = '\t' || c = '\r' || c = '\n'

/-! ## References -/

/-- The character with a code, which must be a Unicode scalar value other than zero. -/
def scalar (code : Nat) : Except ReferenceFlaw Char :=
  if code = 0 then .error .zero
  else if (0xD800 ≤ code ∧ code < 0xE000) ∨ 0x10FFFF < code then .error (.noScalar code)
  else .ok (Char.ofNat code)

/-- How many bytes some characters take. -/
def byteCount (cs : List Char) : Nat :=
  cs.foldl (fun count c ↦ count + c.utf8Size) 0

/-- The character whose code some digits write. -/
def numbered (radix : Radix) (digits : List Char) : Except ReferenceFlaw Char :=
  if radix.limit < byteCount digits then .error (.tooLong radix)
  else
    match digits.find? (fun c ↦ (Digits.value? radix.base c).isNone) with
    | some c => .error (.badDigit radix c)
    | none => scalar (Digits.toNat radix.base digits)

/-- The character that a reference stands for, given what is between `&` and `;`. -/
def entity : List Char → Except ReferenceFlaw Char
  | ['l', 't'] => .ok '<'
  | ['g', 't'] => .ok '>'
  | ['a', 'm', 'p'] => .ok '&'
  | ['a', 'p', 'o', 's'] => .ok '\''
  | ['q', 'u', 'o', 't'] => .ok '"'
  | '#' :: 'x' :: digits => numbered .hexadecimal digits
  | '#' :: digits => numbered .decimal digits
  | _ => .error .unknown

/-- A piece that begins after an ampersand, with its reference replaced. -/
def resolvePiece (piece : List Char) : Except ReferenceFlaw (List Char) :=
  match piece.dropWhile (· ≠ ';') with
  | _ :: tail => (entity (piece.takeWhile (· ≠ ';'))).map (· :: tail)
  | [] => .error .unterminated

/-- Character data with every reference replaced. -/
def unescape (cs : List Char) : Except ReferenceFlaw (List Char) :=
  match Text.pieces '&' cs with
  | [] => .ok []
  | first :: rest => (rest.mapM resolvePiece).map (fun resolved ↦ first ++ resolved.flatten)

/-! ## Attributes -/

/-- The key at the head of a list: one character at least, then all up to `=` or a blank. -/
def spanKey : List Char → List Char × List Char
  | [] => ([], [])
  | c :: rest =>
    let isKey := fun c ↦ !(c = '=' || isSpace c)
    (c :: rest.takeWhile isKey, rest.dropWhile isKey)

/-- A quoted value and what follows it. -/
def quoted : List Char → Except AttributeFlaw (List Char × List Char)
  | [] => .error .noValue
  | q :: rest =>
    if q = '"' ∨ q = '\'' then
      match rest.dropWhile (· ≠ q) with
      | _ :: after => .ok (rest.takeWhile (· ≠ q), after)
      | [] => .error (.unclosed q)
    else .error .unquoted

/-- The attributes in the part of a tag after its name. No two have the same key. -/
def attributes : Nat → List String → List Char → Except Flaw (List (String × String))
  | 0, _, _ => .error (.unfinished .tag)
  | fuel + 1, keys, cs =>
    match cs.dropWhile isSpace with
    | [] => .ok []
    | cs@(_ :: _) =>
      let (key, rest) := spanKey cs
      let key := String.ofList key
      match rest.dropWhile isSpace with
      | '=' :: rest =>
        if key ∈ keys then .error (.inAttribute .repeated)
        else do
          let (value, rest) ← (quoted (rest.dropWhile isSpace)).mapError .inAttribute
          let value ← (unescape value).mapError .inReference
          let more ← attributes fuel (key :: keys) rest
          return (key, String.ofList value) :: more
      | _ => .error (.inAttribute .noEquals)

/-! ## Tags and remarks -/

/-- The content of a tag up to the first `>` outside quotes, and what follows it. -/
def tagContent? : Option Char → List Char → Option (List Char × List Char)
  | _, [] => none
  | none, c :: rest =>
    if c = '>' then some ([], rest)
    else
      let quote := if c = '"' ∨ c = '\'' then some c else none
      (tagContent? quote rest).map (fun (content, rest) ↦ (c :: content, rest))
  | some q, c :: rest =>
    (tagContent? (if c = q then none else some q) rest).map
      (fun (content, rest) ↦ (c :: content, rest))

/-- The start tag or the empty element with a given content. -/
def tag (content : List Char) : Except Flaw Event :=
  let isEmpty := content.getLast? = some '/'
  let content := if isEmpty then content.dropLast else content
  let name := String.ofList (content.takeWhile (!isSpace ·))
  let rest := content.dropWhile (!isSpace ·)
  (attributes (rest.length + 1) [] rest).map
    (if isEmpty then Event.emptyTag name else Event.startTag name)

/-- What comes before the first `>` that ends a construct, newest first, and what follows it. The
construct ends where `ends` holds of the characters read so far. -/
def upTo? (ends : List Char → Bool) : List Char → List Char → Option (List Char × List Char)
  | _, [] => none
  | seen, c :: rest =>
    if c = '>' ∧ ends seen then some (seen, rest) else upTo? ends (c :: seen) rest

/-- Whether a text begins with a name, the case of letters aside. -/
def beginsWith (name cs : List Char) : Bool :=
  name.isPrefixOf (cs.map Char.toUpper)

/-- Character data between `<![CDATA[` and `]]>`. -/
def rawText (cs : List Char) : Except Flaw (Event × List Char) :=
  match upTo? (fun seen ↦ [']', ']'].isPrefixOf seen) ['!'] cs with
  | none => .error (.unfinished .rawText)
  | some (seen, rest) =>
    let content := (seen.drop 2).reverse
    let opening := "![CDATA[".toList
    if beginsWith opening content then
      .ok (.rawText (String.ofList (content.drop opening.length)), rest)
    else .error (.unfinished .rawText)

/-- A comment, which is closed by the first `-->` that shares no hyphen with its opening. -/
def comment (cs : List Char) : Except Flaw (Event × List Char) :=
  match upTo? (fun seen ↦ 5 ≤ seen.length && ['-', '-'].isPrefixOf seen) ['!'] cs with
  | none => .error (.unfinished .comment)
  | some (seen, rest) =>
    if "!--".toList.isPrefixOf seen.reverse then .ok (.remark, rest)
    else .error (.unfinished .comment)

/-- A document type declaration, which holds as many `<` as `>` and has something after its name. -/
def declaration (cs : List Char) : Except Flaw (Event × List Char) :=
  match upTo? (fun seen ↦ seen.count '<' = seen.count '>') ['!'] cs with
  | none => .error (.unfinished .declaration)
  | some (seen, rest) =>
    let content := seen.reverse
    let opening := "!DOCTYPE".toList
    if !beginsWith opening content then .error (.unfinished .declaration)
    else if (content.drop opening.length).all isSpace then .error .emptyDeclaration
    else .ok (.remark, rest)

/-- A processing instruction, given what stands between `<` and `>`. -/
def instruction (content : List Char) : Except Flaw Event :=
  if 2 < content.length ∧ content.getLast? = some '?' then .ok .remark
  else .error (.unfinished .instruction)

/-- The markup that follows a `<`, and what follows the markup. -/
def markup : List Char → Except Flaw (Event × List Char)
  | '!' :: rest =>
    match rest with
    | [] => .error (.unfinished .remark)
    | '[' :: _ => rawText rest
    | '-' :: _ => comment rest
    | 'D' :: _ => declaration rest
    | 'd' :: _ => declaration rest
    | c :: _ => .error (.unknownRemark c)
  | '/' :: rest =>
    .ok (.endTag (String.ofList (rest.takeWhile (· ≠ '>'))), (rest.dropWhile (· ≠ '>')).drop 1)
  | '?' :: rest =>
    (instruction ('?' :: rest.takeWhile (· ≠ '>'))).map (·, (rest.dropWhile (· ≠ '>')).drop 1)
  | cs =>
    match tagContent? none cs with
    | none => .error (.unfinished .tag)
    | some (content, rest) => (tag content).map (·, rest)

/-- The name in an end tag: its content without the blanks at the end, unless there is nothing
else. -/
def closingName (content : String) : String :=
  match Text.dropEndWhile isSpace content.toList with
  | [] => content
  | name => String.ofList name

/-- The names of the open elements after an event, innermost first. An end tag must close the
innermost one. -/
def nest : List String → Event → Except Flaw (List String)
  | names, .startTag name _ => .ok (name :: names)
  | [], .endTag content => .error (.endTag "" content)
  | open' :: names, .endTag content =>
    let name := closingName content
    if open' = name then .ok names else .error (.endTag open' name)
  | names, _ => .ok names

/-- The event for a run of character data, if there is any. -/
def characterData (run : List Char) : Except Flaw (List Event) :=
  if run = [] then .ok []
  else
    match unescape (Text.dropEndWhile isSpace run) with
    | .ok content => .ok [.text (String.ofList content)]
    | .error flaw => .error (.inReference flaw)

/-- The events of a text, given the names of the elements that are open. A flaw comes with the
number of bytes that were left when the piece that has it began. -/
def events : Nat → List String → List Char → Except (Flaw × Nat) (List Event)
  | 0, _, _ => .error (.unfinished .tag, 0)
  | fuel + 1, names, cs =>
    let cs := cs.dropWhile isSpace
    match characterData (cs.takeWhile (· ≠ '<')), cs.dropWhile (· ≠ '<') with
    | .error flaw, _ => .error (flaw, byteCount cs)
    | .ok data, _ :: rest@(_ :: _) => do
      let (event, after) ← (markup rest).mapError (·, byteCount rest)
      let names ← (nest names event).mapError (·, byteCount rest)
      let more ← events fuel names after
      return data ++ event :: more
    | .ok data, _ => .ok data

/-- The events of a text, or what is wrong with it and how many bytes stand before the piece that
is. A byte order mark at its head is not part of it. -/
def Event.ofText (text : String) : Except (Flaw × Nat) (List Event) :=
  let cs :=
    match text.toList with
    | '\uFEFF' :: rest => rest
    | cs => cs
  (events (cs.length + 1) [] cs).mapError (fun (flaw, left) ↦ (flaw, text.utf8ByteSize - left))

end Provenance.Markup

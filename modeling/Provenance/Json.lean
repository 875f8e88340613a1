import Provenance.Binary
import Provenance.Digits
import Provenance.Table

/-!
# JSON

Values and their text. One printer serves both layouts: `Layout.compact` writes no blanks and
`Layout.indented` writes every item on a line of its own. An object keeps its fields in the order in
which it was given them; `sortKeys` puts the fields of every object in the order of their names.
-/

namespace Provenance

/-- A JSON value. A number is an integer of at most 64 bits or a double with its sign, which zero
has too. -/
inductive Json where
  | null
  | bool (value : Bool)
  | integer (value : Int)
  | double (negative : Bool) (magnitude : Binary)
  | string (value : String)
  | array (items : List Json)
  | object (fields : List (String × Json))
  deriving Inhabited

namespace Json

/-- The value of a field, the last one if the name is repeated. -/
def field? (name : String) : Json → Option Json
  | object fields => (fields.reverse.find? (fun entry ↦ entry.1 = name)).map Prod.snd
  | _ => none

/-- Integers up to this one are exact in a 64-bit word. -/
def maxWord : Nat := 0xffffffffffffffff

mutual

/-- The value with the fields of every object in the order of their names, the last value of a
repeated name being kept. -/
def sortKeys : Json → Json
  | array items => array (sortItems items)
  | object fields => object (Table.ofList (sortFields fields))
  | value => value

/-- `sortKeys` on each value of a list. -/
def sortItems : List Json → List Json
  | [] => []
  | item :: rest => sortKeys item :: sortItems rest

/-- `sortKeys` on the value of each field. -/
def sortFields : List (String × Json) → List (String × Json)
  | [] => []
  | (name, value) :: rest => (name, sortKeys value) :: sortFields rest

end

/-- How the items of a container are set apart. -/
structure Layout where
  /-- The characters before an item, or before the closing bracket, at a given depth. -/
  gap : Nat → List Char
  /-- The characters between a field's name and its value. -/
  colon : List Char

namespace Layout

/-- No blanks. -/
def compact : Layout := ⟨fun _ ↦ [], [':']⟩

/-- A line for each item, with two blanks for each level. -/
def indented : Layout := ⟨fun depth ↦ '\n' :: List.replicate (2 * depth) ' ', [':', ' ']⟩

end Layout

/-- A character inside quotes: quotes, backslashes and control characters are escaped. -/
def escape (c : Char) : List Char :=
  match c with
  | '"' => ['\\', '"']
  | '\\' => ['\\', '\\']
  | '\n' => ['\\', 'n']
  | '\r' => ['\\', 'r']
  | '\t' => ['\\', 't']
  | '\x08' => ['\\', 'b']
  | '\x0c' => ['\\', 'f']
  | c =>
    if c.toNat < 0x20 then
      ['\\', 'u', '0', '0', Digits.hex (c.toNat / 16), Digits.hex c.toNat]
    else [c]

/-- A text in quotes. -/
def quote (text : String) : List Char :=
  '"' :: text.toList.flatMap escape ++ ['"']

/-- The shortest digits of a double, with a point for numbers from `1e-5` to `1e16` and an exponent,
which always has a sign, for all others. -/
def doubleChars (negative : Bool) (b : Binary) : List Char :=
  let (n, k) := b.shortest
  let digits := Nat.toDigits 10 n
  let point := (digits.length : Int) + k
  let magnitude :=
    if n = 0 then "0.0".toList
    else if 0 ≤ k ∧ point ≤ 16 then digits ++ List.replicate k.toNat '0' ++ ['.', '0']
    else if 0 < point ∧ point ≤ 16 then
      digits.take point.toNat ++ ['.'] ++ digits.drop point.toNat
    else if -5 < point ∧ point ≤ 0 then
      ['0', '.'] ++ List.replicate (-point).toNat '0' ++ digits
    else
      let mantissa := if digits.length = 1 then digits else digits.take 1 ++ ['.'] ++ digits.drop 1
      let sign := if point ≤ 0 then '-' else '+'
      mantissa ++ 'e' :: sign :: Nat.toDigits 10 (point - 1).natAbs
  if negative then '-' :: magnitude else magnitude

/-- The digits of an integer, with a minus sign where it is negative. -/
def integerChars (n : Int) : List Char :=
  if n < 0 then '-' :: Nat.toDigits 10 n.natAbs else Nat.toDigits 10 n.natAbs

mutual

/-- The text of a value whose items stand at the given depth. -/
def write (layout : Layout) (depth : Nat) : Json → List Char
  | null => ['n', 'u', 'l', 'l']
  | bool true => ['t', 'r', 'u', 'e']
  | bool false => ['f', 'a', 'l', 's', 'e']
  | integer n => integerChars n
  | double negative magnitude => doubleChars negative magnitude
  | string text => quote text
  | array [] => ['[', ']']
  | array (item :: rest) =>
    '[' :: layout.gap (depth + 1) ++ write layout (depth + 1) item ++
      writeItems layout (depth + 1) rest ++ layout.gap depth ++ [']']
  | object [] => ['\x7b', '\x7d']
  | object ((name, value) :: rest) =>
    '\x7b' :: layout.gap (depth + 1) ++ quote name ++ layout.colon ++
      write layout (depth + 1) value ++ writeFields layout (depth + 1) rest ++
      layout.gap depth ++ ['\x7d']

/-- The items of an array after the first. -/
def writeItems (layout : Layout) (depth : Nat) : List Json → List Char
  | [] => []
  | item :: rest =>
    ',' :: layout.gap depth ++ write layout depth item ++ writeItems layout depth rest

/-- The fields of an object after the first. -/
def writeFields (layout : Layout) (depth : Nat) : List (String × Json) → List Char
  | [] => []
  | (name, value) :: rest =>
    ',' :: layout.gap depth ++ quote name ++ layout.colon ++ write layout depth value ++
      writeFields layout depth rest

end

/-- The text of a value without blanks. -/
def compact (value : Json) : String :=
  String.ofList (write .compact 0 value)

/-- The text of a value with a line for each item and no line break at the end. -/
def indented (value : Json) : String :=
  String.ofList (write .indented 0 value)

/-- A list of texts. -/
def strings (texts : List String) : Json :=
  array (texts.map string)

/-- A value that may be absent, which is written as `null`. -/
def nullable {α : Type} (encode : α → Json) : Option α → Json
  | none => null
  | some value => encode value

/-- A natural number. -/
def nat (n : Nat) : Json :=
  integer n

end Json

end Provenance

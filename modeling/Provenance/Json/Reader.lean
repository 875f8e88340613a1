import Provenance.Json.Number

/-!
# Reading JSON

The reader accepts exactly one value with blanks around it. Containers nest at most `maxDepth` deep.
-/

namespace Provenance.Json

/-- How deep containers may nest. -/
def maxDepth : Nat := 127

/-- Drops the blanks that may stand between tokens. -/
def skipBlanks (cs : List Char) : List Char :=
  cs.dropWhile (fun c ↦ c = ' ' || c = '\n' || c = '\t' || c = '\r')

/-- Four hexadecimal digits and what follows them. -/
def unit? : List Char → Option (Nat × List Char)
  | a :: b :: c :: d :: rest => (Digits.toNat? 16 [a, b, c, d]).map (·, rest)
  | _ => none

/-- The character that an escape sequence stands for, after its backslash. A character outside the
basic plane is written as two units, and a unit that lacks its partner is refused. -/
def unescape? : List Char → Option (Char × List Char)
  | '"' :: rest => some ('"', rest)
  | '\\' :: rest => some ('\\', rest)
  | '/' :: rest => some ('/', rest)
  | 'b' :: rest => some ('\x08', rest)
  | 'f' :: rest => some ('\x0c', rest)
  | 'n' :: rest => some ('\n', rest)
  | 'r' :: rest => some ('\r', rest)
  | 't' :: rest => some ('\t', rest)
  | 'u' :: rest =>
    match unit? rest with
    | none => none
    | some (first, rest) =>
      if 0xD800 ≤ first ∧ first < 0xDC00 then
        match rest with
        | '\\' :: 'u' :: rest =>
          match unit? rest with
          | some (second, rest) =>
            if 0xDC00 ≤ second ∧ second < 0xE000 then
              some (Char.ofNat (0x10000 + (first - 0xD800) * 0x400 + (second - 0xDC00)), rest)
            else none
          | none => none
        | _ => none
      else if 0xDC00 ≤ first ∧ first < 0xE000 then none
      else some (Char.ofNat first, rest)
  | _ => none

/-- The characters up to the closing quote, newest first in `read`, and what follows the quote. -/
def readChars : Nat → List Char → List Char → Option (List Char × List Char)
  | 0, _, _ => none
  | fuel + 1, read, cs =>
    match cs with
    | [] => none
    | '"' :: rest => some (read.reverse, rest)
    | '\\' :: rest =>
      match unescape? rest with
      | none => none
      | some (c, rest) => readChars fuel (c :: read) rest
    | c :: rest => if c.toNat < 0x20 then none else readChars fuel (c :: read) rest

/-- A text whose opening quote has been read. -/
def readText (cs : List Char) : Option (String × List Char) :=
  (readChars (cs.length + 1) [] cs).map (fun (chars, rest) ↦ (String.ofList chars, rest))

mutual

/-- A value and what follows it. -/
def readValue (depth : Nat) : Nat → List Char → Option (Json × List Char)
  | 0, _ => none
  | fuel + 1, cs =>
    match skipBlanks cs with
    | 'n' :: 'u' :: 'l' :: 'l' :: rest => some (null, rest)
    | 't' :: 'r' :: 'u' :: 'e' :: rest => some (bool true, rest)
    | 'f' :: 'a' :: 'l' :: 's' :: 'e' :: rest => some (bool false, rest)
    | '"' :: rest => (readText rest).map (fun (text, rest) ↦ (string text, rest))
    | '-' :: rest => readNumber true rest
    | '[' :: rest =>
      if maxDepth ≤ depth then none
      else
        match skipBlanks rest with
        | ']' :: rest => some (array [], rest)
        | rest => (readItems (depth + 1) fuel rest).map (fun (items, rest) ↦ (array items, rest))
    | '\x7b' :: rest =>
      if maxDepth ≤ depth then none
      else
        match skipBlanks rest with
        | '\x7d' :: rest => some (object [], rest)
        | rest =>
          (readFields (depth + 1) fuel rest).map (fun (fields, rest) ↦ (object fields, rest))
    | rest => readNumber false rest

/-- The items of an array up to its closing bracket. -/
def readItems (depth : Nat) : Nat → List Char → Option (List Json × List Char)
  | 0, _ => none
  | fuel + 1, cs =>
    match readValue depth fuel cs with
    | none => none
    | some (item, rest) =>
      match skipBlanks rest with
      | ',' :: rest => (readItems depth fuel rest).map (fun (items, rest) ↦ (item :: items, rest))
      | ']' :: rest => some ([item], rest)
      | _ => none

/-- The fields of an object up to its closing bracket. -/
def readFields (depth : Nat) : Nat → List Char → Option (List (String × Json) × List Char)
  | 0, _ => none
  | fuel + 1, cs =>
    match skipBlanks cs with
    | '"' :: rest =>
      match readText rest with
      | none => none
      | some (name, rest) =>
        match skipBlanks rest with
        | ':' :: rest =>
          match readValue depth fuel rest with
          | none => none
          | some (value, rest) =>
            match skipBlanks rest with
            | ',' :: rest =>
              (readFields depth fuel rest).map
                (fun (fields, rest) ↦ ((name, value) :: fields, rest))
            | '\x7d' :: rest => some ([(name, value)], rest)
            | _ => none
        | _ => none
    | _ => none

end

/-- The value that a text holds. -/
def read? (text : String) : Option Json :=
  let cs := text.toList
  match readValue 0 (2 * cs.length + 1) cs with
  | some (value, rest) => if (skipBlanks rest).isEmpty then some value else none
  | none => none

end Provenance.Json

import Provenance.Digits
import Provenance.Toml.Layout

/-!
# Strings and keys in TOML

A string stands in a line or spans several; between double quotes a backslash begins an escape,
between single quotes it stands for itself. A key is a list of names with points between them, each
written bare or as a string in a line.
-/

namespace Provenance.Toml

/-! ## Strings -/

/-- A character written by the given number of hexadecimal digits. -/
def codePoint? (size : Nat) (cs : List Char) : Read Char :=
  let digits := cs.take size
  if digits.length < size then none
  else
    match Digits.toNat? 16 digits with
    | none => none
    | some code => if code.isValidChar then some (Char.ofNat code, cs.drop size) else none

/-- The character of an escape sequence, after its backslash. -/
def escaped? : List Char → Read Char
  | 'b' :: rest => some ('\x08', rest)
  | 't' :: rest => some ('\t', rest)
  | 'n' :: rest => some ('\n', rest)
  | 'f' :: rest => some ('\x0c', rest)
  | 'r' :: rest => some ('\r', rest)
  | '"' :: rest => some ('"', rest)
  | '\\' :: rest => some ('\\', rest)
  | 'u' :: rest => codePoint? 4 rest
  | 'U' :: rest => codePoint? 8 rest
  | _ => none

/-- A string on one line up to its closing quote. Escapes are read between double quotes only. -/
def lineString? (q : Char) : Nat → List Char → Read (List Char)
  | 0, _ => none
  | fuel + 1, cs =>
    match cs with
    | [] => none
    | c :: rest =>
      if c = q then some ([], rest)
      else if c = '\\' ∧ q = '"' then
        match escaped? rest with
        | none => none
        | some (c, rest) => (lineString? q fuel rest).map (fun (text, rest) ↦ (c :: text, rest))
      else if isInLine c then
        (lineString? q fuel rest).map (fun (text, rest) ↦ (c :: text, rest))
      else none

/-- The rest after a backslash at the end of a line, the line break, and all blanks and line breaks
that follow. -/
def continuation? (cs : List Char) : Option (List Char) :=
  match lineBreak? (skipBlanks cs) with
  | none => none
  | some rest =>
    let isSkipped := fun c ↦ isBlank c || c = '\n' || c = '\r'
    let rest' := rest.dropWhile isSkipped
    let skipped := rest.take (rest.length - rest'.length)
    if bareReturn skipped then none else some rest'
where
  /-- Whether a carriage return stands alone. -/
  bareReturn : List Char → Bool
    | '\r' :: '\n' :: rest => bareReturn rest
    | '\r' :: _ => true
    | _ :: rest => bareReturn rest
    | [] => false

/-- A string over several lines up to its three closing quotes. Up to two quotes may stand before
these, and belong to the string. -/
def blockString? (q : Char) : Nat → List Char → Read (List Char)
  | 0, _ => none
  | fuel + 1, cs =>
    let more (c : Char) (rest : List Char) : Read (List Char) :=
      (blockString? q fuel rest).map (fun (text, rest) ↦ (c :: text, rest))
    let quotes := (cs.takeWhile (· = q)).length
    if 3 ≤ quotes then
      let inside := min (quotes - 3) 2
      some (List.replicate inside q, cs.drop (inside + 3))
    else
      match cs with
      | [] => none
      | '\n' :: rest => more '\n' rest
      | '\r' :: '\n' :: rest => more '\n' rest
      | c :: rest =>
        if c = '\\' ∧ q = '"' then
          match continuation? rest with
          | some rest => blockString? q fuel rest
          | none =>
            match escaped? rest with
            | none => none
            | some (c, rest) => more c rest
        else if isInLine c then more c rest
        else none

/-- The rest after a line break at the head of a text, if there is one. -/
def dropLineBreak (cs : List Char) : List Char :=
  (lineBreak? cs).getD cs

/-- A string of any kind. -/
def string? (cs : List Char) : Read String :=
  let fuel := cs.length
  let read? : Read (List Char) :=
    match cs with
    | '"' :: '"' :: '"' :: rest => blockString? '"' fuel (dropLineBreak rest)
    | '\'' :: '\'' :: '\'' :: rest => blockString? '\'' fuel (dropLineBreak rest)
    | '"' :: rest => lineString? '"' fuel rest
    | '\'' :: rest => lineString? '\'' fuel rest
    | _ => none
  read?.map (fun (text, rest) ↦ (String.ofList text, rest))

/-! ## Keys -/

/-- One part of a key. -/
def keyPart? (cs : List Char) : Read String :=
  match cs with
  | '"' :: rest => (lineString? '"' cs.length rest).map (fun (k, rest) ↦ (String.ofList k, rest))
  | '\'' :: rest => (lineString? '\'' cs.length rest).map (fun (k, rest) ↦ (String.ofList k, rest))
  | _ =>
    match cs.takeWhile isBare with
    | [] => none
    | name => some (String.ofList name, cs.dropWhile isBare)

/-- The parts of a key, which points separate, with the blanks around them. -/
def keyParts? : Nat → List Char → Read (List String)
  | 0, _ => none
  | fuel + 1, cs =>
    match keyPart? (skipBlanks cs) with
    | none => none
    | some (part, rest) =>
      match skipBlanks rest with
      | '.' :: rest => (keyParts? fuel rest).map (fun (parts, rest) ↦ (part :: parts, rest))
      | rest => some ([part], rest)

/-- How deep values and keys may nest. -/
def maxNesting : Nat := 79

/-- A key. -/
def key? (cs : List Char) : Read (List String) :=
  (keyParts? (cs.length + 1) cs).filter (fun (parts, _) ↦ parts.length ≤ maxNesting)

end Provenance.Toml

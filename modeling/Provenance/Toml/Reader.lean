import Provenance.Toml
import Provenance.Toml.Quoted
import Provenance.Toml.Word

/-!
# Reading TOML

A text is a sequence of statements, each on lines of its own: `key = value` and the headers
`[table]` and `[[list]]`. The reader takes the statements one by one and builds up the table they
describe.
-/

namespace Provenance.Toml

/-! ## Values -/

mutual

/-- A value that stands inside `depth` others. -/
def readValue (depth : Nat) : Nat → List Char → Read Toml
  | 0, _ => none
  | fuel + 1, cs =>
    match cs with
    | '"' :: _ => (string? cs).map (fun (text, rest) ↦ (string text, rest))
    | '\'' :: _ => (string? cs).map (fun (text, rest) ↦ (string text, rest))
    | '[' :: rest =>
      if maxNesting ≤ depth then none
      else (readItems (depth + 1) fuel rest).map (fun (items, rest) ↦ (array items, rest))
    | '\x7b' :: rest =>
      if maxNesting ≤ depth then none
      else
        match skipBlanks rest with
        | '\x7d' :: rest => some (inlineTable [], rest)
        | rest =>
          match readAssignments (depth + 1) fuel rest with
          | none => none
          | some (assignments, rest) =>
            (ofAssignments assignments).map (fun entries ↦ (inlineTable entries, rest))
    | _ => readWord cs

/-- The items of an array up to its closing bracket. -/
def readItems (depth : Nat) : Nat → List Char → Read (List Toml)
  | 0, _ => none
  | fuel + 1, cs =>
    match skipLines (cs.length + 1) cs with
    | none => none
    | some (']' :: rest) => some ([], rest)
    | some cs =>
      match readValue depth fuel cs with
      | none => none
      | some (item, rest) =>
        match skipLines (rest.length + 1) rest with
        | some (',' :: rest) =>
          (readItems depth fuel rest).map (fun (items, rest) ↦ (item :: items, rest))
        | some (']' :: rest) => some ([item], rest)
        | _ => none

/-- The assignments of an inline table up to its closing brace. -/
def readAssignments (depth : Nat) : Nat → List Char → Read (List (List String × Toml))
  | 0, _ => none
  | fuel + 1, cs =>
    match key? cs with
    | some (keys, '=' :: rest) =>
      match readValue depth fuel (skipBlanks rest) with
      | none => none
      | some (value, rest) =>
        match skipBlanks rest with
        | ',' :: rest =>
          (readAssignments depth fuel rest).map (fun (more, rest) ↦ ((keys, value) :: more, rest))
        | '\x7d' :: rest => some ([(keys, value)], rest)
        | _ => none
    | _ => none

end

/-! ## Statements -/

/-- The table that the last header opened, and all entries so far. -/
structure Draft where
  path : List String
  entries : Entries

namespace Draft

/-- A key and its value. -/
def assignment? (d : Draft) (cs : List Char) : Read Draft :=
  match key? cs with
  | some (keys, '=' :: rest) =>
    let rest := skipBlanks rest
    match readValue 0 (2 * rest.length + 1) rest with
    | none => none
    | some (value, rest) =>
      match assignAt d.path keys value d.entries, endOfLine? rest with
      | some entries, some rest => some (⟨d.path, entries⟩, rest)
      | _, _ => none
  | _ => none

/-- The header of a table, after its opening bracket. -/
def tableHeader? (d : Draft) (cs : List Char) : Read Draft :=
  match key? cs with
  | some (path, ']' :: rest) =>
    match openTable path d.entries, endOfLine? rest with
    | some entries, some rest => some (⟨path, entries⟩, rest)
    | _, _ => none
  | _ => none

/-- The header of a table in a list, after its opening brackets. -/
def listHeader? (d : Draft) (cs : List Char) : Read Draft :=
  match key? cs with
  | some (path, ']' :: ']' :: rest) =>
    match appendTable path d.entries, endOfLine? rest with
    | some entries, some rest => some (⟨path, entries⟩, rest)
    | _, _ => none
  | _ => none

/-- The draft after all statements of a text. -/
def readAll : Nat → Draft → List Char → Option Draft
  | 0, _, _ => none
  | fuel + 1, d, cs =>
    match skipBlanks cs with
    | [] => some d
    | '[' :: '[' :: rest => (d.listHeader? rest).bind (fun (d, rest) ↦ readAll fuel d rest)
    | '[' :: rest => (d.tableHeader? rest).bind (fun (d, rest) ↦ readAll fuel d rest)
    | c :: rest =>
      if c = '#' ∨ c = '\n' ∨ c = '\r' then
        (endOfLine? (c :: rest)).bind (readAll fuel d)
      else (d.assignment? (c :: rest)).bind (fun (d, rest) ↦ readAll fuel d rest)

end Draft

/-- The entries that a text describes. A byte order mark at its head is not part of it. -/
def read? (text : String) : Option Entries :=
  let cs :=
    match text.toList with
    | '\uFEFF' :: rest => rest
    | cs => cs
  (Draft.readAll (cs.length + 1) ⟨[], []⟩ cs).map Draft.entries

end Provenance.Toml

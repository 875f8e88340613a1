import Provenance.Table

/-!
# TOML

The value that a configuration text describes, and the rules by which its statements build it up. A
table comes into being by a header of its own, as a step on the way to another header, or through a
dotted key; the three may not be mixed, and no key is given a value twice.

Of a number with a fraction and of a point in time only the kind is kept, since no setting is one.
-/

namespace Provenance

/-- How a table came into being. -/
inductive TableOrigin where
  /-- By a header of its own. -/
  | header
  /-- On the way to the header of a table inside it. -/
  | onTheWay
  /-- By a dotted key. -/
  | dottedKey
  deriving DecidableEq, Repr

/-- A value. What is written in one piece is closed: an `array` or an `inlineTable` gets no further
entries, a `table` or a `tableList` may. -/
inductive Toml where
  | string (value : String)
  | integer (value : Int)
  | boolean (value : Bool)
  | decimal
  | moment
  | array (items : List Toml)
  | inlineTable (entries : List (String × Toml))
  | table (origin : TableOrigin) (entries : List (String × Toml))
  | tableList (tables : List (List (String × Toml)))
  deriving Inhabited

namespace Toml

/-- The entries of a table. -/
abbrev Entries := List (String × Toml)

/-- Changes a table that is reached by a list of keys, given how it came into being, and makes those
that are missing on the way. The last table of a list stands for the list. -/
def descend (missing : TableOrigin) (change : TableOrigin → Entries → Option Entries) :
    List String → TableOrigin → Entries → Option Entries
  | [], origin, entries => change origin entries
  | key :: keys, _, entries =>
    match Table.find? key entries with
    | none =>
      (descend missing change keys missing []).map (fun inner ↦
        Table.insert key (table missing inner) entries)
    | some (table origin inner) =>
      if missing = .dottedKey ∧ origin = .header then none
      else
        (descend missing change keys origin inner).map (fun inner ↦
          Table.insert key (table origin inner) entries)
    | some (tableList tables) =>
      match tables.getLast? with
      | none => none
      | some last =>
        (descend missing change keys .header last).map (fun last ↦
          Table.insert key (tableList (tables.dropLast ++ [last])) entries)
    | some _ => none

/-- Opens the table of a header. -/
def openTable (path : List String) (entries : Entries) : Option Entries :=
  match path.getLast? with
  | none => none
  | some key =>
    descend .onTheWay (fun _ inner ↦
      match Table.find? key inner with
      | none => some (Table.insert key (table .header []) inner)
      | some (table .onTheWay old) => some (Table.insert key (table .header old) inner)
      | some _ => none) path.dropLast .header entries

/-- Adds a table to the list of a header. -/
def appendTable (path : List String) (entries : Entries) : Option Entries :=
  match path.getLast? with
  | none => none
  | some key =>
    descend .onTheWay (fun _ inner ↦
      match Table.find? key inner with
      | none => some (Table.insert key (tableList [[]]) inner)
      | some (tableList tables) => some (Table.insert key (tableList (tables ++ [[]])) inner)
      | some _ => none) path.dropLast .header entries

/-- Gives a key, which may be dotted, its value in a table. -/
def assign (keys : List String) (value : Toml) (origin : TableOrigin) (entries : Entries) :
    Option Entries :=
  match keys.getLast? with
  | none => none
  | some key =>
    descend .dottedKey (fun origin inner ↦
      if origin = .dottedKey ↔ keys.length = 1 then none
      else
        match Table.find? key inner with
        | none => some (Table.insert key value inner)
        | some _ => none) keys.dropLast origin entries

/-- Gives a key its value in the table that the last header opened. -/
def assignAt (path keys : List String) (value : Toml) (entries : Entries) : Option Entries :=
  descend .onTheWay (assign keys value) path .header entries

/-- The entries of a closed table. -/
def ofAssignments (assignments : List (List String × Toml)) : Option Entries :=
  assignments.foldlM (fun entries (keys, value) ↦ assign keys value .header entries) []

/-- The entries of any table. -/
def entries? : Toml → Option Entries
  | inlineTable entries => some entries
  | table _ entries => some entries
  | _ => none

/-- The items of any list. -/
def items? : Toml → Option (List Toml)
  | array items => some items
  | tableList tables => some (tables.map (table .header))
  | _ => none

end Toml

end Provenance

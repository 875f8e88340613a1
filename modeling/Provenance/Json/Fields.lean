import Provenance.Json

/-!
# Fields

How records are read from JSON objects. A field is required, or optional, in which case `null` is as
good as nothing, or it has a default, in which case it may be left out but not be `null`. No field
that is asked for may be repeated, and fields that are not asked for are ignored. In place of an
object there may be the list of the fields' values.
-/

namespace Provenance.Json

def text? : Json → Option String
  | string value => some value
  | _ => none

/-- A word out of a fixed choice: a text, or the name of the only field of an object, which is
`null`. -/
def choice? : Json → Option String
  | string value => some value
  | object [(name, null)] => some name
  | _ => none

def flag? : Json → Option Bool
  | bool value => some value
  | _ => none

def items? : Json → Option (List Json)
  | array items => some items
  | _ => none

/-- A natural number up to a limit. -/
def natUpTo? (limit : Nat) : Json → Option Nat
  | integer n => if 0 ≤ n ∧ n ≤ limit then some n.toNat else none
  | _ => none

/-- A natural number that fits 64 bits. -/
def word? : Json → Option Nat :=
  natUpTo? maxWord

/-- A natural number that fits 32 bits. -/
def halfWord? : Json → Option Nat :=
  natUpTo? 0xffffffff

/-- A list of things. -/
def list? {α : Type} (decode : Json → Option α) (value : Json) : Option (List α) :=
  value.items?.bind (fun items ↦ items.mapM decode)

/-- A list of texts. -/
def texts? : Json → Option (List String) :=
  list? text?

/-- Things by name. -/
def table? {α : Type} (decode : Json → Option α) : Json → Option (Table α)
  | object fields =>
    (fields.mapM (fun entry : String × Json ↦ (decode entry.2).map (entry.1, ·))).map Table.ofList
  | _ => none

/-- `null`, or a thing. -/
def orNull? {α : Type} (decode : Json → Option α) : Json → Option (Option α)
  | null => some none
  | value => (decode value).map some

/-- A field that must be there. -/
def required? {α : Type} (decode : Json → Option α) (name : String) (record : Json) : Option α :=
  (record.field? name).bind decode

/-- A field that may be left out or `null`. -/
def optional? {α : Type} (decode : Json → Option α) (name : String) (record : Json) :
    Option (Option α) :=
  match record.field? name with
  | none => some none
  | some value => orNull? decode value

/-- A field that may be left out. -/
def defaulted? {α : Type} (decode : Json → Option α) (fallback : α) (name : String)
    (record : Json) : Option α :=
  match record.field? name with
  | none => some fallback
  | some value => decode value

/-- Whether several fields have the same name. -/
def repeats (name : String) (fields : List (String × Json)) : Bool :=
  1 < (fields.filter (fun field ↦ field.1 = name)).length

/-- A record by its fields, none of whose `names` is repeated. It may also be written as the list of
its values in the order of `names`, of which the first `needed` must be there. -/
def record? (names : List String) (needed : Nat) : Json → Option Json
  | object fields =>
    if names.any (fun name ↦ repeats name fields) then none else some (object fields)
  | array items =>
    if needed ≤ items.length ∧ items.length ≤ names.length then some (object (names.zip items))
    else none
  | _ => none

/-- A field that is written only if there is a value. -/
def present (name : String) : Option Json → List (String × Json)
  | none => []
  | some value => [(name, value)]

end Provenance.Json

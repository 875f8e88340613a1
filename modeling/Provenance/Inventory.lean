import Provenance.Document.Fingerprint
import Provenance.Expansion.Resolver

/-!
# Inventories

Every macro that the workflows of a run refer to, by name: whether its file was found, its anchors,
the fingerprint of its expansion and the workflows that use it.
-/

namespace Provenance

/-- What became of a macro. -/
inductive Status where
  | found
  | missing
  | skipped
  | malformed
  | anchorMismatch
  | cyclic
  deriving DecidableEq, Repr, Inhabited

namespace Status

def all : List Status := [found, missing, skipped, malformed, anchorMismatch, cyclic]

def name : Status → String
  | found => "found"
  | missing => "missing"
  | skipped => "skipped"
  | malformed => "malformed"
  | anchorMismatch => "port_mismatch"
  | cyclic => "cyclic"

/-- The status with a given name. -/
def ofName? (text : String) : Option Status :=
  all.find? (fun status ↦ status.name = text)

/-- The status of a macro of which a call could not be replaced. -/
def ofGap : Gap → Status
  | .missing => missing
  | .skipped => skipped
  | .malformed _ => malformed
  | .anchorMismatch _ _ => anchorMismatch
  | .cyclic _ => cyclic

end Status

/-- A macro of the inventory. -/
structure MacroRecord where
  name : String
  status : Status
  path : Option Path
  inputs : Nat
  outputs : Nat
  fingerprint : Option String
  /-- The workflows that use the macro, by name. -/
  usedBy : Table Unit
  deriving Inhabited

namespace MacroRecord

/-- A macro of which nothing but its status is known. -/
def bare (name : String) (status : Status) : MacroRecord :=
  ⟨name, status, none, 0, 0, none, []⟩

/-- The names of the workflows that use the macro, in order. -/
def users (r : MacroRecord) : List String :=
  Table.keys r.usedBy

/-- Adds a workflow to the users. -/
def addUser (workflow : String) (r : MacroRecord) : MacroRecord :=
  { r with usedBy := Table.insert workflow () r.usedBy }

/-- Whether a call of the macro was replaced somewhere. -/
def isFound (r : MacroRecord) : Bool :=
  r.status = .found

/-- Whether more than one workflow uses the macro. -/
def isShared (r : MacroRecord) : Bool :=
  1 < r.users.length

end MacroRecord

/-- The macros of a run by name. -/
structure Inventory where
  macros : Table MacroRecord
  deriving Inhabited

namespace Inventory

def empty : Inventory := ⟨[]⟩

/-- Numbers of macros. -/
structure Summary where
  total : Nat
  found : Nat
  missing : Nat
  shared : Nat
  deriving DecidableEq, Repr

def get? (i : Inventory) (name : String) : Option MacroRecord :=
  Table.find? name i.macros

/-- The macros in order of their names. -/
def records (i : Inventory) : List MacroRecord :=
  i.macros.map Prod.snd

/-- Changes the record of a macro, starting from a bare one if there is none. -/
def update (i : Inventory) (name : String) (status : Status) (f : MacroRecord → MacroRecord) :
    Inventory :=
  ⟨Table.insert name (f ((i.get? name).getD (.bare name status))) i.macros⟩

/-- The fingerprint of the expansion of a file. -/
def fingerprintOf? (context : Context) (path : Path) : Option String :=
  match context.expansion? path with
  | some (.expanded d) => some d.document.fingerprint
  | _ => none

/-- Records that a workflow uses a macro. The fingerprint of a macro, once known, is kept. -/
def recordUse (workflow : String) (context : Context) (i : Inventory) (use : Use) : Inventory :=
  i.update use.reference.name .found (fun r ↦
    MacroRecord.addUser workflow { r with
      status := .found
      path := some use.path
      inputs := use.inputs
      outputs := use.outputs
      fingerprint := r.fingerprint.or (fingerprintOf? context use.path) })

/-- Records that a call in a workflow could not be replaced. A macro that was found stays so. -/
def recordIssue (workflow : String) (i : Inventory) (issue : Issue) : Inventory :=
  let status := Status.ofGap issue.gap
  i.update issue.reference.name status (fun r ↦
    MacroRecord.addUser workflow { r with status := if r.isFound then .found else status })

/-- Records the macros that came up when a workflow was expanded. -/
def record (i : Inventory) (workflow : String) (o : Outcome) (context : Context) : Inventory :=
  o.issues.foldl (recordIssue workflow) (o.uses.foldl (recordUse workflow context) i)

/-- The macros that more than one workflow uses. -/
def shared (i : Inventory) : List MacroRecord :=
  i.records.filter MacroRecord.isShared

/-- The macros of which no call was replaced. -/
def missing (i : Inventory) : List MacroRecord :=
  i.records.filter (fun r ↦ !r.isFound)

def summary (i : Inventory) : Summary :=
  ⟨i.records.length, i.records.length - i.missing.length, i.missing.length, i.shared.length⟩

def isEmpty (i : Inventory) : Bool :=
  i.macros.isEmpty

end Inventory

end Provenance

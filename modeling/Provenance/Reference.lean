import Provenance.Path

/-!
# References

A node may stand for a workflow defined in a file of its own, a macro. `Reference` is what the
calling workflow says about that file, and `Gap` is why the call could not be replaced by the
macro's content.
-/

namespace Provenance

/-- What a workflow says about a macro that it calls. -/
structure Reference where
  name : String
  declaredPath : Option String
  deriving DecidableEq, Repr, Inhabited

namespace Reference

/-- The extension of macro files. -/
def fileExtension : String := ".yxmc"

/-- The last component of a declared path, in which either slash separates. -/
def lastComponent (declared : String) : String :=
  String.ofList (Text.afterLast (fun c ↦ c = '/' || c = '\\') declared.toList)

/-- A reference by name only. -/
def named (name : String) : Reference :=
  ⟨name, none⟩

/-- A reference by path, named after the file without its extension. -/
def ofPath (declared : String) : Reference :=
  ⟨(Path.splitName (lastComponent declared)).1, some declared⟩

/-- The file to look for. -/
def fileName (r : Reference) : String :=
  match r.declaredPath with
  | some declared => lastComponent declared
  | none => r.name ++ fileExtension

/-- The name, with the declared path where that differs from it. -/
def display (r : Reference) : String :=
  match r.declaredPath with
  | some declared => if declared = r.name then r.name else s!"{r.name} ({declared})"
  | none => r.name

/-- The declared path as a path, in which either slash separates. -/
def declared? (r : Reference) : Option Path :=
  r.declaredPath.map (fun declared ↦
    ⟨String.ofList (declared.toList.map (fun c ↦ if c = '\\' then '/' else c))⟩)

/-- References in order of name, then of declared path, one without a path first. -/
def le (r s : Reference) : Bool :=
  if r.name = s.name then
    match r.declaredPath, s.declaredPath with
    | none, _ => true
    | some _, none => false
    | some a, some b => a ≤ b
  else r.name ≤ s.name

end Reference

/-- How many anchors a node has. -/
structure AnchorCount where
  inputs : Nat
  outputs : Nat
  deriving DecidableEq, Repr

/-- Why a call is left as it is. -/
inductive Gap where
  | missing
  | skipped
  | malformed (message : String)
  | anchorMismatch (expected found : AnchorCount)
  | cyclic (chain : List String)
  deriving DecidableEq, Repr

namespace Gap

def message : Gap → String
  | missing => "not found in any search location"
  | skipped => "skipped by operator"
  | malformed message => s!"failed to parse: {message}"
  | anchorMismatch expected found =>
    s!"reference has {expected.inputs} input / {expected.outputs} output ports, definition has " ++
      s!"{found.inputs} / {found.outputs}"
  | cyclic chain => "cyclic reference: " ++ " -> ".intercalate chain

/-- A cycle keeps a whole workflow from being built; any other gap only leaves it incomplete. -/
def isFatal : Gap → Bool
  | cyclic _ => true
  | _ => false

end Gap

end Provenance

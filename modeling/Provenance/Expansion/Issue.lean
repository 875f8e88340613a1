import Provenance.Diagnostic
import Provenance.Reference

/-!
# Issues

Each call that could not be replaced gives one issue. An issue names the placeholder in the document
that is being expanded: when a macro is spliced in, the issues inside it are relocated along with
its nodes.
-/

namespace Provenance

/-- A call that could not be replaced. -/
structure Issue where
  reference : Reference
  /-- The document that holds the placeholder. -/
  document : Path
  /-- The placeholder in that document. -/
  node : String
  /-- Where the call was written. -/
  origin : String
  gap : Gap
  deriving Repr

namespace Issue

/-- The code of an issue, by its cause. -/
def code (i : Issue) : Code :=
  match i.gap with
  | .missing => .macroMissing
  | .skipped => .macroSkipped
  | .malformed _ => .macroMalformed
  | .anchorMismatch _ _ => .macroAnchorMismatch
  | .cyclic _ => .macroCyclic

/-- Whether the issue keeps the whole document from being built. -/
def isFatal (i : Issue) : Bool :=
  i.gap.isFatal

/-- The issue as it is seen from the document that a macro was spliced into. -/
def relocate (callSite : String) (document : Path) (i : Issue) : Issue :=
  { i with document := document, node := callSite ++ "/" ++ i.node }

/-- A number of anchors in words. -/
def anchorText (count : AnchorCount) : String :=
  s!"{count.inputs} inputs, {count.outputs} outputs"

/-- The diagnostic for an issue. -/
def diagnostic (i : Issue) : Diagnostic :=
  let message := s!"Macro '{i.reference.display}' referenced at {i.origin}: {i.gap.message}"
  let base := (Diagnostic.ofCode i.code message).atPlace i.document.text (some i.node)
  match i.gap with
  | .anchorMismatch expected found =>
    { base with expected := some (anchorText expected), actual := some (anchorText found) }
  | _ => base

end Issue

end Provenance

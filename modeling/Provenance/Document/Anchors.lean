import Provenance.Digits
import Provenance.Document

/-!
# Anchors

Anchors are not declared in a file: a node has those that its connections use. They are listed by
name, a number at the end of a name being compared as a number, so that `Input2` comes before
`Input10`. Calls bind to a macro's boundary nodes by position in this list.
-/

namespace Provenance

namespace Anchor

/-- Numbers at the end of a name count up to this one. -/
def maxNumber : Nat := 0xffffffffffffffff

/-- The name before the digits at its end. -/
def stem (anchor : String) : String :=
  String.ofList (Text.dropEndWhile Char.isDigit anchor.toList)

/-- The digits at the end of the name. -/
def digits (anchor : String) : List Char :=
  Text.afterLast (fun c ↦ !c.isDigit) anchor.toList

/-- The number at the end of the name; zero if there is none or it is too large. -/
def number (anchor : String) : Nat :=
  let n := Digits.toNat 10 (digits anchor)
  if n ≤ maxNumber then n else 0

/-- The order of anchors. -/
def le (p q : String) : Bool :=
  if stem p = stem q then number p ≤ number q else stem p < stem q

/-- Adds at the end of a list the elements of another that it lacks, each once. -/
def addMissing (declared used : List String) : List String :=
  used.foldl (fun known anchor ↦ if anchor ∈ known then known else known ++ [anchor]) declared

/-- The declared anchors and the used ones, in order. -/
def complete (declared used : List String) : List String :=
  (addMissing declared used).mergeSort le

end Anchor

namespace Document

/-- The node with all anchors that connections use. -/
def withAnchors (d : Document) (n : Node) : Node :=
  { n with
    inputAnchors :=
      Anchor.complete n.inputAnchors ((d.incoming n.id).map (fun c ↦ c.target.anchor))
    outputAnchors :=
      Anchor.complete n.outputAnchors ((d.outgoing n.id).map (fun c ↦ c.source.anchor)) }

/-- Gives every node all anchors that connections use. -/
def deriveAnchors (d : Document) : Document :=
  { d with nodes := d.nodes.map d.withAnchors }

end Document

end Provenance

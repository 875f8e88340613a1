import Provenance.Document.Splice
import Provenance.Expansion.Context

/-!
# Outcomes

What has become of a document whose calls are replaced one after the other. A call that cannot be
replaced is marked in the document and listed as an issue; nothing makes the whole fail.
-/

namespace Provenance

/-- A document with the calls replaced so far, the calls that could not be, and the macros used. -/
structure Outcome where
  document : Document
  issues : List Issue
  uses : List Use
  deriving Inhabited

namespace Outcome

/-- A document in which no call has been looked into. -/
def start (d : Document) : Outcome := ⟨d, [], []⟩

/-- Whether every call was replaced. -/
def isComplete (o : Outcome) : Bool :=
  o.issues.isEmpty

/-- Whether a call leads back to a file that it is part of. -/
def isFatal (o : Outcome) : Bool :=
  o.issues.any Issue.isFatal

/-- Where the node with an identifier was written. -/
def originOf (d : Document) (id : String) : String :=
  match d.node? id with
  | some n => n.origin
  | none => d.name ++ "#" ++ id

/-- Leaves a call as it is. -/
def mark (o : Outcome) (id : String) (reference : Reference) (gap : Gap) : Outcome :=
  { o with
    document := o.document.setGap id (some gap)
    issues := o.issues ++ [⟨reference, o.document.path, id, originOf o.document id, gap⟩] }

/-- The definition that the outcome of a macro's file is. -/
def definition (o : Outcome) (file : Path) : Definition :=
  ⟨file, o.document, o.issues, o.uses⟩

/-- Replaces a call by a macro, if their anchors match. -/
def expand (o : Outcome) (id : String) (reference : Reference) (d : Definition) : Outcome :=
  match o.document.splice id d.document with
  | .error gap => o.mark id reference gap
  | .ok document =>
    let count := d.document.anchorCount
    { document := document
      issues := o.issues ++ d.issues.map (Issue.relocate id o.document.path)
      uses := o.uses ++ ⟨reference, d.path, count.inputs, count.outputs⟩ :: d.uses }

/-- Replaces or leaves a call, as its macro's file turned out. -/
def apply (o : Outcome) (id : String) (reference : Reference) : Expansion → Outcome
  | .expanded d => o.expand id reference d
  | .failed gap => o.mark id reference gap

@[simp]
theorem path_mark (o : Outcome) (id : String) (reference : Reference) (gap : Gap) :
    (o.mark id reference gap).document.path = o.document.path := rfl

@[simp]
theorem path_expand (o : Outcome) (id : String) (reference : Reference) (d : Definition) :
    (o.expand id reference d).document.path = o.document.path := by
  unfold expand
  split
  · rfl
  · rename_i h
    exact Document.path_splice h

@[simp]
theorem path_apply (o : Outcome) (id : String) (reference : Reference) (e : Expansion) :
    (o.apply id reference e).document.path = o.document.path := by
  cases e <;> simp [apply]

end Outcome

end Provenance

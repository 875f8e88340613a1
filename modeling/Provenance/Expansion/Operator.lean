import Provenance.Reference

/-!
# Operators

When the file of a macro is not found, an operator may be asked where it is. An operator is a state
machine that answers one request at a time; one that is not interactive is never asked.
-/

namespace Provenance

/-- A question about a macro whose file was not found. -/
structure Request where
  reference : Reference
  /-- The document that calls the macro. -/
  document : Path
  /-- The search folders at this time. -/
  searchFolders : List Path
  /-- The number of the question about this macro, from one. -/
  attempt : Nat
  deriving Repr

/-- What an operator may say. -/
inductive Answer where
  | file (path : Path)
  | folder (path : Path)
  | skip
  | skipAll
  | decline
  deriving Repr

/-- Someone to ask, whose state is a `σ`. -/
structure Operator (σ : Type) where
  isInteractive : Bool
  answer : Request → σ → Answer × σ

namespace Operator

/-- Nobody to ask. -/
def absent : Operator Unit := ⟨false, fun _ s ↦ (.decline, s)⟩

/-- An operator behind a prompt. A prompt that gives no answer skips the macro. -/
def ofPrompt {σ : Type} (ask : Request → σ → Option Answer × σ) : Operator σ where
  isInteractive := true
  answer request s :=
    let (answer, s) := ask request s
    (answer.getD .skip, s)

/-- The prompt that gives some answers in turn, and none once they are used up. -/
def script (_ : Request) : List (Option Answer) → Option Answer × List (Option Answer)
  | [] => (none, [])
  | answer :: rest => (answer, rest)

/-- The same operator, with a record of all requests. -/
def recorded {σ : Type} (operator : Operator σ) : Operator (List Request × σ) where
  isInteractive := operator.isInteractive
  answer := fun request (requests, s) ↦
    let (answer, s) := operator.answer request s
    (answer, (requests ++ [request], s))

end Operator

end Provenance

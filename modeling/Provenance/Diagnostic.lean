/-!
# Diagnostics

What a run has to say about its workflows: a stable code, a severity and a message, with the place
it is about and the stages that are affected.
-/

namespace Provenance

/-- How serious a diagnostic is, least first. -/
inductive Severity where
  | info
  | warn
  | error
  deriving DecidableEq, Repr, Inhabited

namespace Severity

def all : List Severity := [info, warn, error]

def name : Severity → String
  | info => "info"
  | warn => "warn"
  | error => "error"

/-- The severity with a given name. -/
def ofName? (text : String) : Option Severity :=
  all.find? (fun severity ↦ severity.name = text)

theorem ofName?_name (severity : Severity) : ofName? severity.name = some severity := by
  cases severity <;> decide

/-- The rank of a severity, in which errors come last. -/
def rank : Severity → Nat
  | info => 0
  | warn => 1
  | error => 2

/-- The order of severities. -/
def le (a b : Severity) : Bool :=
  a.rank ≤ b.rank

end Severity

/-- What a diagnostic is about. -/
inductive Code where
  | macroMissing
  | macroCyclic
  | macroAnchorMismatch
  | macroMalformed
  | macroSkipped
  | structuralCycle
  | danglingConnection
  | duplicateNode
  | loadError
  | info
  | warning
  deriving DecidableEq, Repr, Inhabited

namespace Code

def all : List Code :=
  [macroMissing, macroCyclic, macroAnchorMismatch, macroMalformed, macroSkipped, structuralCycle,
   danglingConnection, duplicateNode, loadError, info, warning]

/-- The stable text of a code. -/
def name : Code → String
  | macroMissing => "MACRO_MISSING"
  | macroCyclic => "MACRO_CYCLIC_RESOLUTION"
  | macroAnchorMismatch => "MACRO_PORT_ARITY_MISMATCH"
  | macroMalformed => "MACRO_MALFORMED_SOURCE"
  | macroSkipped => "MACRO_SKIPPED"
  | structuralCycle => "LINEAGE_STRUCTURAL_CYCLE"
  | danglingConnection => "WORKFLOW_DANGLING_CONNECTION"
  | duplicateNode => "WORKFLOW_DUPLICATE_NODE"
  | loadError => "WORKFLOW_LOAD_ERROR"
  | info => "INFO"
  | warning => "WARNING"

/-- The code with a given text. -/
def ofName? (text : String) : Option Code :=
  all.find? (fun code ↦ code.name = text)

theorem ofName?_name (code : Code) : ofName? code.name = some code := by
  cases code <;> decide

/-- The severity of a code unless another is configured: what keeps a workflow from being built is
an error. -/
def severity : Code → Severity
  | macroCyclic | structuralCycle | danglingConnection | duplicateNode | loadError => .error
  | macroMissing | macroAnchorMismatch | macroMalformed | macroSkipped | warning => .warn
  | info => .info

end Code

/-- A file, or a node in it. -/
structure Location where
  file : String
  node : Option String
  deriving DecidableEq, Repr

/-- A message with what a reader needs to act on it. -/
structure Diagnostic where
  code : Code
  severity : Severity
  message : String
  location : Option Location
  expected : Option String
  actual : Option String
  impact : List String
  deriving DecidableEq, Repr

namespace Diagnostic

/-- A diagnostic at the severity of its code. -/
def ofCode (code : Code) (message : String) : Diagnostic :=
  ⟨code, code.severity, message, none, none, none, []⟩

/-- Sets the place that a diagnostic is about. -/
def atPlace (d : Diagnostic) (file : String) (node : Option String) : Diagnostic :=
  { d with location := some ⟨file, node⟩ }

end Diagnostic

end Provenance

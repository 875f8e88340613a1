import Provenance.Config
import Provenance.Graph.Layers
import Provenance.Graph.OfDocument
import Provenance.Inventory

/-!
# Batches

A batch takes workflow files one after the other through loading, expansion, graph building and
classification, with one memory for all. A file that gives no graph is listed as a failure, and the
next one is taken.
-/

namespace Provenance

/-- Why a file gave no graph. -/
inductive FailureKind where
  | loadError
  | duplicateNode
  | danglingConnection
  | cyclicMacro
  | structuralCycle
  deriving DecidableEq, Repr

namespace FailureKind

def name : FailureKind → String
  | loadError => "load_error"
  | duplicateNode => "duplicate_node"
  | danglingConnection => "dangling_connection"
  | cyclicMacro => "cyclic_macro"
  | structuralCycle => "structural_cycle"

end FailureKind

/-- A file that gave no graph. -/
structure Failure where
  path : Path
  /-- The name of the workflow, if the file could be loaded. -/
  workflow : Option String
  kind : FailureKind
  message : String
  deriving Repr

/-- What came of the files so far. -/
structure Batch where
  graphs : List Graph
  failures : List Failure
  issues : List Issue
  inventory : Inventory
  diagnostics : List Diagnostic
  processed : Nat

namespace GraphError

def kind : GraphError → FailureKind
  | duplicateNodes _ => .duplicateNode
  | danglingConnections _ => .danglingConnection
  | structuralCycle _ => .structuralCycle

/-- The diagnostics for a workflow in a file that has no graph. -/
def diagnostics (file workflow : String) : GraphError → List Diagnostic
  | duplicateNodes ids =>
    ids.map (fun id ↦
      (Diagnostic.ofCode .duplicateNode s!"Node id {id} is used by more than one tool").atPlace
        file (some id))
  | danglingConnections dangling =>
    dangling.map (fun entry ↦
      let source := entry.connection.source
      let target := entry.connection.target
      (Diagnostic.ofCode .danglingConnection
        (s!"Connection {source.node}:{source.anchor} -> {target.node}:{target.anchor} " ++
          s!"references missing node {entry.missing}")).atPlace file (some entry.missing))
  | structuralCycle report =>
    let path := " -> ".intercalate report.cycle
    let base := Diagnostic.ofCode .structuralCycle
      (s!"Workflow '{workflow}' contains a cycle: {path} " ++
        s!"({report.unsorted.length} node(s) cannot be ordered)")
    [{ base.atPlace file report.cycle.head? with impact := report.unsorted }]

end GraphError

namespace Batch

def empty : Batch := ⟨[], [], [], .empty, [], 0⟩

/-- Adds diagnostics at their configured severities. -/
def report (severities : Severities) (diagnostics : List Diagnostic) (b : Batch) : Batch :=
  { b with
    diagnostics := b.diagnostics ++
      diagnostics.map (fun d ↦ { d with severity := severities.severity d.code }) }

/-- Adds a failure. -/
def fail (path : Path) (workflow : Option String) (kind : FailureKind) (message : String)
    (b : Batch) : Batch :=
  { b with failures := b.failures ++ [⟨path, workflow, kind, message⟩] }

/-- A file that cannot be loaded. -/
def addLoadError (severities : Severities) (path : Path) (e : LoadError) (b : Batch) : Batch :=
  (b.report severities [(Diagnostic.ofCode .loadError e.message).atPlace path.text none]).fail
    path none .loadError e.message

/-- The cycles among some issues in one line. -/
def cycleMessage (issues : List Issue) : String :=
  "; ".intercalate ((issues.filter Issue.isFatal).map (fun issue ↦ issue.gap.message))

/-- The diagnostic for an issue, with the stages that its placeholder feeds. -/
def issueDiagnostic (g : Graph) (issue : Issue) : Diagnostic :=
  { issue.diagnostic with impact := g.descendants issue.node }

/-- A document that was expanded: its graph, or the reason why it has none. -/
def addDocument (config : Config) (path : Path) (o : Outcome) (b : Batch) : Batch :=
  let workflow := o.document.name
  let plain := o.issues.map Issue.diagnostic
  if o.isFatal then
    (b.report config.severities plain).fail path (some workflow) .cyclicMacro
      (cycleMessage o.issues)
  else
    match o.document.graph with
    | .ok g =>
      let g := g.classify config.layers
      let b := b.report config.severities (o.issues.map (issueDiagnostic g))
      { b with graphs := b.graphs ++ [g] }
    | .error e =>
      (b.report config.severities (plain ++ e.diagnostics path.text workflow)).fail path
        (some workflow) e.kind (e.message workflow)

/-- A file that was expanded. -/
def addOutcome (config : Config) (path : Path) (o : Outcome) (context : Context) (b : Batch) :
    Batch :=
  let b := { b with inventory := b.inventory.record o.document.name o context }
  let b := b.addDocument config path o
  { b with issues := b.issues ++ o.issues }

end Batch

/-- How a batch is run. -/
structure Pipeline (σ : Type) where
  resolver : Resolver σ
  config : Config

namespace Pipeline

variable {σ : Type}

/-- The pipeline with some settings over the files of a file system. -/
def ofConfig (fs : FileSystem) (operator : Operator σ) (config : Config) : Pipeline σ where
  resolver :=
    { files := fs
      load := Document.load fs
      options := config.macros.options
      operator := operator }
  config := config

/-- Takes in one file. -/
def process (p : Pipeline σ) (state : Batch × Session σ) (path : Path) : Batch × Session σ :=
  let (b, s) := state
  let b := { b with processed := b.processed + 1 }
  match p.resolver.resolveFile path s with
  | .error e => (b.addLoadError p.config.severities path e, s)
  | .ok (o, s) => (b.addOutcome p.config path o s.context, s)

/-- Takes in some files, one after the other. -/
def run (p : Pipeline σ) (paths : List Path) (s : Session σ) : Batch × Session σ :=
  paths.foldl p.process (.empty, s)

end Pipeline

end Provenance

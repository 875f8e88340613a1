import Provenance.Batch
import Provenance.Report

/-!
# Summaries

What is shown at the end of a run: the graphs and failures, the inventory of macros, and the report.
-/

namespace Provenance.CommandLine

/-- A line with its line break. -/
def line (text : String) : String :=
  text ++ "\n"

/-- A line across the screen. -/
def rule : String :=
  line (String.ofList (List.replicate 60 '='))

/-- A title between two rules. -/
def banner (title : String) : String :=
  line "" ++ rule ++ line title ++ rule ++ line ""

/-- The lines for a graph. -/
def graphLines (g : Graph) : String :=
  let incomplete := g.incomplete.length
  let mark := if incomplete = 0 then "✓" else "⚠"
  let counts :=
    s!"({g.nodes.length} stages, {g.edges.length} edges, {g.sources.length} sources, " ++
      s!"{g.sinks.length} sinks)"
  line s!"  {mark} {g.name} {counts}" ++
    (if incomplete = 0 then "" else line s!"      {incomplete} unresolved macro placeholder(s)")

/-- The line for a failure. -/
def failureLine (f : Failure) : String :=
  line s!"  ✗ {f.workflow.getD f.path.text}: {f.message}"

/-- The graphs and failures of a batch. -/
def graphSummary (b : Batch) : String :=
  banner "Lineage Graphs" ++ String.join (b.graphs.map graphLines) ++
    String.join (b.failures.map failureLine)

/-- The lines for a macro. -/
def macroLines (r : MacroRecord) : String :=
  let found :=
    match r.path with
    | some path =>
      line s!"    Path:  {path.text}" ++ line s!"    Ports: {r.inputs} in, {r.outputs} out"
    | none => ""
  line s!"  [{r.status.name}] {r.name}" ++ found ++
    line ("    Used by: " ++ ", ".intercalate r.users)

/-- The inventory of macros. -/
def inventorySummary (i : Inventory) : String :=
  let summary := i.summary
  banner "Macro Inventory" ++
    String.join
      [line "Summary:",
       line s!"  Total macros: {summary.total}",
       line s!"  Found:        {summary.found}",
       line s!"  Unresolved:   {summary.missing}",
       line s!"  Shared:       {summary.shared}",
       line ""] ++
    (if i.isEmpty then line "No macros referenced." else "") ++
    String.join (i.records.map macroLines) ++ line "" ++ rule

/-- A severity in capitals. -/
def severityLabel : Severity → String
  | .error => "ERROR"
  | .warn => "WARN"
  | .info => "INFO"

/-- The line for a place. -/
def locationLine (l : Location) : String :=
  match l.node with
  | some node => line s!"    at {l.file} (node {node})"
  | none => line s!"    at {l.file}"

/-- A line that is shown only if there is something to show. -/
def optionalLine (label : String) : Option String → String
  | some text => line (label ++ text)
  | none => ""

/-- The lines for the stages that a diagnostic affects. -/
def impactLines (impact : List String) : String :=
  if impact.isEmpty then ""
  else
    line s!"    Impact: {impact.length} downstream stages" ++
      String.join (impact.map (fun stage ↦ line s!"      - {stage}"))

/-- The lines for a diagnostic. -/
def diagnosticLines (d : Diagnostic) : String :=
  line s!"  [{severityLabel d.severity}] {d.code.name}: {d.message}" ++
    ((d.location.map locationLine).getD "") ++
    optionalLine "    Expected: " d.expected ++
    optionalLine "    Actual:   " d.actual ++
    impactLines d.impact

/-- The report. -/
def reportSummary (r : Report) : String :=
  let s := r.summary
  banner "Workflow Lineage Report" ++
    String.join
      [line s!"Version: {r.version.text}",
       line s!"Timestamp: {r.timestamp}",
       line "",
       line "Summary:",
       line s!"  Workflows processed: {s.processed}",
       line s!"  Graphs built:        {s.built}",
       line s!"  Workflows failed:    {s.failed}",
       line s!"  Total diagnostics:   {s.total}",
       line s!"  Errors:   {s.errors}",
       line s!"  Warnings: {s.warnings}",
       line s!"  Info:     {s.info}",
       line ""] ++
    (if r.diagnostics.isEmpty then line "✓ All macros resolved!"
     else line "Diagnostics:" ++ String.join (r.diagnostics.map diagnosticLines)) ++
    line "" ++ rule

end Provenance.CommandLine

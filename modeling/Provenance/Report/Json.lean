import Provenance.Json.Fields
import Provenance.Json.Reader
import Provenance.Report

/-!
# Reports in JSON

The JSON form of a report. Metadata is left out if there is none.
-/

namespace Provenance

namespace Severity

def toJson (severity : Severity) : Json :=
  .string severity.name

def ofJson? (value : Json) : Option Severity :=
  value.choice?.bind ofName?

end Severity

namespace Code

def toJson (code : Code) : Json :=
  .string code.name

def ofJson? (value : Json) : Option Code :=
  value.choice?.bind ofName?

end Code

namespace Location

def toJson (l : Location) : Json :=
  .object (("file", .string l.file) :: Json.present "node" (l.node.map Json.string))

def ofJson? (value : Json) : Option Location := do
  let value ← value.record? ["file", "node"] 1
  let file ← value.required? Json.text? "file"
  let node ← value.optional? Json.text? "node"
  return ⟨file, node⟩

end Location

namespace Diagnostic

def toJson (d : Diagnostic) : Json :=
  .object
    [("code", d.code.toJson),
     ("severity", d.severity.toJson),
     ("message", .string d.message),
     ("location", .nullable Location.toJson d.location),
     ("expected", .nullable .string d.expected),
     ("actual", .nullable .string d.actual),
     ("impact", .strings d.impact)]

def ofJson? (value : Json) : Option Diagnostic := do
  let value ← value.record? ["code", "severity", "message", "location", "expected", "actual",
    "impact"] 7
  let code ← value.required? Code.ofJson? "code"
  let severity ← value.required? Severity.ofJson? "severity"
  let message ← value.required? Json.text? "message"
  let location ← value.optional? Location.ofJson? "location"
  let expected ← value.optional? Json.text? "expected"
  let actual ← value.optional? Json.text? "actual"
  let impact ← value.required? Json.texts? "impact"
  return ⟨code, severity, message, location, expected, actual, impact⟩

end Diagnostic

namespace Report

namespace Version

def toJson (v : Version) : Json :=
  .object [("major", .nat v.major), ("minor", .nat v.minor)]

def ofJson? (value : Json) : Option Version := do
  let value ← value.record? ["major", "minor"] 2
  let major ← value.required? Json.halfWord? "major"
  let minor ← value.required? Json.halfWord? "minor"
  return ⟨major, minor⟩

end Version

namespace Summary

def toJson (s : Summary) : Json :=
  .object
    [("total", .nat s.total),
     ("errors", .nat s.errors),
     ("warnings", .nat s.warnings),
     ("info", .nat s.info),
     ("workflows_processed", .nat s.processed),
     ("graphs_built", .nat s.built),
     ("workflows_failed", .nat s.failed)]

def ofJson? (value : Json) : Option Summary := do
  let value ← value.record? ["total", "errors", "warnings", "info", "workflows_processed",
    "graphs_built", "workflows_failed"] 7
  let total ← value.required? Json.word? "total"
  let errors ← value.required? Json.word? "errors"
  let warnings ← value.required? Json.word? "warnings"
  let info ← value.required? Json.word? "info"
  let processed ← value.required? Json.word? "workflows_processed"
  let built ← value.required? Json.word? "graphs_built"
  let failed ← value.required? Json.word? "workflows_failed"
  return ⟨total, errors, warnings, info, processed, built, failed⟩

end Summary

def toJson (r : Report) : Json :=
  .object
    ([("version", r.version.toJson),
      ("timestamp", .string r.timestamp),
      ("summary", r.summary.toJson),
      ("diagnostics", .array (r.diagnostics.map Diagnostic.toJson))] ++
     Json.present "metadata" r.metadata)

def ofJson? (value : Json) : Option Report := do
  let value ← value.record? ["version", "timestamp", "summary", "diagnostics", "metadata"] 5
  let version ← value.required? Version.ofJson? "version"
  let timestamp ← value.required? Json.text? "timestamp"
  let summary ← value.required? Summary.ofJson? "summary"
  let diagnostics ← value.required? (Json.list? Diagnostic.ofJson?) "diagnostics"
  let metadata ← value.optional? some "metadata"
  return ⟨version, timestamp, summary, diagnostics, metadata.map Json.sortKeys⟩

/-- The text of a report. -/
def text (r : Report) : String :=
  r.toJson.indented

/-- The report that a text holds. -/
def ofText? (text : String) : Option Report :=
  (Json.read? text).bind ofJson?

end Report

end Provenance

import Provenance.Diagnostic
import Provenance.Json

/-!
# Reports

A report lists the diagnostics of a run and counts them by severity. Its layout is versioned.
-/

namespace Provenance

namespace Report

/-- The version of a report's layout. -/
structure Version where
  major : Nat
  minor : Nat
  deriving DecidableEq, Repr

def Version.text (v : Version) : String :=
  s!"{v.major}.{v.minor}"

/-- The version of the reports that are made here. -/
def currentVersion : Version := ⟨1, 0⟩

/-- Numbers of diagnostics and of workflows. -/
structure Summary where
  total : Nat
  errors : Nat
  warnings : Nat
  info : Nat
  processed : Nat
  built : Nat
  failed : Nat
  deriving DecidableEq, Repr

end Report

/-- The diagnostics of a run with their numbers. -/
structure Report where
  version : Report.Version
  timestamp : String
  summary : Report.Summary
  diagnostics : List Diagnostic
  metadata : Option Json

namespace Report

/-- A report without diagnostics. -/
def empty (timestamp : String) : Report :=
  ⟨currentVersion, timestamp, ⟨0, 0, 0, 0, 0, 0, 0⟩, [], none⟩

/-- The number of diagnostics of a severity. -/
def count (severity : Severity) (diagnostics : List Diagnostic) : Nat :=
  (diagnostics.filter (fun d ↦ d.severity = severity)).length

/-- A report on some diagnostics. -/
def ofDiagnostics (timestamp : String) (diagnostics : List Diagnostic) : Report where
  version := currentVersion
  timestamp := timestamp
  summary :=
    { total := diagnostics.length
      errors := count .error diagnostics
      warnings := count .warn diagnostics
      info := count .info diagnostics
      processed := 0
      built := 0
      failed := 0 }
  diagnostics := diagnostics
  metadata := none

namespace Summary

/-- The numbers with one more diagnostic. -/
def add (s : Summary) (severity : Severity) : Summary :=
  match severity with
  | .error => { s with total := s.total + 1, errors := s.errors + 1 }
  | .warn => { s with total := s.total + 1, warnings := s.warnings + 1 }
  | .info => { s with total := s.total + 1, info := s.info + 1 }

end Summary

/-- Adds a diagnostic at the end. -/
def add (r : Report) (d : Diagnostic) : Report :=
  { r with summary := r.summary.add d.severity, diagnostics := r.diagnostics ++ [d] }

/-- Sets the numbers of workflows. -/
def withCounts (r : Report) (processed built failed : Nat) : Report :=
  { r with summary := { r.summary with processed := processed, built := built, failed := failed } }

/-- Attaches a value, with the fields of its objects in the order of their names. -/
def withMetadata (r : Report) (value : Json) : Report :=
  { r with metadata := some value.sortKeys }

/-- The diagnostics with a given code. -/
def withCode (r : Report) (code : Code) : List Diagnostic :=
  r.diagnostics.filter (fun d ↦ d.code = code)

def hasErrors (r : Report) : Bool :=
  0 < r.summary.errors

end Report

end Provenance

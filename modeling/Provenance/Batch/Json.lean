import Provenance.Batch
import Provenance.Document.Json
import Provenance.Report.Json

/-!
# Batches in JSON

The JSON forms of issues, inventories and failures, and the report on a batch.
-/

namespace Provenance

namespace Issue

def toJson (i : Issue) : Json :=
  .object
    [("reference", i.reference.toJson),
     ("document", i.document.toJson),
     ("node", .string i.node),
     ("origin", .string i.origin),
     ("reason", i.gap.toJson)]

def ofJson? (value : Json) : Option Issue := do
  let value ← value.record? ["reference", "document", "node", "origin", "reason"] 5
  let reference ← value.required? Reference.ofJson? "reference"
  let document ← value.required? Path.ofJson? "document"
  let node ← value.required? Json.text? "node"
  let origin ← value.required? Json.text? "origin"
  let gap ← value.required? Gap.ofJson? "reason"
  return ⟨reference, document, node, origin, gap⟩

end Issue

namespace MacroRecord

def toJson (r : MacroRecord) : Json :=
  .object
    [("name", .string r.name),
     ("status", .string r.status.name),
     ("resolved_path", .nullable Path.toJson r.path),
     ("inputs", .nat r.inputs),
     ("outputs", .nat r.outputs),
     ("fingerprint", .nullable .string r.fingerprint),
     ("used_by", .strings r.users)]

def ofJson? (value : Json) : Option MacroRecord := do
  let value ← value.record? ["name", "status", "resolved_path", "inputs", "outputs", "fingerprint",
    "used_by"] 7
  let name ← value.required? Json.text? "name"
  let status ← value.required? (fun value ↦ value.choice?.bind Status.ofName?) "status"
  let path ← value.optional? Path.ofJson? "resolved_path"
  let inputs ← value.required? Json.word? "inputs"
  let outputs ← value.required? Json.word? "outputs"
  let fingerprint ← value.optional? Json.text? "fingerprint"
  let users ← value.required? Json.texts? "used_by"
  return ⟨name, status, path, inputs, outputs, fingerprint,
    Table.ofList (users.map (fun user ↦ (user, ())))⟩

end MacroRecord

namespace Inventory

def ofJson? (value : Json) : Option Inventory := do
  let value ← value.record? ["macros"] 1
  let macros ← value.required? (Json.table? MacroRecord.ofJson?) "macros"
  return ⟨macros⟩

def Summary.toJson (s : Summary) : Json :=
  .object
    [("total", .nat s.total), ("found", .nat s.found), ("missing", .nat s.missing),
     ("shared", .nat s.shared)]

end Inventory

namespace Use

def toJson (u : Use) : Json :=
  .object
    [("reference", u.reference.toJson), ("path", u.path.toJson), ("inputs", .nat u.inputs),
     ("outputs", .nat u.outputs)]

end Use

namespace Failure

def toJson (f : Failure) : Json :=
  .object
    [("path", f.path.toJson),
     ("workflow", .nullable .string f.workflow),
     ("kind", .string f.kind.name),
     ("message", .string f.message)]

end Failure

namespace Batch

/-- What a report on a batch says beside its diagnostics. -/
def metadata (b : Batch) : Json :=
  .object
    [("macro_inventory", .object
       [("summary", b.inventory.summary.toJson),
        ("macros", .array (b.inventory.records.map MacroRecord.toJson))]),
     ("failures", .array (b.failures.map Failure.toJson))]

/-- The report on a batch. -/
def toReport (timestamp : String) (b : Batch) : Report :=
  ((b.diagnostics.foldl Report.add (.empty timestamp)).withCounts
    b.processed b.graphs.length b.failures.length).withMetadata b.metadata

end Batch

end Provenance

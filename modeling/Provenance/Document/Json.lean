import Provenance.Document
import Provenance.Json.Fields

/-!
# Documents in JSON

The JSON forms of documents and their parts.
-/

namespace Provenance

namespace Path

def toJson (p : Path) : Json :=
  .string p.text

def ofJson? (value : Json) : Option Path :=
  value.text?.map Path.mk

end Path

namespace Category

def toJson (c : Category) : Json :=
  .string c.name

def ofJson? (value : Json) : Option Category :=
  value.choice?.bind ofName?

end Category

namespace Reference

def toJson (r : Reference) : Json :=
  .object [("name", .string r.name), ("declared_path", .nullable .string r.declaredPath)]

def ofJson? (value : Json) : Option Reference := do
  let value ← value.record? ["name", "declared_path"] 2
  let name ← value.required? Json.text? "name"
  let declaredPath ← value.optional? Json.text? "declared_path"
  return ⟨name, declaredPath⟩

end Reference

namespace Gap

/-- The name of a kind of gap. -/
def kind : Gap → String
  | missing => "missing"
  | skipped => "skipped"
  | malformed _ => "malformed"
  | anchorMismatch _ _ => "port_arity"
  | cyclic _ => "cyclic"

/-- What a gap says beyond its kind. -/
def details : Gap → List (String × Json)
  | missing => []
  | skipped => []
  | malformed message => [("message", .string message)]
  | anchorMismatch expected found =>
    [("expected_inputs", .nat expected.inputs), ("found_inputs", .nat found.inputs),
     ("expected_outputs", .nat expected.outputs), ("found_outputs", .nat found.outputs)]
  | cyclic chain => [("chain", .strings chain)]

def toJson (gap : Gap) : Json :=
  .object (("reason", .string gap.kind) :: gap.details)

/-- The names of the details of each kind of gap. -/
def detailNames? : String → Option (List String)
  | "missing" => some []
  | "skipped" => some []
  | "malformed" => some ["message"]
  | "port_arity" =>
    some ["expected_inputs", "found_inputs", "expected_outputs", "found_outputs"]
  | "cyclic" => some ["chain"]
  | _ => none

/-- The kind that a gap is said to be of. -/
def kindOfJson? : Json → Option String
  | .array (kind :: _) => kind.text?
  | value => value.required? Json.text? "reason"

def anchorMismatchOfJson? (value : Json) : Option Gap := do
  let expectedInputs ← value.required? Json.word? "expected_inputs"
  let foundInputs ← value.required? Json.word? "found_inputs"
  let expectedOutputs ← value.required? Json.word? "expected_outputs"
  let foundOutputs ← value.required? Json.word? "found_outputs"
  return anchorMismatch ⟨expectedInputs, expectedOutputs⟩ ⟨foundInputs, foundOutputs⟩

def ofJson? (value : Json) : Option Gap := do
  let kind ← kindOfJson? value
  let names ← detailNames? kind
  let value ← value.record? ("reason" :: names) (names.length + 1)
  match kind with
  | "missing" => some missing
  | "skipped" => some skipped
  | "malformed" => (value.required? Json.text? "message").map malformed
  | "port_arity" => anchorMismatchOfJson? value
  | "cyclic" => (value.required? Json.texts? "chain").map cyclic
  | _ => none

end Gap

namespace Setting

mutual

def toJson : Setting → Json
  | text value => .string value
  | list items => .array (itemsToJson items)
  | group entries => .object (entriesToJson entries)

def itemsToJson : List Setting → List Json
  | [] => []
  | item :: rest => toJson item :: itemsToJson rest

def entriesToJson : List (String × Setting) → List (String × Json)
  | [] => []
  | (name, value) :: rest => (name, toJson value) :: entriesToJson rest

end

mutual

def ofJson? : Json → Option Setting
  | .string value => some (text value)
  | .array items => (itemsOfJson? items).map list
  | .object fields => (entriesOfJson? fields).map (fun entries ↦ group (Table.ofList entries))
  | _ => none

def itemsOfJson? : List Json → Option (List Setting)
  | [] => some []
  | item :: rest =>
    match ofJson? item, itemsOfJson? rest with
    | some item, some rest => some (item :: rest)
    | _, _ => none

def entriesOfJson? : List (String × Json) → Option (List (String × Setting))
  | [] => some []
  | (name, value) :: rest =>
    match ofJson? value, entriesOfJson? rest with
    | some value, some rest => some ((name, value) :: rest)
    | _, _ => none

end

end Setting

namespace Node

def toJson (n : Node) : Json :=
  .object
    [("id", .string n.id),
     ("tool_type", .string n.toolType),
     ("name", .string n.name),
     ("category", n.category.toJson),
     ("config", .object (Setting.entriesToJson n.config)),
     ("input_ports", .strings n.inputAnchors),
     ("output_ports", .strings n.outputAnchors),
     ("annotation", .nullable .string n.annotation),
     ("container_id", .nullable .string n.containerId),
     ("macro_ref", .nullable Reference.toJson n.reference),
     ("unresolved", .nullable Gap.toJson n.gap),
     ("origin", .string n.origin)]

def ofJson? (value : Json) : Option Node := do
  let value ← value.record? ["id", "tool_type", "name", "category", "config", "input_ports",
    "output_ports", "annotation", "container_id", "macro_ref", "unresolved", "origin"] 4
  let id ← value.required? Json.text? "id"
  let toolType ← value.required? Json.text? "tool_type"
  let name ← value.required? Json.text? "name"
  let category ← value.required? Category.ofJson? "category"
  let config ← value.defaulted? (Json.table? Setting.ofJson?) [] "config"
  let inputAnchors ← value.defaulted? Json.texts? [] "input_ports"
  let outputAnchors ← value.defaulted? Json.texts? [] "output_ports"
  let annotation ← value.optional? Json.text? "annotation"
  let containerId ← value.optional? Json.text? "container_id"
  let reference ← value.optional? Reference.ofJson? "macro_ref"
  let gap ← value.optional? Gap.ofJson? "unresolved"
  let origin ← value.defaulted? Json.text? "" "origin"
  return ⟨id, toolType, name, category, config, inputAnchors, outputAnchors, annotation,
    containerId, reference, gap, origin⟩

end Node

namespace Endpoint

def toJson (e : Endpoint) : Json :=
  .object [("node", .string e.node), ("port", .string e.anchor)]

def ofJson? (value : Json) : Option Endpoint := do
  let value ← value.record? ["node", "port"] 2
  let node ← value.required? Json.text? "node"
  let anchor ← value.required? Json.text? "port"
  return ⟨node, anchor⟩

end Endpoint

namespace Connection

def toJson (c : Connection) : Json :=
  .object [("from", c.source.toJson), ("to", c.target.toJson)]

def ofJson? (value : Json) : Option Connection := do
  let value ← value.record? ["from", "to"] 2
  let source ← value.required? Endpoint.ofJson? "from"
  let target ← value.required? Endpoint.ofJson? "to"
  return ⟨source, target⟩

end Connection

namespace Dangling

def toJson (d : Dangling) : Json :=
  .object [("connection", d.connection.toJson), ("missing", .string d.missing)]

end Dangling

namespace Document

def toJson (d : Document) : Json :=
  .object
    [("name", .string d.name),
     ("path", d.path.toJson),
     ("description", .nullable .string d.description),
     ("nodes", .array (d.nodes.map Node.toJson)),
     ("connections", .array (d.connections.map Connection.toJson))]

def ofJson? (value : Json) : Option Document := do
  let value ← value.record? ["name", "path", "description", "nodes", "connections"] 5
  let name ← value.required? Json.text? "name"
  let path ← value.required? Path.ofJson? "path"
  let description ← value.optional? Json.text? "description"
  let nodes ← value.required? (Json.list? Node.ofJson?) "nodes"
  let connections ← value.required? (Json.list? Connection.ofJson?) "connections"
  return ⟨name, path, description, nodes, connections⟩

end Document

end Provenance

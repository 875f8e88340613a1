import Provenance.Document.Json
import Provenance.Graph
import Provenance.Json.Reader

/-!
# Graphs in JSON

The JSON form of a graph lists its stages and edges; the index is made anew when a graph is read.
-/

namespace Provenance

namespace Layer

def toJson (layer : Layer) : Json :=
  .string layer.name

def ofJson? (value : Json) : Option Layer :=
  value.choice?.bind ofName?

end Layer

namespace Role

def toJson : Role → Json
  | data => .string "data"
  | left => .string "left"
  | right => .string "right"
  | unionMember number => .object [("union_member", .nat number)]
  | anchor name => .object [("port", .string name)]

def ofJson? (value : Json) : Option Role :=
  match value with
  | .object [("union_member", value)] => value.word?.map unionMember
  | .object [("port", value)] => value.text?.map anchor
  | _ =>
    match value.choice? with
    | some "data" => some data
    | some "left" => some left
    | some "right" => some right
    | _ => none

end Role

namespace Stage

def toJson (s : Stage) : Json :=
  .object
    ([("id", .string s.id),
      ("origin", .string s.origin),
      ("name", .string s.name),
      ("category", s.category.toJson),
      ("tool_type", .string s.toolType),
      ("incomplete", .bool s.incomplete)] ++
     Json.present "unresolved" (s.gap.map Gap.toJson) ++
     [("layer", .nullable Layer.toJson s.layer)])

def ofJson? (value : Json) : Option Stage := do
  let value ← value.record? ["id", "origin", "name", "category", "tool_type", "incomplete",
    "unresolved", "layer"] 6
  let id ← value.required? Json.text? "id"
  let origin ← value.required? Json.text? "origin"
  let name ← value.required? Json.text? "name"
  let category ← value.required? Category.ofJson? "category"
  let toolType ← value.required? Json.text? "tool_type"
  let incomplete ← value.required? Json.flag? "incomplete"
  let gap ← value.optional? Gap.ofJson? "unresolved"
  let layer ← value.optional? Layer.ofJson? "layer"
  return ⟨id, origin, name, category, toolType, incomplete, gap, layer⟩

end Stage

namespace Edge

def toJson (e : Edge) : Json :=
  .object
    ([("from", .string e.source),
      ("to", .string e.target),
      ("source_port", .string e.sourceAnchor),
      ("target_port", .string e.targetAnchor),
      ("role", e.role.toJson)] ++
     Json.present "branch" (e.branch.map Json.string))

def ofJson? (value : Json) : Option Edge := do
  let value ← value.record? ["from", "to", "source_port", "target_port", "role", "branch"] 5
  let source ← value.required? Json.text? "from"
  let target ← value.required? Json.text? "to"
  let sourceAnchor ← value.required? Json.text? "source_port"
  let targetAnchor ← value.required? Json.text? "target_port"
  let role ← value.required? Role.ofJson? "role"
  let branch ← value.optional? Json.text? "branch"
  return ⟨source, target, sourceAnchor, targetAnchor, role, branch⟩

end Edge

namespace Graph

def toJson (g : Graph) : Json :=
  .object
    [("name", .string g.name),
     ("source", g.source.toJson),
     ("nodes", .array (g.nodes.map Stage.toJson)),
     ("edges", .array (g.edges.map Edge.toJson))]

def ofJson? (value : Json) : Option Graph := do
  let value ← value.record? ["name", "source", "nodes", "edges"] 4
  let name ← value.required? Json.text? "name"
  let source ← value.required? Path.ofJson? "source"
  let nodes ← value.required? (Json.list? Stage.ofJson?) "nodes"
  let edges ← value.required? (Json.list? Edge.ofJson?) "edges"
  return ofLists name source nodes edges

/-- The text of a graph. -/
def text (g : Graph) : String :=
  g.toJson.indented

/-- The graph that a text holds. -/
def ofText? (text : String) : Option Graph :=
  (Json.read? text).bind ofJson?

end Graph

end Provenance

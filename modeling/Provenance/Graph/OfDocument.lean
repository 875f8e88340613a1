import Provenance.Graph.Order

/-!
# The graph of a document

Each node becomes a stage and each connection an edge, in order. A document in which identifiers are
repeated, or connections lead nowhere, or data flows in a circle has no graph; of these faults the
first one is reported.
-/

namespace Provenance

/-- Why a document has no graph. -/
inductive GraphError where
  | duplicateNodes (ids : List String)
  | danglingConnections (dangling : List Dangling)
  | structuralCycle (report : CycleReport)
  deriving Repr

namespace GraphError

/-- The message for the workflow with a given name. -/
def message (workflow : String) : GraphError → String
  | duplicateNodes ids => s!"Workflow '{workflow}' reuses node id(s): " ++ ", ".intercalate ids
  | danglingConnections dangling =>
    s!"Workflow '{workflow}' has {dangling.length} dangling connection(s)"
  | structuralCycle report =>
    s!"Workflow '{workflow}' contains a cycle: " ++ " -> ".intercalate report.cycle

end GraphError

namespace Node

/-- The stage for a node. -/
def stage (n : Node) : Stage where
  id := n.id
  origin := n.origin
  name := n.displayName
  category := n.category
  toolType := n.toolType
  incomplete := n.isPlaceholder
  gap := n.gap
  layer := none

end Node

namespace Document

/-- What a connection is to a node of a category that `earlier` connections enter before it. -/
def roleAt (category : Category) (anchor : String) (earlier : Nat) : Role :=
  match category with
  | .union => .unionMember earlier
  | .join =>
    if anchor = "Left" then .left
    else if anchor = "Right" then .right
    else if anchor = "Input" then .data
    else .anchor anchor
  | _ => if anchor = "Input" then .data else .anchor anchor

/-- The edge for a connection, given the connections before it. -/
def edge (d : Document) (before : List Connection) (c : Connection) : Edge where
  source := c.source.node
  target := c.target.node
  sourceAnchor := c.source.anchor
  targetAnchor := c.target.anchor
  role :=
    roleAt (((d.node? c.target.node).map Node.category).getD .unknown) c.target.anchor
      (before.filter (fun b ↦ b.target.node = c.target.node)).length
  branch :=
    if 1 < (((d.node? c.source.node).map Node.outputAnchors).getD []).length then
      some c.source.anchor
    else none

/-- The edges for the connections that follow some others. -/
def edgesAfter (d : Document) (before : List Connection) : List Connection → List Edge
  | [] => []
  | c :: rest => d.edge before c :: d.edgesAfter (before ++ [c]) rest

/-- The stages and edges of a document. -/
def flow (d : Document) : Graph :=
  Graph.ofLists d.name d.path (d.nodes.map Node.stage) (d.edgesAfter [] d.connections)

/-- The graph of a document. -/
def graph (d : Document) : Except GraphError Graph :=
  if d.duplicateIds ≠ [] then .error (.duplicateNodes d.duplicateIds)
  else if d.dangling.isEmpty then
    match d.flow.order with
    | .ok _ => .ok d.flow
    | .error report => .error (.structuralCycle report)
  else .error (.danglingConnections d.dangling)

end Document

end Provenance

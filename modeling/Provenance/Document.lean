import Provenance.Reference
import Provenance.Table
import Provenance.Tool

/-!
# Documents

A document is one workflow: its nodes in the order of the file, and the connections between their
anchors. Identifiers need not be distinct and connections need not lead anywhere; `duplicateIds` and
`dangling` list what is wrong.
-/

namespace Provenance

/-- A value of a tool's configuration. -/
inductive Setting where
  | text (value : String)
  | list (items : List Setting)
  | group (entries : List (String × Setting))
  deriving Inhabited

namespace Setting

/-- The text of a setting that has no parts. -/
def text? : Setting → Option String
  | text value => some value
  | _ => none

/-- The part of a group with a given name. -/
def part? (name : String) : Setting → Option Setting
  | group entries => Table.find? name entries
  | _ => none

/-- The setting reached by following a list of names. -/
def follow? (s : Setting) : List String → Option Setting
  | [] => some s
  | name :: names => (s.part? name).bind (fun part ↦ part.follow? names)

end Setting

/-- A step of a workflow. -/
structure Node where
  id : String
  toolType : String
  name : String
  category : Category
  config : Table Setting
  inputAnchors : List String
  outputAnchors : List String
  annotation : Option String
  containerId : Option String
  reference : Option Reference
  gap : Option Gap
  origin : String
  deriving Inhabited

namespace Node

/-- A node without anchors and configuration. -/
def plain (id : String) (category : Category) (name : String) : Node where
  id := id
  toolType := ""
  name := name
  category := category
  config := []
  inputAnchors := []
  outputAnchors := []
  annotation := none
  containerId := none
  reference := none
  gap := none
  origin := ""

/-- A call of a macro. -/
def call (id : String) (reference : Reference) : Node :=
  { plain id .macroCall reference.name with reference := some reference }

/-- The name, or else the annotation, or else the identifier. -/
def displayName (n : Node) : String :=
  if n.name = "" then n.annotation.getD n.id else n.name

/-- Whether the node is a call that has not been looked into yet. -/
def isPending (n : Node) : Bool :=
  n.category = .macroCall && n.reference.isSome && n.gap.isNone

/-- Whether the node is a call that could not be replaced. -/
def isPlaceholder (n : Node) : Bool :=
  n.gap.isSome

/-- The origin of a node that has none yet: the document and the identifier in it. -/
def stamp (document : String) (n : Node) : Node :=
  if n.origin = "" then { n with origin := document ++ "#" ++ n.id } else n

end Node

/-- One anchor of one node. -/
structure Endpoint where
  node : String
  anchor : String
  deriving DecidableEq, Repr, Inhabited

/-- A flow of data from an anchor to an anchor. -/
structure Connection where
  source : Endpoint
  target : Endpoint
  deriving DecidableEq, Repr, Inhabited

/-- A connection and an end of it that is no node. -/
structure Dangling where
  connection : Connection
  missing : String
  deriving DecidableEq, Repr

/-- A workflow. -/
structure Document where
  name : String
  path : Path
  description : Option String
  nodes : List Node
  connections : List Connection
  deriving Inhabited

namespace Document

def empty (name : String) (path : Path) : Document :=
  ⟨name, path, none, [], []⟩

/-- Adds a node at the end. -/
def addNode (d : Document) (n : Node) : Document :=
  { d with nodes := d.nodes ++ [n.stamp d.name] }

/-- Adds a connection at the end. -/
def connect (d : Document) (c : Connection) : Document :=
  { d with connections := d.connections ++ [c] }

/-- The directory that the document lies in. -/
def directory (d : Document) : Path :=
  d.path.directory

/-- The first node with an identifier. -/
def node? (d : Document) (id : String) : Option Node :=
  d.nodes.find? (fun n ↦ n.id = id)

/-- The reference of the first node with an identifier. -/
def reference? (d : Document) (id : String) : Option Reference :=
  (d.node? id).bind Node.reference

/-- Changes the first node that has an identifier. -/
def updateFirst (f : Node → Node) (id : String) : List Node → List Node
  | [] => []
  | n :: rest => if n.id = id then f n :: rest else n :: updateFirst f id rest

/-- Marks the first node with an identifier as a call that could not be replaced. -/
def setGap (d : Document) (id : String) (gap : Option Gap) : Document :=
  { d with nodes := updateFirst (fun n ↦ { n with gap := gap }) id d.nodes }

theorem map_updateFirst {α : Type} {f : Node → Node} {g : Node → α} (h : ∀ n, g (f n) = g n)
    (id : String) (nodes : List Node) : (updateFirst f id nodes).map g = nodes.map g := by
  induction nodes with
  | nil => rfl
  | cons n rest ih =>
    unfold updateFirst
    split
    · simp [h]
    · simp [ih]

/-- A mark changes nothing else about a node. -/
theorem map_setGap {α : Type} {g : Node → α} (h : ∀ n gap, g { n with gap := gap } = g n)
    (d : Document) (id : String) (gap : Option Gap) :
    (d.setGap id gap).nodes.map g = d.nodes.map g :=
  map_updateFirst (fun n ↦ h n gap) id d.nodes

theorem node?_setGap_of_ne (d : Document) {id id' : String} (h : id' ≠ id) (gap : Option Gap) :
    (d.setGap id gap).node? id' = d.node? id' := by
  unfold setGap node?
  dsimp only
  induction d.nodes with
  | nil => rfl
  | cons n rest ih =>
    unfold updateFirst
    split
    · rename_i hid
      simp [hid, h.symm]
    · rw [List.find?_cons, List.find?_cons, ih]

/-- The connections that arrive at a node. -/
def incoming (d : Document) (id : String) : List Connection :=
  d.connections.filter (fun c ↦ c.target.node = id)

/-- The connections that leave a node. -/
def outgoing (d : Document) (id : String) : List Connection :=
  d.connections.filter (fun c ↦ c.source.node = id)

/-- The calls that have not been looked into yet. -/
def pending (d : Document) : List Node :=
  d.nodes.filter Node.isPending

/-- The calls that could not be replaced. -/
def placeholders (d : Document) : List Node :=
  d.nodes.filter Node.isPlaceholder

/-- The nodes through which data enters a macro, in the order of its input anchors. -/
def boundaryInputs (d : Document) : List Node :=
  d.nodes.filter (fun n ↦ n.category = .macroInput)

/-- The nodes through which data leaves a macro, in the order of its output anchors. -/
def boundaryOutputs (d : Document) : List Node :=
  d.nodes.filter (fun n ↦ n.category = .macroOutput)

/-- The anchors that a call of the document must have. -/
def anchorCount (d : Document) : AnchorCount :=
  ⟨d.boundaryInputs.length, d.boundaryOutputs.length⟩

/-- Whether an identifier belongs to a node. -/
def hasNode (d : Document) (id : String) : Bool :=
  d.nodes.any (fun n ↦ n.id = id)

/-- The ends of connections that are no nodes, the source of a connection before its target. -/
def dangling (d : Document) : List Dangling :=
  d.connections.flatMap (fun c ↦
    ([c.source.node, c.target.node].filter (fun id ↦ !d.hasNode id)).map (⟨c, ·⟩))

/-- The elements that occur again after their first occurrence, each once, in the order in which
they first occur again; `seen` holds what came before. -/
def repeated (seen : List String) : List String → List String
  | [] => []
  | id :: rest =>
    if id ∈ seen then id :: (repeated seen rest).filter (· ≠ id)
    else repeated (id :: seen) rest

/-- The identifiers that more than one node has. -/
def duplicateIds (d : Document) : List String :=
  repeated [] (d.nodes.map Node.id)

end Document

end Provenance

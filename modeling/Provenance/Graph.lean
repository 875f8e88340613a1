import Provenance.Document

/-!
# Graphs

The flow of data in one workflow: stages, and edges between them in the order of the workflow's
connections. A graph keeps an index of its stages by identifier and of the edges and neighbours of
each stage. Stages have distinct identifiers, while edges may be parallel, may form cycles, and may
name stages that do not exist.

`descendants` and `ancestors` list what is reachable, nearest first.
-/

namespace Provenance

/-- Where in the flow a stage stands. -/
inductive Layer where
  | source
  | intermediate
  | sink
  deriving DecidableEq, Repr, Inhabited

namespace Layer

def all : List Layer := [source, intermediate, sink]

def name : Layer → String
  | source => "source"
  | intermediate => "intermediate"
  | sink => "sink"

/-- The layer with a given name. -/
def ofName? (text : String) : Option Layer :=
  all.find? (fun layer ↦ layer.name = text)

theorem ofName?_name (layer : Layer) : ofName? layer.name = some layer := by
  cases layer <;> decide

end Layer

/-- What an edge is to the stage that it enters. -/
inductive Role where
  | data
  | left
  | right
  /-- The member of a union with a number, from zero. -/
  | unionMember (number : Nat)
  | anchor (name : String)
  deriving DecidableEq, Repr, Inhabited

/-- A step of the flow. -/
structure Stage where
  id : String
  origin : String
  name : String
  category : Category
  toolType : String
  /-- Whether the stage stands for a macro whose content is not known. -/
  incomplete : Bool
  gap : Option Gap
  layer : Option Layer
  deriving DecidableEq, Repr, Inhabited

/-- A flow of data from stage to stage. -/
structure Edge where
  source : String
  target : String
  sourceAnchor : String
  targetAnchor : String
  role : Role
  /-- The anchor that the data comes from, where the source has several. -/
  branch : Option String
  deriving DecidableEq, Repr, Inhabited

/-- The flow of data in a workflow. -/
structure Graph where
  name : String
  source : Path
  nodes : List Stage
  edges : List Edge
  /-- The position of each stage. -/
  positions : Table Nat
  /-- The positions of the edges that enter a stage. -/
  arriving : Table (List Nat)
  /-- The positions of the edges that leave a stage. -/
  leaving : Table (List Nat)
  /-- The distinct stages that an edge leads from to a stage. -/
  parentsOf : Table (List String)
  /-- The distinct stages that an edge leads to from a stage. -/
  childrenOf : Table (List String)
  deriving Inhabited

namespace Graph

def empty (name : String) (source : Path) : Graph where
  name := name
  source := source
  nodes := []
  edges := []
  positions := []
  arriving := []
  leaving := []
  parentsOf := []
  childrenOf := []

/-- The list of a key; empty if there is none. -/
def listAt {α : Type} (table : Table (List α)) (key : String) : List α :=
  (Table.find? key table).getD []

/-- Adds an element at the end of the list of a key. -/
def push {α : Type} (key : String) (value : α) (table : Table (List α)) : Table (List α) :=
  Table.insert key (listAt table key ++ [value]) table

/-- Adds an element at the end of the list of a key unless it is there already. -/
def pushNew {α : Type} [DecidableEq α] (key : String) (value : α) (table : Table (List α)) :
    Table (List α) :=
  if value ∈ listAt table key then table else push key value table

/-- Whether an identifier belongs to a stage. -/
def hasNode (g : Graph) (id : String) : Bool :=
  (Table.find? id g.positions).isSome

/-- Adds a stage at the end unless its identifier is taken. -/
def addNode (g : Graph) (stage : Stage) : Graph :=
  if g.hasNode stage.id then g
  else
    { g with
      nodes := g.nodes ++ [stage]
      positions := Table.insert stage.id g.nodes.length g.positions }

/-- Adds an edge at the end. -/
def addEdge (g : Graph) (e : Edge) : Graph :=
  { g with
    edges := g.edges ++ [e]
    arriving := push e.target g.edges.length g.arriving
    leaving := push e.source g.edges.length g.leaving
    parentsOf := pushNew e.target e.source g.parentsOf
    childrenOf := pushNew e.source e.target g.childrenOf }

/-- The graph of some stages and edges. Of stages with the same identifier the first one counts. -/
def ofLists (name : String) (source : Path) (nodes : List Stage) (edges : List Edge) : Graph :=
  edges.foldl addEdge (nodes.foldl addNode (empty name source))

/-- The stage with an identifier. -/
def node? (g : Graph) (id : String) : Option Stage :=
  (Table.find? id g.positions).bind (g.nodes[·]?)

/-- Sets the layer of a stage. -/
def setLayer (g : Graph) (id : String) (layer : Option Layer) : Graph :=
  match Table.find? id g.positions with
  | none => g
  | some i => { g with nodes := g.nodes.modify i (fun stage ↦ { stage with layer := layer }) }

/-- The edges that enter a stage. -/
def incoming (g : Graph) (id : String) : List Edge :=
  (listAt g.arriving id).filterMap (g.edges[·]?)

/-- The edges that leave a stage. -/
def outgoing (g : Graph) (id : String) : List Edge :=
  (listAt g.leaving id).filterMap (g.edges[·]?)

/-- The distinct stages that data comes from. -/
def parents (g : Graph) (id : String) : List String :=
  listAt g.parentsOf id

/-- The distinct stages that data goes to. -/
def children (g : Graph) (id : String) : List String :=
  listAt g.childrenOf id

def inDegree (g : Graph) (id : String) : Nat :=
  (listAt g.arriving id).length

def outDegree (g : Graph) (id : String) : Nat :=
  (listAt g.leaving id).length

/-- The elements of a list that were not seen before, each once. -/
def fresh (seen : List String) : List String → List String
  | [] => []
  | id :: rest => if id ∈ seen then fresh seen rest else id :: fresh (id :: seen) rest

/-- The identifiers that a queue leads to, in the order in which each is first taken from it, given
those that were found before. What was put into the queue may be found before its turn comes. The
first argument bounds how often something is taken from the queue. -/
def explore (next : String → List String) : Nat → List String → List String → List String
  | 0, _, _ => []
  | _ + 1, _, [] => []
  | fuel + 1, found, id :: queue =>
    if id ∈ found then explore next fuel found queue
    else
      let found := id :: found
      id :: explore next fuel found (queue ++ (next id).filter (· ∉ found))

/-- What can be reached from a stage in one step or more, nearest first. An edge puts something into
the queue at most twice, once from the start and once when its end is found. -/
def closure (g : Graph) (next : String → List String) (id : String) : List String :=
  explore next (2 * g.edges.length + 1) [] (next id)

/-- The stages that data from a stage can reach. -/
def descendants (g : Graph) (id : String) : List String :=
  g.closure g.children id

/-- The stages from which data can reach a stage. -/
def ancestors (g : Graph) (id : String) : List String :=
  g.closure g.parents id

/-- Whether data from one stage can reach another. -/
def hasPath (g : Graph) (source target : String) : Bool :=
  g.descendants source |>.contains target

/-- The stages that no edge enters. -/
def sources (g : Graph) : List Stage :=
  g.nodes.filter (fun stage ↦ g.inDegree stage.id = 0)

/-- The stages that no edge leaves. -/
def sinks (g : Graph) : List Stage :=
  g.nodes.filter (fun stage ↦ g.outDegree stage.id = 0)

/-- The stages of a layer. -/
def inLayer (g : Graph) (layer : Layer) : List Stage :=
  g.nodes.filter (fun stage ↦ stage.layer = some layer)

/-- The stages that stand for a macro whose content is not known. -/
def incomplete (g : Graph) : List Stage :=
  g.nodes.filter Stage.incomplete

instance : BEq Graph where
  beq g h := g.name == h.name && g.source == h.source && g.nodes == h.nodes && g.edges == h.edges

end Graph

end Provenance

import Provenance.Graph

/-!
# Orders

`order` lists the stages of a graph so that each comes after those it depends on: first the stages
that depend on none, in the order of the graph, and then the others as the last stage they depend on
is placed. Where this does not place all stages, it gives those that could not be placed and a
shortest cycle among them, if there is one.
-/

namespace Provenance

/-- Why a graph has no order. -/
structure CycleReport where
  /-- The stages that could not be placed. -/
  unsorted : List String
  /-- A shortest cycle, from its first stage to the one before it is reached again; empty if there is
  none. -/
  cycle : List String
  deriving DecidableEq, Repr

namespace Graph

/-- The stages whose turn has come, and how many parents each stage still waits for. -/
structure Frontier where
  queue : List String
  waiting : Table Nat

namespace Frontier

/-- Takes note that one parent of a stage has been placed. -/
def release (f : Frontier) (id : String) : Frontier :=
  match Table.find? id f.waiting with
  | none => f
  | some count =>
    { queue := if count - 1 = 0 then f.queue ++ [id] else f.queue
      waiting := Table.insert id (count - 1) f.waiting }

end Frontier

/-- The stages that wait for none, and the numbers of parents of all. -/
def startFrontier (g : Graph) : Frontier :=
  let waiting := Table.ofList (g.nodes.map (fun stage ↦ (stage.id, (g.parents stage.id).length)))
  { queue := (g.nodes.map Stage.id).filter (fun id ↦ Table.find? id waiting = some 0)
    waiting := waiting }

/-- Places the stages whose turn has come, one after the other. The first argument bounds their
number. -/
def place (g : Graph) : Nat → Frontier → List String
  | 0, _ => []
  | fuel + 1, f =>
    match f.queue with
    | [] => []
    | id :: queue =>
      id :: place g fuel ((g.children id).foldl Frontier.release { f with queue := queue })

/-- The search for a shortest cycle through `start`: each path, latest stage first, leads from
`start` to a stage that has not been followed yet. -/
def closingPath? (g : Graph) (allowed : List String) (start : String) :
    Nat → List String → List (List String) → Option (List String)
  | 0, _, _ => none
  | _ + 1, _, [] => none
  | _ + 1, _, [] :: _ => none
  | fuel + 1, found, (id :: path) :: queue =>
    if start ∈ g.children id then some (id :: path)
    else
      let next := fresh found ((g.children id).filter (· ∈ allowed))
      closingPath? g allowed start fuel (next ++ found) (queue ++ next.map (· :: id :: path))

/-- A shortest cycle through a stage. -/
def cycleThrough? (g : Graph) (allowed : List String) (start : String) : Option (List String) :=
  (g.closingPath? allowed start (allowed.length + 1) [] [[start]]).map List.reverse

/-- The shorter of two cycles, the first if they are equally long. -/
def shorter (best : Option (List String)) (cycle : Option (List String)) : Option (List String) :=
  match best, cycle with
  | some best, some cycle => if cycle.length < best.length then some cycle else some best
  | some best, none => some best
  | none, cycle => cycle

/-- The first of the shortest cycles through some stages. -/
def shortestCycle (g : Graph) (stages : List String) : List String :=
  ((stages.map (g.cycleThrough? stages)).foldl shorter none).getD []

/-- An order of the stages in which every edge leads forward. -/
def order (g : Graph) : Except CycleReport (List String) :=
  let placed := g.place g.nodes.length g.startFrontier
  if placed.length = g.nodes.length then .ok placed
  else
    let unsorted := (g.nodes.map Stage.id).filter (· ∉ placed)
    .error ⟨unsorted, g.shortestCycle unsorted⟩

end Graph

end Provenance

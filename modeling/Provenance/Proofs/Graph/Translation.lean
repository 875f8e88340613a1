import Provenance.Proofs.Graph.OfDocument

/-!
# What a document's graph says

A document has a graph exactly if it is valid; otherwise the first of its faults is reported, in the
order of repeated identifiers, connections that lead nowhere, and circles. The graph says what the
document says (`Document.ShownBy`): there is a stage for each node and an edge for each connection,
both in order. What an edge is to the stage that it enters (`Node.Receives`) depends on the node and
on the connections that enter it before, on nothing else in the document.
-/

namespace Provenance

/-- A stage says what a node says, and is incomplete if the node is a call with a gap. -/
structure Node.ShownBy (n : Node) (stage : Stage) : Prop where
  id : stage.id = n.id
  origin : stage.origin = n.origin
  name : stage.name = n.displayName
  category : stage.category = n.category
  toolType : stage.toolType = n.toolType
  incomplete : stage.incomplete ↔ ∃ gap, n.gap = some gap
  gap : stage.gap = n.gap

/-- What a connection that enters a node at an anchor is to it, if a number of connections enter the
node before. -/
inductive Node.Receives (n : Node) (anchor : String) (earlier : Nat) : Role → Prop
  | member (hunion : n.category = .union) : n.Receives anchor earlier (.unionMember earlier)
  | left (hjoin : n.category = .join) (hanchor : anchor = "Left") : n.Receives anchor earlier .left
  | right (hjoin : n.category = .join) (hanchor : anchor = "Right") :
      n.Receives anchor earlier .right
  | data (hunion : n.category ≠ .union) (hanchor : anchor = "Input") :
      n.Receives anchor earlier .data
  | named (hunion : n.category ≠ .union) (hanchor : anchor ≠ "Input")
      (hjoin : n.category = .join → anchor ≠ "Left" ∧ anchor ≠ "Right") :
      n.Receives anchor earlier (.anchor anchor)

/-- An edge says what a connection of a document says that follows some others. -/
structure Connection.ShownBy (d : Document) (before : List Connection) (c : Connection) (e : Edge) :
    Prop where
  source : e.source = c.source.node
  target : e.target = c.target.node
  sourceAnchor : e.sourceAnchor = c.source.anchor
  targetAnchor : e.targetAnchor = c.target.anchor
  role : ∃ n ∈ d.nodes, n.id = c.target.node ∧
    n.Receives c.target.anchor (before.filter (fun b ↦ b.target.node = n.id)).length e.role
  branch : ∃ n ∈ d.nodes, n.id = c.source.node ∧
    e.branch = if 1 < n.outputAnchors.length then some c.source.anchor else none

namespace Document

/-- A graph has a stage for each node and an edge for each connection, in order; the edges into a
union are its members, numbered from zero. -/
structure ShownBy (d : Document) (g : Graph) : Prop where
  stages : List.Forall₂ Node.ShownBy d.nodes g.nodes
  count : g.edges.length = d.connections.length
  edges : ∀ i c, d.connections[i]? = some c →
    ∃ e, g.edges[i]? = some e ∧ Connection.ShownBy d (d.connections.take i) c e
  members : ∀ n ∈ d.nodes, n.category = .union →
    (g.edges.filter (fun e ↦ e.target = n.id)).map Edge.role =
      (List.range (d.incoming n.id).length).map .unionMember

variable {d : Document}

theorem shownBy_stage (n : Node) : n.ShownBy n.stage :=
  ⟨rfl, rfl, rfl, rfl, rfl, Option.isSome_iff_exists, rfl⟩

theorem receives_roleAt (n : Node) (anchor : String) (earlier : Nat) :
    n.Receives anchor earlier (roleAt n.category anchor earlier) := by
  unfold roleAt
  split
  · rename_i hunion
    exact .member hunion
  · rename_i hjoin
    have hunion : n.category ≠ .union := by simp [hjoin]
    split
    · rename_i hleft
      exact .left hjoin hleft
    · rename_i hleft
      split
      · rename_i hright
        exact .right hjoin hright
      · rename_i hright
        split
        · rename_i hinput
          exact .data hunion hinput
        · rename_i hinput
          exact .named hunion hinput fun _ ↦ ⟨hleft, hright⟩
  · rename_i hunion hjoin
    split
    · rename_i hinput
      exact .data hunion hinput
    · rename_i hinput
      exact .named hunion hinput fun h ↦ absurd h hjoin

theorem length_edgesAfter (before connections : List Connection) :
    (d.edgesAfter before connections).length = connections.length := by
  have hends := congrArg List.length (d.ends_edgesAfter before connections)
  rwa [List.length_map, List.length_map] at hends

theorem getElem?_edgesAfter (before connections : List Connection) (i : Nat) :
    (d.edgesAfter before connections)[i]? =
      connections[i]?.map (d.edge (before ++ connections.take i)) := by
  induction connections generalizing before i with
  | nil => rfl
  | cons c rest ih =>
    unfold edgesAfter
    cases i with
    | zero => simp
    | succ i => simp [ih]

/-- The edges into a union are numbered on from the connections before them. -/
theorem roles_edgesAfter {n : Node} (hn : d.node? n.id = some n) (hunion : n.category = .union)
    (before connections : List Connection) :
    ((d.edgesAfter before connections).filter (fun e ↦ e.target = n.id)).map Edge.role =
      (List.range' (before.filter (fun c ↦ c.target.node = n.id)).length
        (connections.filter (fun c ↦ c.target.node = n.id)).length).map .unionMember := by
  induction connections generalizing before with
  | nil => rfl
  | cons c rest ih =>
    unfold edgesAfter
    by_cases hc : c.target.node = n.id
    · have hrole : (d.edge before c).role =
          .unionMember (before.filter (fun b ↦ b.target.node = n.id)).length := by
        simp [edge, hc, hn, hunion, roleAt]
      have htarget : (d.edge before c).target = n.id := hc
      simp [htarget, hrole, ih, hc, List.range'_succ]
    · have htarget : (d.edge before c).target ≠ n.id := hc
      simp [htarget, ih, hc]

section

variable (h : d.IdsDistinct)

include h

/-- In a document whose connections join nodes an edge says what its connection says. -/
theorem shownBy_edge (before : List Connection) {c : Connection}
    (hc : d.hasNode c.source.node ∧ d.hasNode c.target.node) :
    Connection.ShownBy d before c (d.edge before c) := by
  obtain ⟨m, hm, hsource⟩ := hasNode_iff.1 hc.1
  obtain ⟨n, hn, htarget⟩ := hasNode_iff.1 hc.2
  have hm? : d.node? c.source.node = some m := hsource ▸ h.node?_eq_some hm
  have hn? : d.node? c.target.node = some n := htarget ▸ h.node?_eq_some hn
  refine ⟨rfl, rfl, rfl, rfl, ⟨n, hn, htarget, ?_⟩, ⟨m, hm, hsource, ?_⟩⟩
  · have hrole := receives_roleAt n c.target.anchor
      (before.filter (fun b ↦ b.target.node = n.id)).length
    simpa [edge, hn?, htarget] using hrole
  · simp [edge, hm?]

theorem shownBy_flow
    (hlinked : ∀ c ∈ d.connections, d.hasNode c.source.node ∧ d.hasNode c.target.node) :
    d.ShownBy d.flow := by
  obtain ⟨-, hnodes, hedges⟩ := indexed_flow h
  refine ⟨?_, ?_, fun i c hc ↦ ?_, fun n hn hunion ↦ ?_⟩
  · rw [hnodes, List.forall₂_map_right_iff]
    exact List.forall₂_same.2 fun n _ ↦ shownBy_stage n
  · rw [hedges, length_edgesAfter]
  · rw [hedges, getElem?_edgesAfter, hc]
    exact ⟨_, rfl, shownBy_edge h _ (hlinked c (List.mem_of_getElem? hc))⟩
  · rw [hedges, roles_edgesAfter (h.node?_eq_some hn) hunion, List.range_eq_range']
    rfl

end

/-- A document has a graph exactly if its identifiers are distinct, its connections join nodes and
no data flow in a circle; of these the first that fails is reported. The graph says what the
document says. -/
theorem graph_spec (d : Document) :
    ((∃ g, d.graph = .ok g) ↔ d.IdsDistinct ∧
        (∀ c ∈ d.connections, d.hasNode c.source.node ∧ d.hasNode c.target.node) ∧ d.Acyclic) ∧
      (¬d.IdsDistinct → d.graph = .error (.duplicateNodes d.duplicateIds)) ∧
      (d.IdsDistinct →
        (¬∀ c ∈ d.connections, d.hasNode c.source.node ∧ d.hasNode c.target.node) →
        d.graph = .error (.danglingConnections d.dangling)) ∧
      (d.IdsDistinct →
        (∀ c ∈ d.connections, d.hasNode c.source.node ∧ d.hasNode c.target.node) →
        ¬d.Acyclic → ∃ report, d.graph = .error (.structuralCycle report)) ∧
      ∀ g, d.graph = .ok g → d.ShownBy g := by
  simp only [← dangling_eq_nil_iff]
  refine ⟨⟨?_, ?_⟩, graph_of_not_distinct, fun h hnot ↦ graph_of_dangling h hnot,
    fun h hlinked hcircle ↦ ?_, fun g hg ↦ ?_⟩
  · rintro ⟨g, hg⟩
    obtain ⟨hvalid, -⟩ := valid_of_graph_eq_ok hg
    exact ⟨hvalid.distinct, hvalid.linked, hvalid.acyclic⟩
  · rintro ⟨hdistinct, hlinked, hacyclic⟩
    exact ⟨d.flow, Valid.graph_eq_ok ⟨hdistinct, hlinked, hacyclic⟩⟩
  · rw [graph_of_linked h hlinked]
    split
    · rename_i ids hids
      exact absurd ((exists_order_flow_iff h hlinked).1 ⟨ids, hids⟩) hcircle
    · exact ⟨_, rfl⟩
  · obtain ⟨hvalid, rfl⟩ := valid_of_graph_eq_ok hg
    exact shownBy_flow hvalid.distinct (dangling_eq_nil_iff.1 hvalid.linked)

end Document

end Provenance

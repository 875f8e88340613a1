import Provenance.Graph.OfDocument
import Provenance.Proofs.Graph.Order
import Provenance.Proofs.Splice.Valid

/-!
# Documents that have a graph

The stages of a document's graph are its nodes, and the edges its connections. So a valid document
has a graph (`Valid.graph_eq_ok`), and a document with a graph is valid (`valid_of_graph_eq_ok`).
-/

open Relation

namespace Provenance

namespace Document

variable {d : Document}

theorem repeated_eq_nil_iff {seen ids : List String} :
    repeated seen ids = [] ↔ ids.Nodup ∧ ∀ id ∈ ids, id ∉ seen := by
  induction ids generalizing seen with
  | nil => simp [repeated]
  | cons first rest ih =>
    unfold repeated
    split
    · rename_i hseen
      simp [hseen]
    · rename_i hseen
      rw [ih, List.nodup_cons]
      constructor
      · rintro ⟨hrest, hnew⟩
        refine ⟨⟨fun hmem ↦ hnew first hmem (List.mem_cons_self ..), hrest⟩, fun id hid ↦ ?_⟩
        rcases List.mem_cons.1 hid with rfl | hid
        · exact hseen
        · exact fun hmem ↦ hnew id hid (List.mem_cons_of_mem _ hmem)
      · rintro ⟨⟨hfirst, hrest⟩, hnew⟩
        refine ⟨hrest, fun id hid hmem ↦ ?_⟩
        rcases List.mem_cons.1 hmem with rfl | hmem
        · exact hfirst hid
        · exact hnew id (List.mem_cons_of_mem _ hid) hmem

theorem nodup_repeated (seen ids : List String) : (repeated seen ids).Nodup := by
  induction ids generalizing seen with
  | nil => exact List.nodup_nil
  | cons first rest ih =>
    unfold repeated
    split
    · exact List.nodup_cons.2 ⟨by simp, (ih seen).filter _⟩
    · exact ih (first :: seen)

theorem mem_repeated_iff {seen ids : List String} {id : String} :
    id ∈ repeated seen ids ↔ id ∈ ids ∧ (id ∈ seen ∨ 1 < ids.count id) := by
  induction ids generalizing seen with
  | nil => simp [repeated]
  | cons first rest ih =>
    unfold repeated
    split <;> rename_i hseen <;> by_cases hfirst : id = first
    · subst hfirst
      simp [hseen]
    · simp [ih, hfirst, List.count_cons_of_ne (Ne.symm hfirst)]
    · subst hfirst
      simp [ih, hseen]
    · simp [ih, hfirst, List.count_cons_of_ne (Ne.symm hfirst)]

theorem duplicateIds_eq_nil_iff : d.duplicateIds = [] ↔ d.IdsDistinct := by
  simp [duplicateIds, repeated_eq_nil_iff, IdsDistinct]

theorem mem_duplicateIds_iff {id : String} :
    id ∈ d.duplicateIds ↔ 1 < (d.nodes.map Node.id).count id := by
  have hmem (h : 1 < (d.nodes.map Node.id).count id) : id ∈ d.nodes.map Node.id :=
    List.count_pos_iff.1 (Nat.zero_lt_of_lt h)
  rw [duplicateIds, mem_repeated_iff]
  exact ⟨fun h ↦ h.2.resolve_left List.not_mem_nil, fun h ↦ ⟨hmem h, .inr h⟩⟩

/-- The edges join what the connections join. -/
theorem ends_edgesAfter (before connections : List Connection) :
    (d.edgesAfter before connections).map (fun e ↦ (e.source, e.target)) =
      connections.map (fun c ↦ (c.source.node, c.target.node)) := by
  induction connections generalizing before with
  | nil => rfl
  | cons c rest ih =>
    rw [edgesAfter, List.map_cons, List.map_cons, ih]
    rfl

section

variable (h : d.IdsDistinct)

include h

theorem indexed_flow :
    d.flow.Indexed ∧ d.flow.nodes = d.nodes.map Node.stage ∧
      d.flow.edges = d.edgesAfter [] d.connections := by
  apply Graph.indexed_ofLists
  rw [List.map_map]
  exact h

theorem ids_flow : d.flow.nodes.map Stage.id = d.nodes.map Node.id := by
  rw [(indexed_flow h).2.1, List.map_map]
  rfl

theorem precedes_flow_iff {x y : String} : d.flow.Precedes x y ↔ d.Flows x y := by
  have hends := d.ends_edgesAfter [] d.connections
  have hedge : d.flow.Precedes x y ↔
      (x, y) ∈ d.flow.edges.map (fun e ↦ (e.source, e.target)) := by
    simp [Graph.Precedes]
  have hconnection : d.Flows x y ↔
      (x, y) ∈ d.connections.map (fun c ↦ (c.source.node, c.target.node)) := by
    simp [Flows]
  rw [hedge, hconnection, (indexed_flow h).2.2, hends]

theorem joined_flow (hlinked : d.dangling = []) : d.flow.Joined := by
  intro e he
  have hflows : d.Flows e.source e.target := (precedes_flow_iff h).1 ⟨e, he, rfl, rfl⟩
  obtain ⟨hsource, htarget⟩ := hasNode_of_flows hlinked hflows
  rw [ids_flow h]
  constructor
  · obtain ⟨n, hn, hid⟩ := hasNode_iff.1 hsource
    exact List.mem_map.2 ⟨n, hn, hid⟩
  · obtain ⟨n, hn, hid⟩ := hasNode_iff.1 htarget
    exact List.mem_map.2 ⟨n, hn, hid⟩

theorem acyclic_flow_iff : d.flow.Acyclic ↔ d.Acyclic := by
  have hsame : d.flow.Precedes = d.Flows := by
    funext x y
    exact propext (precedes_flow_iff h)
  unfold Graph.Acyclic Acyclic
  rw [hsame]

/-- The stages of a document whose connections join nodes have an order unless data flow in a
circle. -/
theorem exists_order_flow_iff (hlinked : d.dangling = []) :
    (∃ ids, d.flow.order = .ok ids) ↔ d.Acyclic := by
  rw [← acyclic_flow_iff h]
  exact Graph.exists_order_eq_ok_iff (indexed_flow h).1 (joined_flow h hlinked)

end

theorem graph_of_not_distinct (h : ¬d.IdsDistinct) :
    d.graph = .error (.duplicateNodes d.duplicateIds) := by
  unfold graph
  rw [if_pos (mt duplicateIds_eq_nil_iff.1 h)]

theorem graph_of_dangling (h : d.IdsDistinct) (hdangling : d.dangling ≠ []) :
    d.graph = .error (.danglingConnections d.dangling) := by
  have hduplicates : ¬d.duplicateIds ≠ [] := not_not.2 (duplicateIds_eq_nil_iff.2 h)
  unfold graph
  rw [if_neg hduplicates, if_neg (by simpa using hdangling)]

/-- What a document without other faults gives depends on the order of its stages. -/
theorem graph_of_linked (h : d.IdsDistinct) (hlinked : d.dangling = []) :
    d.graph = match d.flow.order with
      | .ok _ => .ok d.flow
      | .error report => .error (.structuralCycle report) := by
  have hduplicates : ¬d.duplicateIds ≠ [] := not_not.2 (duplicateIds_eq_nil_iff.2 h)
  unfold graph
  rw [if_neg hduplicates, hlinked]
  exact if_pos rfl

/-- A valid document has a graph. -/
theorem Valid.graph_eq_ok (h : d.Valid) : d.graph = .ok d.flow := by
  obtain ⟨ids, hids⟩ := (exists_order_flow_iff h.distinct h.linked).2 h.acyclic
  rw [graph_of_linked h.distinct h.linked, hids]

/-- Only a valid document has a graph. -/
theorem valid_of_graph_eq_ok {g : Graph} (h : d.graph = .ok g) : d.Valid ∧ g = d.flow := by
  have hdistinct : d.IdsDistinct := by
    by_contra hnot
    rw [graph_of_not_distinct hnot] at h
    cases h
  have hlinked : d.dangling = [] := by
    by_contra hnot
    rw [graph_of_dangling hdistinct hnot] at h
    cases h
  rw [graph_of_linked hdistinct hlinked] at h
  split at h
  · rename_i ids hids
    obtain rfl := Except.ok.inj h
    exact ⟨⟨hdistinct, hlinked, (exists_order_flow_iff hdistinct hlinked).1 ⟨ids, hids⟩⟩, rfl⟩
  · cases h

end Document

end Provenance

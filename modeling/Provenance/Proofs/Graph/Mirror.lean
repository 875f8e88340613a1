import Provenance.Proofs.Graph.Order
import Provenance.Proofs.Graph.Reading

/-!
# Graphs and their lists

Everything that is asked of a graph is answered from its index, and the answer is that of its lists of
stages and edges. Stages and edges are added independently of each other, in whatever order they come
(`addNode_addEdge`), so that a graph is what its two lists make (`Obtained.rebuilt`). That is why
the text of a graph, which holds nothing but the lists, is read as the same graph (`Obtained.mirrors`).
-/

namespace Provenance

namespace Graph

/-! ## Neighbours -/

theorem fresh_eq_eraseDups (seen ids : List String) :
    fresh seen ids = (ids.filter (· ∉ seen)).eraseDups := by
  induction ids generalizing seen with
  | nil => rfl
  | cons id rest ih =>
    unfold fresh
    split
    · rename_i hseen
      rw [ih, List.filter_cons_of_neg (by simpa using hseen)]
    · rename_i hnew
      rw [ih, List.filter_cons_of_pos (by simpa using hnew), List.eraseDups_cons, List.filter_filter]
      congr 2
      apply List.filter_congr
      intro x _
      by_cases hx : x = id <;> simp [hx]

/-- Neighbours are listed in the order in which they first occur. -/
theorem neighbours_eq_eraseDups (here there : Edge → String) (edges : List Edge) (id : String) :
    neighbours here there edges id =
      ((edges.filter (fun e ↦ here e = id)).map there).eraseDups := by
  simp [neighbours, fresh_eq_eraseDups]

/-! ## Positions of edges -/

/-- A table gives the positions of the edges that have an end at a stage, in order. -/
def Locates (table : Table (List Nat)) (here : Edge → String) (edges : List Edge) : Prop :=
  ∀ id, (listAt table id).map (edges[·]?) = (edges.filter (fun e ↦ here e = id)).map some

namespace Locates

variable {table : Table (List Nat)} {here : Edge → String} {edges : List Edge}

theorem lt_length (h : Locates table here edges) {id : String} {i : Nat} (hi : i ∈ listAt table id) :
    i < edges.length := by
  have hmem : edges[i]? ∈ (listAt table id).map (edges[·]?) := List.mem_map_of_mem hi
  rw [h id] at hmem
  obtain ⟨e, -, he⟩ := List.mem_map.1 hmem
  exact (List.getElem?_eq_some_iff.1 he.symm).1

theorem push (h : Locates table here edges) (e : Edge) :
    Locates (push (here e) edges.length table) here (edges ++ [e]) := by
  intro id
  have hold : (listAt table id).map ((edges ++ [e])[·]?) = (listAt table id).map (edges[·]?) :=
    List.map_congr_left fun i hi ↦ List.getElem?_append_left (h.lt_length hi)
  rw [listAt_push, List.filter_append]
  by_cases heq : here e = id
  · rw [if_pos heq, List.map_append, hold, h id]
    simp [heq]
  · rw [if_neg heq, hold, h id]
    simp [heq]

theorem length_eq (h : Locates table here edges) (id : String) :
    (listAt table id).length = (edges.filter (fun e ↦ here e = id)).length := by
  simpa using congrArg List.length (h id)

theorem filterMap_eq (h : Locates table here edges) (id : String) :
    (listAt table id).filterMap (edges[·]?) = edges.filter (fun e ↦ here e = id) := by
  have hmap := congrArg (List.filterMap (fun e ↦ e)) (h id)
  simpa [List.filterMap_map, Function.comp_def] using hmap

end Locates

/-- The edges of a graph are found from both of their ends. -/
structure Located (g : Graph) : Prop where
  arriving : Locates g.arriving Edge.target g.edges
  leaving : Locates g.leaving Edge.source g.edges

theorem Located.addNode {g : Graph} (h : g.Located) (stage : Stage) : (g.addNode stage).Located := by
  unfold Graph.addNode
  split <;> exact ⟨h.arriving, h.leaving⟩

theorem Located.addEdge {g : Graph} (h : g.Located) (e : Edge) : (g.addEdge e).Located :=
  ⟨h.arriving.push e, h.leaving.push e⟩

theorem located_ofLists (name : String) (source : Path) (stages : List Stage) (edges : List Edge) :
    (ofLists name source stages edges).Located := by
  have hempty : (empty name source).Located := ⟨fun _ ↦ rfl, fun _ ↦ rfl⟩
  have hstages : (stages.foldl Graph.addNode (empty name source)).Located :=
    List.foldlRecOn stages _ hempty fun _ hg stage _ ↦ hg.addNode stage
  exact List.foldlRecOn edges _ hstages fun _ hg e _ ↦ hg.addEdge e

/-! ## What the lists make -/

/-- Stages and edges are added independently of each other. -/
theorem addNode_addEdge (g : Graph) (stage : Stage) (e : Edge) :
    (g.addEdge e).addNode stage = (g.addNode stage).addEdge e := by
  by_cases htaken : g.hasNode stage.id
  · rw [addNode, addNode, if_pos htaken, if_pos (by exact htaken)]
  · rw [addNode, addNode, if_neg htaken, if_neg (by exact htaken)]
    rfl

theorem addNode_foldl_addEdge (g : Graph) (stage : Stage) (edges : List Edge) :
    (edges.foldl addEdge g).addNode stage = edges.foldl addEdge (g.addNode stage) := by
  induction edges generalizing g with
  | nil => rfl
  | cons e rest ih => rw [List.foldl_cons, List.foldl_cons, ih, addNode_addEdge]

/-- Two graphs differ in nothing but what their stages are apart from their identifiers. -/
structure SameIndex (g g' : Graph) : Prop where
  eq : g' = { g with nodes := g'.nodes }
  length : g'.nodes.length = g.nodes.length

namespace SameIndex

section

variable {g g' : Graph} (h : SameIndex g g')

include h

theorem addNode {stage stage' : Stage} (hid : stage.id = stage'.id) :
    SameIndex (g.addNode stage) (g'.addNode stage') := by
  obtain ⟨heq, hlength⟩ := h
  generalize g'.nodes = nodes at heq hlength
  subst heq
  unfold Graph.addNode
  simp only [hasNode, hid, hlength]
  split
  · exact ⟨rfl, hlength⟩
  · exact ⟨rfl, by simp [hlength]⟩

theorem addEdge (e : Edge) : SameIndex (g.addEdge e) (g'.addEdge e) := by
  obtain ⟨heq, hlength⟩ := h
  generalize g'.nodes = nodes at heq hlength
  subst heq
  exact ⟨rfl, hlength⟩

theorem foldl_addNode {stages stages' : List Stage}
    (hids : stages.map Stage.id = stages'.map Stage.id) :
    SameIndex (stages.foldl Graph.addNode g) (stages'.foldl Graph.addNode g') := by
  induction stages generalizing stages' g g' with
  | nil => cases stages' with
    | nil => exact h
    | cons stage' rest' => cases hids
  | cons stage rest ih =>
    cases stages' with
    | nil => cases hids
    | cons stage' rest' =>
      obtain ⟨hid, hrest⟩ := List.cons.inj hids
      exact ih (h.addNode hid) hrest

theorem foldl_addEdge (edges : List Edge) :
    SameIndex (edges.foldl Graph.addEdge g) (edges.foldl Graph.addEdge g') := by
  induction edges generalizing g g' with
  | nil => exact h
  | cons e rest ih => exact ih (h.addEdge e)

end

theorem ofLists (name : String) (source : Path) {stages stages' : List Stage}
    (hids : stages.map Stage.id = stages'.map Stage.id) (edges : List Edge) :
    SameIndex (Graph.ofLists name source stages edges) (Graph.ofLists name source stages' edges) := by
  have hempty : SameIndex (empty name source) (empty name source) := ⟨rfl, rfl⟩
  exact (hempty.foldl_addNode hids).foldl_addEdge edges

end SameIndex

/-- A graph is what its stages and edges make. -/
def Rebuilt (g : Graph) : Prop :=
  g = ofLists g.name g.source g.nodes g.edges

namespace Rebuilt

variable {g : Graph} (h : g.Rebuilt)

include h

theorem addNode (stage : Stage) : (g.addNode stage).Rebuilt := by
  by_cases htaken : g.hasNode stage.id
  · rwa [Graph.addNode, if_pos htaken]
  · have hadded : g.addNode stage = ofLists g.name g.source (g.nodes ++ [stage]) g.edges := by
      conv_lhs => rw [h]
      rw [ofLists, ofLists, addNode_foldl_addEdge, List.foldl_concat]
    unfold Rebuilt
    conv_lhs => rw [hadded]
    rw [Graph.addNode, if_neg htaken]

theorem addEdge (e : Edge) : (g.addEdge e).Rebuilt := by
  have hadded : g.addEdge e = ofLists g.name g.source g.nodes (g.edges ++ [e]) := by
    conv_lhs => rw [h]
    rw [ofLists, ofLists, List.foldl_concat]
  exact hadded

theorem setLayer (hg : g.Indexed) (id : String) (layer : Option Layer) :
    (g.setLayer id layer).Rebuilt := by
  unfold Graph.setLayer
  split
  · exact h
  · rename_i i _
    have hids := map_id_modify g.nodes i layer
    have hsame := SameIndex.ofLists g.name g.source hids.symm g.edges
    have hnodes := (indexed_ofLists g.name g.source (hids ▸ hg.distinct) g.edges).2.1
    have heq := hsame.eq
    rw [hnodes, ← h] at heq
    exact heq.symm

end Rebuilt

theorem rebuilt_ofLists (name : String) (source : Path) (stages : List Stage) (edges : List Edge) :
    (ofLists name source stages edges).Rebuilt := by
  have hempty : (empty name source).Rebuilt := rfl
  have hstages : (stages.foldl addNode (empty name source)).Rebuilt :=
    List.foldlRecOn stages _ hempty fun _ hg stage _ ↦ hg.addNode stage
  exact List.foldlRecOn edges _ hstages fun _ hg e _ ↦ hg.addEdge e

theorem Obtained.rebuilt {g : Graph} (h : g.Obtained) : g.Rebuilt := by
  induction h with
  | empty name source => rfl
  | addNode _ stage ih => exact ih.addNode stage
  | addEdge _ e ih => exact ih.addEdge e
  | setLayer hg id layer ih => exact ih.setLayer hg.indexed id layer
  | read h =>
    obtain ⟨name, source, stages, edges, rfl⟩ := exists_ofLists_of_ofJson? h
    exact rebuilt_ofLists name source stages edges

section

variable {g : Graph} (hg : g.Indexed)

include hg

theorem find?_positions_eq_some_iff {id : String} {i : Nat} :
    Table.find? id g.positions = some i ↔ (g.nodes.map Stage.id)[i]? = some id := by
  rw [hg.positions, List.idxOf?_eq_some_iff, List.getElem?_eq_some_iff]
  refine ⟨fun ⟨hi, heq, _⟩ ↦ ⟨hi, heq⟩, fun ⟨hi, heq⟩ ↦ ⟨hi, heq, fun j hj hsame ↦ ?_⟩⟩
  have hij := (hg.distinct.getElem_inj_iff).1 (hsame.trans heq.symm)
  omega

theorem node?_eq_find? (id : String) : g.node? id = g.nodes.find? (fun stage ↦ stage.id = id) := by
  rw [node?, hg.positions, List.idxOf?, List.findIdx?_map, List.find?_eq_bind_findIdx?_getElem?]
  rfl

end

/-- A graph answers from its index what its lists say, and its text is read as the same graph. Stages
have distinct identifiers and are found at their positions; the edges that enter and leave a stage are
given in order, and its neighbours in the order in which they first occur. -/
theorem Obtained.mirrors {g : Graph} (h : g.Obtained) :
    (g.nodes.map Stage.id).Nodup ∧
      (∀ id i, Table.find? id g.positions = some i ↔ (g.nodes.map Stage.id)[i]? = some id) ∧
      (∀ id, g.node? id = g.nodes.find? (fun stage ↦ stage.id = id)) ∧
      (∀ id, g.incoming id = g.edges.filter (fun e ↦ e.target = id) ∧
        g.outgoing id = g.edges.filter (fun e ↦ e.source = id) ∧
        g.inDegree id = (g.edges.filter (fun e ↦ e.target = id)).length ∧
        g.outDegree id = (g.edges.filter (fun e ↦ e.source = id)).length ∧
        g.parents id = ((g.edges.filter (fun e ↦ e.target = id)).map Edge.source).eraseDups ∧
        g.children id = ((g.edges.filter (fun e ↦ e.source = id)).map Edge.target).eraseDups) ∧
      g.sources = g.nodes.filter (fun stage ↦ ∀ e ∈ g.edges, e.target ≠ stage.id) ∧
      g.sinks = g.nodes.filter (fun stage ↦ ∀ e ∈ g.edges, e.source ≠ stage.id) ∧
      (g.Fits → ofText? g.text = some g) := by
  have hg := h.indexed
  have hrebuilt := h.rebuilt
  have hlocated : g.Located := hrebuilt ▸ located_ofLists ..
  refine ⟨hg.distinct, fun id i ↦ find?_positions_eq_some_iff hg, node?_eq_find? hg,
    fun id ↦ ⟨hlocated.arriving.filterMap_eq id, hlocated.leaving.filterMap_eq id,
      hlocated.arriving.length_eq id, hlocated.leaving.length_eq id, ?_, ?_⟩, ?_, ?_, fun hfits ↦ ?_⟩
  · rw [hg.parents, neighbours_eq_eraseDups]
  · rw [hg.children, neighbours_eq_eraseDups]
  · refine List.filter_congr fun stage _ ↦ ?_
    rw [inDegree, hlocated.arriving.length_eq]
    simp
  · refine List.filter_congr fun stage _ ↦ ?_
    rw [outDegree, hlocated.leaving.length_eq]
    simp
  · rw [ofText?_text hfits, ← hrebuilt]

/-- Edges that are added before their stages, an identifier that is added twice, and stages and edges
with all that can be written of them. -/
def mixed : Graph :=
  (empty "mixed" ⟨"mixed.yxmd"⟩)
    |>.addEdge ⟨"b", "u", "True", "Input2", .unionMember 0, some "True"⟩
    |>.addNode ⟨"u", "mixed#u", "union", .union, "Union", false, none, some .sink⟩
    |>.addNode ⟨"u", "mixed#u", "again", .filter, "Filter", false, none, none⟩
    |>.addEdge ⟨"a", "u", "Output", "Input", .unionMember 1, none⟩
    |>.addEdge ⟨"b", "u", "False", "Input", .anchor "say \"no\"", some "False"⟩
    |>.addNode ⟨"a", "mixed#a", "gone", .macroCall, "", true, some (.cyclic ["A", "A"]), none⟩
    |>.addNode ⟨"b", "mixed#b", "", .macroCall, "", true, some (.anchorMismatch ⟨1, 2⟩ ⟨0, 1⟩), none⟩

theorem mirrors_mixed :
    mixed.Obtained ∧ mixed.Fits ∧ mixed.nodes.map Stage.name = ["union", "gone", ""] ∧
      mixed.incoming "u" = mixed.edges ∧ mixed.parents "u" = ["b", "a"] ∧
      mixed.inDegree "u" = 3 ∧ ofText? mixed.text = some mixed := by
  have hobtained : mixed.Obtained :=
    .addNode (.addNode (.addEdge (.addEdge (.addNode (.addNode (.addEdge (.empty ..) _) _) _) _)
      _) _) _
  have hfits : mixed.Fits := ⟨by decide +kernel, by decide +kernel⟩
  obtain ⟨-, -, -, hends, -, -, hread⟩ := hobtained.mirrors
  obtain ⟨hincoming, -, hdegree, -, hparents, -⟩ := hends "u"
  exact ⟨hobtained, hfits, by decide +kernel, hincoming.trans (by decide +kernel),
    hparents.trans (by decide +kernel), hdegree.trans (by decide +kernel), hread hfits⟩

end Graph

end Provenance

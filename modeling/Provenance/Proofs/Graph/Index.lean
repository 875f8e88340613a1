import Mathlib.Data.List.Nodup
import Provenance.Graph.Json

/-!
# The index of a graph

A graph is looked up through its index, never through its lists. In a graph to which stages and
edges were added one by one the index says what the lists say (`Graph.Indexed`): an identifier is
known if a stage has it, and the parents of a stage are the distinct sources of the edges that enter
it, in the order in which they first occur. This holds of every graph that can be obtained, also of
one that is read and whose text lists what it likes (`Obtained.indexed`).
-/

namespace Provenance

namespace Graph

section

variable {α : Type}

theorem listAt_push (key key' : String) (value : α) (table : Table (List α)) :
    listAt (push key value table) key' =
      if key = key' then listAt table key' ++ [value] else listAt table key' := by
  unfold listAt push
  rw [Table.find?_insert]
  split
  · rename_i heq
    rw [heq, Option.getD_some, listAt]
  · rfl

theorem listAt_pushNew [DecidableEq α] (key key' : String) (value : α) (table : Table (List α)) :
    listAt (pushNew key value table) key' =
      if key = key' ∧ value ∉ listAt table key' then listAt table key' ++ [value]
      else listAt table key' := by
  unfold pushNew
  by_cases hkey : key = key'
  · subst hkey
    split
    · rename_i hmem
      simp [hmem]
    · rename_i hnew
      rw [listAt_push, if_pos rfl, if_pos ⟨rfl, hnew⟩]
  · have hnot : ¬(key = key' ∧ value ∉ listAt table key') := fun h ↦ hkey h.1
    rw [if_neg hnot]
    split
    · rfl
    · rw [listAt_push, if_neg hkey]

end

theorem notMem_of_nodup_append_cons {before after : List String} {id : String}
    (h : (before ++ id :: after).Nodup) : id ∉ before := fun hmem ↦
  (List.nodup_append.1 h).2.2 id hmem id (List.mem_cons_self ..) rfl

/-- Of two elements of a list without repetition the first has the lower position. -/
theorem pairwise_idxOf {ids : List String} (h : ids.Nodup) :
    ids.Pairwise (fun x y ↦ ids.idxOf x < ids.idxOf y) := by
  rw [List.pairwise_iff_getElem]
  intro i j hi hj hlt
  rwa [h.idxOf_getElem i hi, h.idxOf_getElem j hj]

theorem mem_fresh {seen ids : List String} {id : String} :
    id ∈ fresh seen ids ↔ id ∈ ids ∧ id ∉ seen := by
  induction ids generalizing seen with
  | nil => simp [fresh]
  | cons first rest ih =>
    unfold fresh
    split
    · rename_i hseen
      rw [ih, List.mem_cons]
      constructor
      · exact fun h ↦ ⟨.inr h.1, h.2⟩
      · rintro ⟨rfl | hid, hnot⟩
        · exact absurd hseen hnot
        · exact ⟨hid, hnot⟩
    · rename_i hseen
      simp only [List.mem_cons, ih, not_or]
      by_cases heq : id = first
      · simp [heq, hseen]
      · simp [heq]

theorem nodup_fresh (seen ids : List String) : (fresh seen ids).Nodup := by
  induction ids generalizing seen with
  | nil => exact List.nodup_nil
  | cons first rest ih =>
    unfold fresh
    split
    · exact ih seen
    · refine List.nodup_cons.2 ⟨fun hmem ↦ ?_, ih _⟩
      exact (mem_fresh.1 hmem).2 (List.mem_cons_self ..)

theorem fresh_append_singleton (seen ids : List String) (id : String) :
    fresh seen (ids ++ [id]) =
      if id ∉ fresh seen ids ∧ id ∉ seen then fresh seen ids ++ [id] else fresh seen ids := by
  induction ids generalizing seen with
  | nil =>
    by_cases hseen : id ∈ seen <;> simp [fresh, hseen]
  | cons first rest ih =>
    rw [List.cons_append]
    unfold fresh
    split
    · exact ih seen
    · rename_i hfirst
      rw [ih]
      by_cases heq : id = first
      · simp [heq]
      · simp only [List.mem_cons, heq, false_or, List.cons_append]
        split <;> rfl

/-- The neighbours that some edges give a stage. -/
def neighbours (here there : Edge → String) (edges : List Edge) (id : String) : List String :=
  fresh [] ((edges.filter (fun e ↦ here e = id)).map there)

theorem mem_neighbours {here there : Edge → String} {edges : List Edge} {id other : String} :
    other ∈ neighbours here there edges id ↔ ∃ e ∈ edges, here e = id ∧ there e = other := by
  simp [neighbours, mem_fresh, and_assoc]

theorem neighbours_append_singleton (here there : Edge → String) (edges : List Edge) (e : Edge)
    (id : String) :
    neighbours here there (edges ++ [e]) id =
      if here e = id ∧ there e ∉ neighbours here there edges id then
        neighbours here there edges id ++ [there e]
      else neighbours here there edges id := by
  unfold neighbours
  rw [List.filter_append, List.map_append]
  by_cases hid : here e = id
  · simp [hid, fresh_append_singleton]
  · simp [hid]

/-- An edge leads from one stage to another. -/
def Precedes (g : Graph) (x y : String) : Prop :=
  ∃ e ∈ g.edges, e.source = x ∧ e.target = y

/-- The index says what the lists say. -/
structure Indexed (g : Graph) : Prop where
  distinct : (g.nodes.map Stage.id).Nodup
  positions : ∀ id, Table.find? id g.positions = (g.nodes.map Stage.id).idxOf? id
  parents : ∀ id, g.parents id = neighbours Edge.target Edge.source g.edges id
  children : ∀ id, g.children id = neighbours Edge.source Edge.target g.edges id

theorem indexed_empty (name : String) (source : Path) : (empty name source).Indexed where
  distinct := List.nodup_nil
  positions _ := rfl
  parents _ := rfl
  children _ := rfl

/-- The identifiers of stages do not depend on their layers. -/
theorem map_id_modify (stages : List Stage) (i : Nat) (layer : Option Layer) :
    (stages.modify i (fun stage ↦ { stage with layer := layer })).map Stage.id =
      stages.map Stage.id := by
  apply List.ext_getElem?
  intro j
  rw [List.getElem?_map, List.getElem?_map, List.getElem?_modify]
  cases stages[j]? with
  | none => rfl
  | some stage => split <;> rfl

section

variable {g : Graph} (h : g.Indexed)

include h

theorem Indexed.hasNode_iff {id : String} : g.hasNode id ↔ id ∈ g.nodes.map Stage.id := by
  rw [hasNode, h.positions, List.isSome_idxOf?]

theorem Indexed.mem_parents {x y : String} : x ∈ g.parents y ↔ g.Precedes x y := by
  rw [h.parents, mem_neighbours, Precedes]
  simp only [and_comm]

theorem Indexed.mem_children {x y : String} : y ∈ g.children x ↔ g.Precedes x y := by
  rw [h.children, mem_neighbours, Precedes]

theorem Indexed.nodup_parents (id : String) : (g.parents id).Nodup :=
  h.parents id ▸ nodup_fresh _ _

theorem Indexed.nodup_children (id : String) : (g.children id).Nodup :=
  h.children id ▸ nodup_fresh _ _

theorem Indexed.addNode (stage : Stage) : (g.addNode stage).Indexed := by
  unfold Graph.addNode
  split
  · exact h
  · rename_i hnew
    have hid : stage.id ∉ g.nodes.map Stage.id := mt h.hasNode_iff.2 hnew
    refine ⟨?_, fun id ↦ ?_, h.parents, h.children⟩
    · rw [List.map_append, List.map_singleton, ← List.concat_eq_append]
      exact h.distinct.concat hid
    · have hnone : (g.nodes.map Stage.id).idxOf? stage.id = none := List.idxOf?_eq_none_iff.2 hid
      dsimp only
      rw [Table.find?_insert, h.positions, List.map_append, List.map_singleton]
      unfold List.idxOf? at hnone ⊢
      rw [List.findIdx?_append]
      by_cases heq : stage.id = id
      · subst heq
        simp [hnone]
      · simp [heq]

theorem Indexed.addEdge (e : Edge) : (g.addEdge e).Indexed where
  distinct := h.distinct
  positions := h.positions
  parents id := by
    have hparents := h.parents id
    unfold Graph.parents Graph.addEdge at *
    rw [listAt_pushNew, hparents, neighbours_append_singleton]
  children id := by
    have hchildren := h.children id
    unfold Graph.children Graph.addEdge at *
    rw [listAt_pushNew, hchildren, neighbours_append_singleton]

theorem Indexed.setLayer (id : String) (layer : Option Layer) : (g.setLayer id layer).Indexed := by
  unfold Graph.setLayer
  split
  · exact h
  · rename_i i _
    have hids := map_id_modify g.nodes i layer
    exact ⟨hids.symm ▸ h.distinct, fun id ↦ hids.symm ▸ h.positions id, h.parents, h.children⟩

end

/-- The stages of which the graph is made need not be distinct. -/
theorem Indexed.ofLists (name : String) (source : Path) (stages : List Stage) (edges : List Edge) :
    (Graph.ofLists name source stages edges).Indexed := by
  have hstages : (stages.foldl Graph.addNode (Graph.empty name source)).Indexed :=
    List.foldlRecOn stages _ (indexed_empty name source) fun _ hg stage _ ↦ hg.addNode stage
  exact List.foldlRecOn edges _ hstages fun _ hg e _ ↦ hg.addEdge e

/-- The graphs that can be obtained: stages and edges are added to an empty graph in any order, and
layers are set; or a graph is read. -/
inductive Obtained : Graph → Prop
  | empty (name : String) (source : Path) : Obtained (.empty name source)
  | addNode {g : Graph} (h : Obtained g) (stage : Stage) : Obtained (g.addNode stage)
  | addEdge {g : Graph} (h : Obtained g) (e : Edge) : Obtained (g.addEdge e)
  | setLayer {g : Graph} (h : Obtained g) (id : String) (layer : Option Layer) :
    Obtained (g.setLayer id layer)
  | read {value : Json} {g : Graph} (h : ofJson? value = some g) : Obtained g

theorem Obtained.ofLists (name : String) (source : Path) (stages : List Stage)
    (edges : List Edge) : (Graph.ofLists name source stages edges).Obtained := by
  have hstages : (stages.foldl Graph.addNode (Graph.empty name source)).Obtained :=
    List.foldlRecOn stages _ (.empty name source) fun _ hg stage _ ↦ hg.addNode stage
  exact List.foldlRecOn edges _ hstages fun _ hg e _ ↦ hg.addEdge e

/-- A graph is read as a list of stages and one of edges. -/
theorem exists_ofLists_of_ofJson? {value : Json} {g : Graph} (h : ofJson? value = some g) :
    ∃ name source stages edges, g = Graph.ofLists name source stages edges := by
  simp only [ofJson?, Option.bind_eq_bind, Option.bind_eq_some_iff, Option.pure_def,
    Option.some.injEq] at h
  obtain ⟨_, _, name, _, source, _, stages, _, edges, _, rfl⟩ := h
  exact ⟨name, source, stages, edges, rfl⟩

theorem Obtained.indexed {g : Graph} (h : g.Obtained) : g.Indexed := by
  induction h with
  | empty name source => exact indexed_empty name source
  | addNode _ stage ih => exact ih.addNode stage
  | addEdge _ e ih => exact ih.addEdge e
  | setLayer _ id layer ih => exact ih.setLayer id layer
  | read h =>
    obtain ⟨name, source, stages, edges, rfl⟩ := exists_ofLists_of_ofJson? h
    exact .ofLists name source stages edges

/-- Stages with distinct identifiers are all added, and in order. -/
theorem nodes_foldl_addNode {g : Graph} (h : g.Indexed) {stages : List Stage}
    (hdistinct : ((g.nodes ++ stages).map Stage.id).Nodup) :
    (stages.foldl Graph.addNode g).Indexed ∧
      (stages.foldl Graph.addNode g).nodes = g.nodes ++ stages ∧
      (stages.foldl Graph.addNode g).edges = g.edges := by
  induction stages generalizing g with
  | nil => exact ⟨h, (List.append_nil _).symm, rfl⟩
  | cons stage rest ih =>
    have hnew : ¬g.hasNode stage.id := by
      rw [h.hasNode_iff]
      intro hmem
      rw [List.map_append, List.map_cons, List.nodup_append] at hdistinct
      exact hdistinct.2.2 _ hmem _ (List.mem_cons_self ..) rfl
    have hnodes : (g.addNode stage).nodes = g.nodes ++ [stage] := by
      rw [Graph.addNode, if_neg hnew]
    have hedges : (g.addNode stage).edges = g.edges := by
      rw [Graph.addNode, if_neg hnew]
    rw [List.foldl_cons]
    have hrest := ih (h.addNode stage) (by rwa [hnodes, List.append_assoc])
    rwa [hnodes, hedges, List.append_assoc] at hrest

theorem edges_foldl_addEdge {g : Graph} (h : g.Indexed) (edges : List Edge) :
    (edges.foldl Graph.addEdge g).Indexed ∧
      (edges.foldl Graph.addEdge g).nodes = g.nodes ∧
      (edges.foldl Graph.addEdge g).edges = g.edges ++ edges := by
  induction edges generalizing g with
  | nil => exact ⟨h, rfl, (List.append_nil _).symm⟩
  | cons e rest ih =>
    obtain ⟨hindexed, hnodes, hedges⟩ := ih (h.addEdge e)
    refine ⟨hindexed, hnodes, ?_⟩
    rw [List.foldl_cons, hedges, Graph.addEdge, List.append_assoc]
    rfl

/-- A graph made of stages with distinct identifiers has these stages and edges, and an index that
says so. -/
theorem indexed_ofLists (name : String) (source : Path) {stages : List Stage}
    (hdistinct : (stages.map Stage.id).Nodup) (edges : List Edge) :
    (ofLists name source stages edges).Indexed ∧
      (ofLists name source stages edges).nodes = stages ∧
      (ofLists name source stages edges).edges = edges := by
  have hempty := indexed_empty name source
  obtain ⟨hindexed, hnodes, hedges⟩ := nodes_foldl_addNode hempty hdistinct
  obtain ⟨hindexed', hnodes', hedges'⟩ := edges_foldl_addEdge hindexed edges
  exact ⟨hindexed', hnodes'.trans hnodes, hedges'.trans (by rw [hedges]; rfl)⟩

end Graph

end Provenance

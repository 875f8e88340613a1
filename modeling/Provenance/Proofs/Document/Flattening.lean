import Mathlib.Data.List.Forall2
import Provenance.Document.Source

/-!
# Tools inside containers

A tool is found among the elements of a workflow by its address: the indices of the elements that
lead to it, from the tools of the workflow through the contents of one tool after another
(`Node.Place.IsOf`). The nodes of a document are the tools with an address, in lexicographic order
of their addresses, which is the order of the file, and each says which tool is around it. The
connections are those of the elements that name a tool at both ends (`Document.ofElement_flattens`).
-/

namespace Provenance

open Markup (Element)

namespace Node

/-- Whether an element describes a tool with a given identifier. -/
def IsTool (e : Element) (id : String) : Prop :=
  e.name = "Node" ∧ e.attribute? "ToolID" = some id

/-- A tool below some element: its address from there, the identifier of the tool around it, its
element and its own identifier. -/
structure Place where
  address : List Nat
  container : Option String
  element : Element
  id : String

namespace Place

/-- The place seen from one level above, where the element that it lies in has an index. -/
def under (i : Nat) (p : Place) : Place :=
  { p with address := i :: p.address }

/-- The places of an element's tools: its own, and those of the elements in its first contents. An
element that describes no tool has none. -/
inductive IsOf : Option String → Element → Place → Prop
  | self {container : Option String} {e : Element} {id : String} (h : IsTool e id) :
      IsOf container e ⟨[], container, e, id⟩
  | inside {container : Option String} {e contents inner : Element} {id : String} {i : Nat}
      {p : Place} (h : IsTool e id) (hcontents : e.child? "ChildNodes" = some contents)
      (hinner : contents.children[i]? = some inner) (hp : IsOf (some id) inner p) :
      IsOf container e (p.under i)

/-- The places of the tools of some elements, of which the first has a given index. -/
def IsAmong (container : Option String) (elements : List Element) (first : Nat) (p : Place) : Prop :=
  ∃ i e inner, elements[i]? = some e ∧ IsOf container e inner ∧ p = inner.under (first + i)

/-- The node of the tool at a place. -/
def node (p : Place) : Node :=
  ofElement p.id p.container p.element

/-- All places with a property, in the order of their addresses. -/
structure Lists (property : Place → Prop) (places : List Place) : Prop where
  ordered : places.Pairwise (fun p q ↦ p.address < q.address)
  complete : ∀ p, p ∈ places ↔ property p

theorem isAmong_nil (container : Option String) (first : Nat) (p : Place) :
    ¬IsAmong container [] first p := by
  rintro ⟨i, e, inner, he, -⟩
  cases he

theorem isAmong_cons {container : Option String} {e : Element} {rest : List Element} {first : Nat}
    {p : Place} : IsAmong container (e :: rest) first p ↔
      (∃ inner, IsOf container e inner ∧ p = inner.under first) ∨
        IsAmong container rest (first + 1) p := by
  constructor
  · rintro ⟨i, tool, inner, htool, hinner, rfl⟩
    cases i with
    | zero =>
      cases htool
      exact .inl ⟨inner, hinner, rfl⟩
    | succ i => exact .inr ⟨i, tool, inner, htool, hinner, by rw [Nat.add_right_comm]; rfl⟩
  · rintro (⟨inner, hinner, rfl⟩ | ⟨i, tool, inner, htool, hinner, rfl⟩)
    · exact ⟨0, e, inner, rfl, hinner, rfl⟩
    · exact ⟨i + 1, tool, inner, htool, hinner, by rw [Nat.add_right_comm]; rfl⟩

/-- The places below one element stand before those below the ones after it. -/
theorem Lists.cons {container : Option String} {e : Element} {rest : List Element} {first : Nat}
    {places later : List Place} (h : Lists (IsOf container e) places)
    (hlater : Lists (IsAmong container rest (first + 1)) later) :
    Lists (IsAmong container (e :: rest) first) (places.map (under first) ++ later) where
  ordered := by
    refine List.pairwise_append.2 ⟨?_, hlater.ordered, ?_⟩
    · exact List.pairwise_map.2 (h.ordered.imp fun hlt ↦ List.cons_lt_cons_iff.2 (.inr ⟨rfl, hlt⟩))
    · intro p hp q hq
      obtain ⟨inner, -, rfl⟩ := List.mem_map.1 hp
      obtain ⟨i, _, inner', -, -, rfl⟩ := (hlater.complete q).1 hq
      exact List.cons_lt_cons_iff.2 (.inl (by omega))
  complete p := by
    rw [List.mem_append, List.mem_map, isAmong_cons, hlater.complete]
    simp only [h.complete, eq_comm]

end Place

/-! ## The nodes of a workflow -/

theorem collectContents_eq (id : String) (children : List Element) :
    collectContents id children =
      match children.find? (fun c ↦ c.name = contentsName) with
      | some contents => collectAll (some id) contents.children
      | none => [] := by
  induction children with
  | nil => rfl
  | cons child rest ih =>
    obtain ⟨name, attributes, children, text⟩ := child
    unfold collectContents
    by_cases hname : name = contentsName
    · simp [hname]
    · simp [hname, ih]

theorem collect_eq (container : Option String) (e : Element) : collect container e =
    match e.attribute? "ToolID" with
    | none => []
    | some id => ofElement id container e ::
        match e.child? contentsName with
        | some contents => collectAll (some id) contents.children
        | none => [] := by
  obtain ⟨name, attributes, children, text⟩ := e
  unfold collect
  simp only [collectContents_eq]
  rfl

namespace Place

theorem IsOf.isTool {container : Option String} {e : Element} {p : Place} (h : IsOf container e p) :
    ∃ id, IsTool e id := by
  cases h with
  | self h => exact ⟨_, h⟩
  | inside h _ _ _ => exact ⟨_, h⟩

theorem isOf_iff {container : Option String} {e : Element} {id : String} {p : Place}
    (h : IsTool e id) : IsOf container e p ↔ p = ⟨[], container, e, id⟩ ∨
      ∃ contents, e.child? "ChildNodes" = some contents ∧
        IsAmong (some id) contents.children 0 p := by
  constructor
  · intro hp
    cases hp with
    | self h' =>
      obtain rfl := Option.some.inj (h.2.symm.trans h'.2)
      exact .inl rfl
    | @inside _ _ contents inner _ i p h' hcontents hinner hp =>
      obtain rfl := Option.some.inj (h.2.symm.trans h'.2)
      exact .inr ⟨contents, hcontents, i, inner, p, hinner, hp, by rw [Nat.zero_add]⟩
  · rintro (rfl | ⟨contents, hcontents, i, inner, p, hinner, hp, rfl⟩)
    · exact .self h
    · rw [Nat.zero_add]
      exact .inside h hcontents hinner hp

theorem lists_nil {container : Option String} {e : Element} (h : ∀ id, ¬IsTool e id) :
    Lists (IsOf container e) [] where
  ordered := .nil
  complete p := by
    simp only [List.not_mem_nil, false_iff]
    exact fun hp ↦ hp.isTool.elim h

/-- The place of a tool stands before those of the tools inside it. -/
theorem Lists.self {container : Option String} {e : Element} {id : String} {places : List Place}
    (h : IsTool e id) (hplaces : Lists (fun p ↦ ∃ contents, e.child? "ChildNodes" = some contents ∧
      IsAmong (some id) contents.children 0 p) places) :
    Lists (IsOf container e) (⟨[], container, e, id⟩ :: places) where
  ordered := by
    refine List.pairwise_cons.2 ⟨fun p hp ↦ ?_, hplaces.ordered⟩
    obtain ⟨contents, -, i, inner, p, -, -, rfl⟩ := (hplaces.complete p).1 hp
    exact List.nil_lt_cons ..
  complete p := by rw [List.mem_cons, hplaces.complete, isOf_iff h]

theorem exists_lists_among {container : Option String} {elements : List Element}
    (h : ∀ e ∈ elements, e.name = elementName →
      ∃ places, Lists (IsOf container e) places ∧ collect container e = places.map node)
    (first : Nat) : ∃ places, Lists (IsAmong container elements first) places ∧
      collectAll container elements = places.map node := by
  induction elements generalizing first with
  | nil => exact ⟨[], ⟨.nil, by simp [isAmong_nil]⟩, rfl⟩
  | cons e rest ih =>
    obtain ⟨he, hrest⟩ := List.forall_mem_cons.1 h
    obtain ⟨later, hlater, hnodes⟩ := ih hrest (first + 1)
    by_cases hname : e.name = elementName
    · obtain ⟨places, hplaces, hown⟩ := he hname
      refine ⟨_, hplaces.cons hlater, ?_⟩
      rw [collectAll, if_pos hname, hown, hnodes, List.map_append, List.map_map]
      rfl
    · refine ⟨_, (lists_nil fun id h ↦ hname h.1).cons hlater, ?_⟩
      rw [collectAll, if_neg hname, hnodes]
      rfl

theorem sizeOf_lt_of_mem_children {e child : Element} (h : child ∈ e.children) :
    sizeOf child < sizeOf e := by
  obtain ⟨name, attributes, children, text⟩ := e
  have hlt : sizeOf child < sizeOf children := List.sizeOf_lt_of_mem h
  simp only [Markup.Element.mk.sizeOf_spec]
  omega

/-- The nodes of a tool and of those inside it are those at its places. -/
theorem exists_lists (container : Option String) (e : Element) (hname : e.name = elementName) :
    ∃ places, Lists (IsOf container e) places ∧ collect container e = places.map node := by
  rw [collect_eq]
  cases hid : e.attribute? "ToolID" with
  | none =>
    refine ⟨[], lists_nil fun id h ↦ ?_, rfl⟩
    rw [h.2] at hid
    cases hid
  | some id =>
    have htool : IsTool e id := ⟨hname, hid⟩
    cases hcontents : e.child? contentsName with
    | none =>
      refine ⟨_, Lists.self htool ⟨.nil, fun p ↦ ?_⟩, rfl⟩
      simp only [List.not_mem_nil, false_iff]
      rintro ⟨contents, hcontents', -⟩
      cases hcontents.symm.trans hcontents'
    | some contents =>
      obtain ⟨places, hplaces, hnodes⟩ :=
        exists_lists_among (fun inner hinner ↦ exists_lists (some id) inner) 0
      refine ⟨_, Lists.self htool ⟨hplaces.ordered, fun p ↦ ?_⟩, congrArg _ hnodes⟩
      rw [hplaces.complete]
      exact ⟨fun h ↦ ⟨contents, hcontents, h⟩, fun ⟨contents', hcontents', h⟩ ↦
        Option.some.inj (hcontents.symm.trans hcontents') ▸ h⟩
termination_by sizeOf e
decreasing_by
  exact Nat.lt_trans (sizeOf_lt_of_mem_children hinner)
    (sizeOf_lt_of_mem_children (List.mem_of_find?_eq_some hcontents))

end Place

end Node

namespace Endpoint

/-- The first child of an element with a given name names the tool at an end of a connection, and
the anchor unless that is the usual one. -/
def IsOf (child usual : String) (e : Element) (p : Endpoint) : Prop :=
  ∃ c, e.child? child = some c ∧ c.attribute? "ToolID" = some p.node ∧
    p.anchor = (c.attribute? "Connection").getD usual

theorem isOf_iff {child usual : String} {e : Element} {p : Endpoint} :
    IsOf child usual e p ↔ (e.child? child).bind (ofElement? usual) = some p := by
  simp only [IsOf, Option.bind_eq_some_iff, ofElement?, Option.map_eq_some_iff]
  constructor
  · rintro ⟨c, hc, hnode, hanchor⟩
    exact ⟨c, hc, _, hnode, by rw [← hanchor]⟩
  · rintro ⟨c, hc, node, hnode, rfl⟩
    exact ⟨c, hc, hnode, rfl⟩

theorem isSome_ofElement? (child usual : String) (e : Element) :
    ((e.child? child).bind (ofElement? usual)).isSome =
      ((e.child? child).bind (·.attribute? "ToolID")).isSome := by
  cases e.child? child with
  | none => rfl
  | some c => exact Option.isSome_map

end Endpoint

namespace Connection

/-- The connection that an element stands for: it leaves the tool of the first origin, and arrives
at that of the first destination. -/
structure IsOf (e : Element) (c : Connection) : Prop where
  source : c.source.IsOf "Origin" "Output" e
  target : c.target.IsOf "Destination" "Input" e

/-- Whether the first origin and the first destination of an element both have a tool identifier. -/
def isComplete (e : Element) : Bool :=
  ((e.child? "Origin").bind (·.attribute? "ToolID")).isSome &&
    ((e.child? "Destination").bind (·.attribute? "ToolID")).isSome

theorem isOf_of_ofElement? {e : Element} {c : Connection} (h : ofElement? e = some c) :
    IsOf e c := by
  unfold ofElement? at h
  split at h
  · rename_i source target hsource htarget
    cases h
    exact ⟨Endpoint.isOf_iff.2 hsource, Endpoint.isOf_iff.2 htarget⟩
  · cases h

theorem isSome_ofElement? (e : Element) : (ofElement? e).isSome = isComplete e := by
  rw [isComplete, ← Endpoint.isSome_ofElement? "Origin" "Output",
    ← Endpoint.isSome_ofElement? "Destination" "Input", ofElement?]
  cases (e.child? "Origin").bind (Endpoint.ofElement? "Output") <;>
    cases (e.child? "Destination").bind (Endpoint.ofElement? "Input") <;> rfl

end Connection

/-- The values that a partial function gives, one for each element on which it is defined. -/
theorem forall₂_filterMap {α β : Type} (f : α → Option β) (xs : List α) :
    List.Forall₂ (fun x y ↦ f x = some y) (xs.filter (fun x ↦ (f x).isSome)) (xs.filterMap f) := by
  induction xs with
  | nil => exact .nil
  | cons x rest ih =>
    cases hx : f x with
    | none => simpa [hx] using ih
    | some y => simpa [hx] using ih

namespace Document

open Node (Place)

/-- The elements of a workflow that stand for connections. -/
def connectionElements (root : Element) : List Element :=
  ((root.child? "Connections").map (·.childrenNamed "Connection")).getD []

/-- A node of a document is that of the tool at a place. -/
structure Keeps (d : Document) (p : Place) (n : Node) : Prop where
  id : n.id = p.id
  containerId : n.containerId = p.container
  origin : n.origin = d.name ++ "#" ++ p.id
  content : { n with inputAnchors := [], outputAnchors := [], origin := "" } =
    Node.ofElement p.id p.container p.element

/-- What is read from an element has no anchors and no origin yet. -/
theorem ofElement_unwired (id : String) (container : Option String) (e : Element) :
    (Node.ofElement id container e).id = id ∧ (Node.ofElement id container e).inputAnchors = [] ∧
      (Node.ofElement id container e).outputAnchors = [] ∧
      (Node.ofElement id container e).origin = "" := by
  unfold Node.ofElement Node.bare
  dsimp only
  split
  · split <;> exact ⟨rfl, rfl, rfl, rfl⟩
  · exact ⟨rfl, rfl, rfl, rfl⟩

theorem unwire_eq {n : Node} (hinput : n.inputAnchors = []) (houtput : n.outputAnchors = [])
    (horigin : n.origin = "") : { n with inputAnchors := [], outputAnchors := [], origin := "" } = n := by
  obtain ⟨_, _, _, _, _, _, _, _, _, _, _, _⟩ := n
  cases hinput
  cases houtput
  cases horigin
  rfl

/-- A node gets its origin and its anchors, and nothing else about it changes. -/
theorem keeps_withAnchors (d before : Document) (p : Place) :
    d.Keeps p (before.withAnchors (p.node.stamp d.name)) := by
  obtain ⟨hid, hinput, houtput, horigin⟩ := ofElement_unwired p.id p.container p.element
  rw [Place.node, Node.stamp, if_pos horigin]
  exact ⟨hid, rfl, congrArg (d.name ++ "#" ++ ·) hid, unwire_eq hinput houtput horigin⟩

/-- The document of a tree has one node for each tool with an address, in the order of the
addresses, and one connection for each element that names a tool at both ends, in their order. -/
theorem ofElement_flattens {root nodes : Element} (h : root.child? "Nodes" = some nodes)
    (path : Path) :
    (∀ source, Element.ofText source = .ok root →
        parse path source = .ok (ofElement path root nodes)) ∧
      (∃ places, Place.Lists (Place.IsAmong none nodes.children 0) places ∧
        List.Forall₂ (ofElement path root nodes).Keeps places
          (ofElement path root nodes).nodes) ∧
      List.Forall₂ Connection.IsOf ((connectionElements root).filter Connection.isComplete)
        (ofElement path root nodes).connections := by
  refine ⟨fun source hsource ↦ by simp [parse, hsource, h], ?_, ?_⟩
  · obtain ⟨places, hplaces, hnodes⟩ := Place.exists_lists_among
      (fun e (_ : e ∈ nodes.children) ↦ Place.exists_lists none e) 0
    refine ⟨places, hplaces, ?_⟩
    rw [ofElement, deriveAnchors, hnodes, List.map_map, List.map_map]
    rw [List.forall₂_map_right_iff, List.forall₂_same]
    exact fun p _ ↦ keeps_withAnchors _ _ p
  · have hconnections := forall₂_filterMap Connection.ofElement? (connectionElements root)
    simp only [Connection.isSome_ofElement?] at hconnections
    exact hconnections.imp fun _ _ ↦ Connection.isOf_of_ofElement?

/-- A tool, a container with a tool and a tool without an identifier, and one connection of two
that names a tool at both ends. -/
def containerTools : Element :=
  let tool (id : String) : Element := ⟨"Node", [("ToolID", id)], [], ""⟩
  let contents : Element := ⟨"ChildNodes", [], [tool "3", ⟨"Node", [], [tool "4"], ""⟩], ""⟩
  ⟨"Nodes", [], [tool "1", ⟨"Note", [], [], ""⟩, ⟨"Node", [("ToolID", "2")], [contents], ""⟩], ""⟩

def containerRoot : Element :=
  let origin : Element := ⟨"Origin", [("ToolID", "1"), ("Connection", "True")], [], ""⟩
  let destination : Element := ⟨"Destination", [("ToolID", "3")], [], ""⟩
  let connections : List Element :=
    [⟨"Connection", [], [origin], ""⟩, ⟨"Connection", [], [destination, origin], ""⟩]
  ⟨"W", [], [containerTools, ⟨"Connections", [], connections, ""⟩], ""⟩

theorem ofElement_flattens_container :
    containerRoot.child? "Nodes" = some containerTools ∧
      (∃ places, Place.Lists (Place.IsAmong none containerTools.children 0) places ∧
        List.Forall₂ (ofElement ⟨"d.yxmd"⟩ containerRoot containerTools).Keeps places
          (ofElement ⟨"d.yxmd"⟩ containerRoot containerTools).nodes) ∧
      (ofElement ⟨"d.yxmd"⟩ containerRoot containerTools).nodes.map
          (fun n ↦ (n.id, n.containerId, n.origin)) =
        [("1", none, "d#1"), ("2", none, "d#2"), ("3", some "2", "d#3")] ∧
      (ofElement ⟨"d.yxmd"⟩ containerRoot containerTools).connections =
        [⟨⟨"1", "True"⟩, ⟨"3", "Input"⟩⟩] := by
  have h : containerRoot.child? "Nodes" = some containerTools := rfl
  exact ⟨h, (ofElement_flattens h ⟨"d.yxmd"⟩).2.1, by decide +kernel, by decide +kernel⟩

end Document

end Provenance

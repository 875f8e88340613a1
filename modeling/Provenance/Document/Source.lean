import Provenance.Document.Anchors
import Provenance.FileSystem
import Provenance.Markup.Element

/-!
# Workflow files

A workflow file is an XML text. `Document.ofElement` reads the tree: every `Node` element below
`Nodes` with a tool identifier becomes a node, also those inside a container, which are marked with
the container's identifier; every `Connection` element that names a tool at both ends becomes a
connection. Elements of other names are ignored.
-/

namespace Provenance

open Markup (Element)

/-- Why a file gives no document. -/
inductive LoadError where
  | unreadable (path : Path) (cause : FileError)
  | unsupported (path : Path)
  | malformed (path : Path) (message : String)
  deriving Repr

namespace LoadError

def message : LoadError → String
  | unreadable path cause => s!"Failed to read workflow file {path.text}: {cause.message}"
  | unsupported path => s!"Unsupported workflow file type: {path.text}"
  | malformed path message => s!"Failed to parse workflow {path.text}: {message}"

end LoadError

namespace Setting

/-- Adds the value of one more child element to the entries so far. A second child of the same name
turns the entry into a list. -/
def merge (entries : Table Setting) (name : String) (value : Setting) : Table Setting :=
  match Table.find? name entries with
  | none => Table.insert name value entries
  | some (list items) => Table.insert name (list (items ++ [value])) entries
  | some existing => Table.insert name (list [existing, value]) entries

/-- The entries for an element's attributes and its own text. -/
def leaves (e : Element) : Table Setting :=
  let attributes :=
    e.attributes.foldl
      (fun entries (key, value) ↦ Table.insert ("@" ++ key) (text value) entries) []
  match e.content? with
  | some content => Table.insert "#text" (text content) attributes
  | none => attributes

mutual

/-- The value of an element: its text if it has neither attributes nor children. -/
def ofElement : Element → Setting
  | ⟨name, attributes, children, content⟩ =>
    if children.isEmpty && attributes.isEmpty then text (Text.trim content)
    else group (addChildren (leaves ⟨name, attributes, children, content⟩) children)

/-- The entries so far and those for a list of child elements. -/
def addChildren (entries : Table Setting) : List Element → Table Setting
  | [] => entries
  | child :: rest => addChildren (merge entries child.name (ofElement child)) rest

end

/-- The attributes, the text and the children of an element. -/
def entries (e : Element) : Table Setting :=
  addChildren (leaves e) e.children

end Setting

namespace Node

/-- The annotation that a user gave a tool. -/
def annotation? (e : Element) : Option String :=
  (e.path? "Properties/Annotation").bind (fun a ↦
    ((a.child? "Name").bind Element.content?).or
      ((a.child? "DefaultAnnotationText").bind Element.content?))

/-- The path of the macro that a tool calls. -/
def declaredMacro? (e : Element) : Option String :=
  ((e.child? "EngineSettings").bind (·.attribute? "Macro")).or
    (((e.child? "GuiSettings").bind (·.attribute? "Macro")).or
      ((e.path? "Properties/Configuration/Macro").bind Element.content?))

/-- The reference of a tool that has no plugin. -/
def referenceOf (id : String) (e : Element) : Reference :=
  match declaredMacro? e with
  | some declared => .ofPath declared
  | none => .named ((annotation? e).getD ("Macro" ++ id))

/-- The node before its annotation and configuration are added: a call if the tool has no plugin. -/
def bare (id : String) (e : Element) : Node :=
  let plugin := ((e.child? "GuiSettings").bind (·.attribute? "Plugin")).getD ""
  if plugin = "" then
    let node := call id (referenceOf id e)
    match (e.child? "EngineSettings").bind (·.attribute? "Macro") with
    | some path => { node with toolType := path }
    | none => node
  else { plain id (Tool.category plugin) (Tool.displayName plugin) with toolType := plugin }

/-- The node that an element describes. -/
def ofElement (id : String) (container : Option String) (e : Element) : Node :=
  { bare id e with
    annotation := annotation? e
    containerId := container
    config := ((e.path? "Properties/Configuration").map Setting.entries).getD [] }

/-- The name of the elements that describe tools. -/
def elementName : String := "Node"

/-- The name of the element that holds the tools inside a container. -/
def contentsName : String := "ChildNodes"

mutual

/-- The nodes of a tool and of the tools inside it. A tool without an identifier is left out, and
all inside it too. -/
def collect (container : Option String) : Element → List Node
  | ⟨name, attributes, children, content⟩ =>
    match Element.attribute? ⟨name, attributes, children, content⟩ "ToolID" with
    | none => []
    | some id =>
      ofElement id container ⟨name, attributes, children, content⟩ :: collectContents id children

/-- The nodes of the tools in the first contents among some elements. -/
def collectContents (id : String) : List Element → List Node
  | [] => []
  | ⟨name, _, children, _⟩ :: rest =>
    if name = contentsName then collectAll (some id) children else collectContents id rest

/-- The nodes of all tools among some elements. -/
def collectAll (container : Option String) : List Element → List Node
  | [] => []
  | child :: rest =>
    if child.name = elementName then collect container child ++ collectAll container rest
    else collectAll container rest

end

theorem gap_ofElement (id : String) (container : Option String) (e : Element) :
    (ofElement id container e).gap = none := by
  unfold ofElement bare
  dsimp only
  split
  · split <;> rfl
  · rfl

/-- A node that has a reference is a call. -/
theorem category_ofElement {id : String} {container : Option String} {e : Element}
    (h : (ofElement id container e).reference.isSome) :
    (ofElement id container e).category = .macroCall := by
  unfold ofElement bare at h ⊢
  dsimp only at h ⊢
  split
  · split <;> rfl
  · rename_i hplugin
    simp [plain, hplugin] at h

mutual

/-- Every node is the one that some element describes. -/
theorem exists_ofElement_of_mem_collect {container : Option String} {n : Node} :
    (e : Element) → n ∈ collect container e → ∃ id container e, n = ofElement id container e
  | ⟨name, attributes, children, content⟩, h => by
    unfold collect at h
    split at h
    · cases h
    · rename_i id _
      rcases List.mem_cons.1 h with rfl | h
      · exact ⟨_, _, _, rfl⟩
      · exact exists_ofElement_of_mem_collectContents id children h

theorem exists_ofElement_of_mem_collectContents {n : Node} (id : String) :
    (children : List Element) → n ∈ collectContents id children →
      ∃ id container e, n = ofElement id container e
  | [], h => by simp [collectContents] at h
  | ⟨name, _, children, _⟩ :: rest, h => by
    unfold collectContents at h
    split at h
    · exact exists_ofElement_of_mem_collectAll children h
    · exact exists_ofElement_of_mem_collectContents id rest h

theorem exists_ofElement_of_mem_collectAll {container : Option String} {n : Node} :
    (children : List Element) → n ∈ collectAll container children →
      ∃ id container e, n = ofElement id container e
  | [], h => by simp [collectAll] at h
  | child :: rest, h => by
    unfold collectAll at h
    split at h
    · rcases List.mem_append.1 h with h | h
      · exact exists_ofElement_of_mem_collect child h
      · exact exists_ofElement_of_mem_collectAll rest h
    · exact exists_ofElement_of_mem_collectAll rest h

end

end Node

namespace Endpoint

/-- The end of a connection that an element describes. -/
def ofElement? (defaultAnchor : String) (e : Element) : Option Endpoint :=
  (e.attribute? "ToolID").map (⟨·, (e.attribute? "Connection").getD defaultAnchor⟩)

end Endpoint

namespace Connection

/-- The connection that an element describes, if it names a tool at both ends. -/
def ofElement? (e : Element) : Option Connection :=
  match (e.child? "Origin").bind (Endpoint.ofElement? "Output"),
    (e.child? "Destination").bind (Endpoint.ofElement? "Input") with
  | some source, some target => some ⟨source, target⟩
  | _, _ => none

end Connection

namespace Document

/-- The extensions of workflow files. -/
def extensions : List String := ["yxmd", "yxmc", "yxwz"]

/-- The description among the properties of a workflow. -/
def description? (properties : Element) : Option String :=
  ((properties.path? "MetaInfo/Description").bind Element.content?).or
    ((properties.path? "Annotation/DefaultAnnotationText").bind Element.content?)

/-- The name of a workflow: the one among its properties, or else that of its file. -/
def nameOf (path : Path) (properties : Option Element) : String :=
  ((properties.bind (·.path? "MetaInfo/Name")).bind Element.content?).getD
    (path.fileStem?.getD "workflow")

/-- The document that a tree with the given nodes describes. -/
def ofElement (path : Path) (root nodes : Element) : Document :=
  let properties := root.child? "Properties"
  let name := nameOf path properties
  let connections := ((root.child? "Connections").map (·.childrenNamed "Connection")).getD []
  deriveAnchors {
    name := name
    path := path
    description := properties.bind description?
    nodes := (Node.collectAll none nodes.children).map (Node.stamp name)
    connections := connections.filterMap Connection.ofElement? }

/-- The document that a text describes. -/
def parse (path : Path) (text : String) : Except LoadError Document :=
  match Element.ofText text with
  | .error fault => .error (.malformed path fault.message)
  | .ok root =>
    match root.child? "Nodes" with
    | none => .error (.malformed path s!"<{root.name}> has no <Nodes> element")
    | some nodes => .ok (ofElement path root nodes)

/-- The document in a file. -/
def load (fs : FileSystem) (path : Path) : Except LoadError Document :=
  if path.hasExtension extensions then
    match fs.read path with
    | .error cause => .error (.unreadable path cause)
    | .ok text => parse path text
  else .error (.unsupported path)

/-- Every node of a document from a file is one that an element describes, with its origin and its
anchors. -/
theorem exists_ofElement_of_load {fs : FileSystem} {path : Path} {d : Document}
    (h : load fs path = .ok d) {n : Node} (hn : n ∈ d.nodes) :
    ∃ id container e name before,
      n = withAnchors before ((Node.ofElement id container e).stamp name) := by
  have hparse : ∃ text, parse path text = .ok d := by
    unfold load at h
    split at h
    · split at h
      · cases h
      · exact ⟨_, h⟩
    · cases h
  obtain ⟨text, hparse⟩ := hparse
  unfold parse at hparse
  split at hparse
  · cases hparse
  · split at hparse
    · cases hparse
    · rename_i nodes _
      obtain rfl := Except.ok.inj hparse
      obtain ⟨m, hm, rfl⟩ := List.mem_map.1 hn
      obtain ⟨written, hwritten, rfl⟩ := List.mem_map.1 hm
      obtain ⟨id, container, e, rfl⟩ := Node.exists_ofElement_of_mem_collectAll _ hwritten
      exact ⟨id, container, e, _, _, rfl⟩

/-- In a document from a file no node is marked as a call that could not be replaced, and each says
where it was written. -/
theorem nodes_of_load {fs : FileSystem} {path : Path} {d : Document} (h : load fs path = .ok d)
    {n : Node} (hn : n ∈ d.nodes) : n.gap = none ∧ n.origin ≠ "" := by
  obtain ⟨id, container, e, name, before, rfl⟩ := exists_ofElement_of_load h hn
  have hgap := Node.gap_ofElement id container e
  unfold withAnchors Node.stamp
  split
  · exact ⟨hgap, by simp⟩
  · rename_i horigin
    exact ⟨hgap, horigin⟩

/-- In a document from a file only calls have references. -/
theorem category_of_load {fs : FileSystem} {path : Path} {d : Document} (h : load fs path = .ok d)
    {n : Node} (hn : n ∈ d.nodes) (hreference : n.reference.isSome) : n.category = .macroCall := by
  obtain ⟨id, container, e, name, before, rfl⟩ := exists_ofElement_of_load h hn
  have hcategory := @Node.category_ofElement id container e
  unfold withAnchors Node.stamp at hreference ⊢
  split at hreference <;> rename_i horigin
  · rw [if_pos horigin]
    exact hcategory hreference
  · rw [if_neg horigin]
    exact hcategory hreference

end Document

end Provenance

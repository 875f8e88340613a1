import Provenance.Document

/-!
# Splicing

`splice` replaces a call by the content of a macro. The macro's boundary nodes disappear: the `i`-th
boundary input stands for the call's `i`-th input anchor and the `j`-th boundary output for its
`j`-th output anchor, and every path of connections through them becomes one connection. Identifiers
of the macro's other nodes are written after that of the call.

A call whose anchors do not match the boundary is left as it is.
-/

namespace Provenance

namespace Splice

/-- The identifier of a macro's node inside the calling document. -/
def inner (callSite id : String) : String :=
  callSite ++ "/" ++ id

/-- The end of a macro's connection inside the calling document. -/
def innerEnd (callSite : String) (e : Endpoint) : Endpoint :=
  { e with node := inner callSite e.node }

/-- The last position of an identifier in a list. -/
def lastPosition? (id : String) (ids : List String) : Option Nat :=
  (ids.reverse.idxOf? id).map (fun i ↦ ids.length - 1 - i)

/-- A call and the macro that is to replace it. -/
structure Site where
  callSite : String
  inputAnchors : List String
  outputAnchors : List String
  definition : Document

namespace Site

/-- The input anchor that a boundary node stands for. -/
def inputOf? (s : Site) (id : String) : Option Nat :=
  lastPosition? id (s.definition.boundaryInputs.map Node.id)

/-- The output anchor that a boundary node stands for. -/
def outputOf? (s : Site) (id : String) : Option Nat :=
  lastPosition? id (s.definition.boundaryOutputs.map Node.id)

/-- Whether a node of the macro is part of its boundary. -/
def isBoundary (s : Site) (id : String) : Bool :=
  (s.inputOf? id).isSome || (s.outputOf? id).isSome

/-- Whether data can flow along a connection of the macro: none comes out of a boundary output or
enters a boundary input. -/
def isUsable (s : Site) (c : Connection) : Bool :=
  (s.outputOf? c.source.node).isNone && (s.inputOf? c.target.node).isNone

/-- The macro's usable connections. -/
def wires (s : Site) : List Connection :=
  s.definition.connections.filter s.isUsable

/-- The connections between inner nodes. -/
def internal (s : Site) : List Connection :=
  s.wires.filterMap (fun c ↦
    match s.inputOf? c.source.node, s.outputOf? c.target.node with
    | none, none => some ⟨innerEnd s.callSite c.source, innerEnd s.callSite c.target⟩
    | _, _ => none)

/-- The inner ends that an input anchor feeds. -/
def targets (s : Site) (i : Nat) : List Endpoint :=
  s.wires.filterMap (fun c ↦
    match s.inputOf? c.source.node, s.outputOf? c.target.node with
    | some i', none => if i' = i then some (innerEnd s.callSite c.target) else none
    | _, _ => none)

/-- The inner ends that feed an output anchor. -/
def sources (s : Site) (j : Nat) : List Endpoint :=
  s.wires.filterMap (fun c ↦
    match s.inputOf? c.source.node, s.outputOf? c.target.node with
    | none, some j' => if j' = j then some (innerEnd s.callSite c.source) else none
    | _, _ => none)

/-- The input anchors that are passed through to an output anchor. -/
def passed (s : Site) (j : Nat) : List Nat :=
  s.wires.filterMap (fun c ↦
    match s.inputOf? c.source.node, s.outputOf? c.target.node with
    | some i, some j' => if j' = j then some i else none
    | _, _ => none)

/-- The ends that feed an input anchor of the call. -/
def feeders (s : Site) (parent : Document) (i : Nat) : List Endpoint :=
  (parent.incoming s.callSite).filterMap (fun c ↦
    if s.inputAnchors.idxOf? c.target.anchor = some i then some c.source else none)

/-- Whether a connection of the calling document touches the call. -/
def touches (s : Site) (c : Connection) : Bool :=
  c.target.node = s.callSite || c.source.node = s.callSite

/-- What a connection into the call becomes. -/
def rewireInto (s : Site) (c : Connection) : List Connection :=
  if c.target.node = s.callSite then
    match s.inputAnchors.idxOf? c.target.anchor with
    | some i => (s.targets i).map (⟨c.source, ·⟩)
    | none => []
  else []

/-- What a connection out of the call becomes. -/
def rewireOut (s : Site) (parent : Document) (c : Connection) : List Connection :=
  if c.source.node = s.callSite then
    match s.outputAnchors.idxOf? c.source.anchor with
    | some j =>
      (s.sources j ++ (s.passed j).flatMap (s.feeders parent)).map (⟨·, c.target⟩)
    | none => []
  else []

/-- What a connection of the calling document becomes. -/
def rewire (s : Site) (parent : Document) (c : Connection) : List Connection :=
  if s.touches c then s.rewireInto c ++ s.rewireOut parent c else [c]

/-- The connections after the replacement. Those inside the macro stand where the calling document
first mentions the call, or at the end if it never does. -/
def connections (s : Site) (parent : Document) : List Connection :=
  parent.connections.takeWhile (fun c ↦ !s.touches c) ++ s.internal ++
    (parent.connections.dropWhile (fun c ↦ !s.touches c)).flatMap (s.rewire parent)

/-- A node of the macro inside the calling document. -/
def innerNode (s : Site) (n : Node) : Node :=
  { n.stamp s.definition.name with
    id := inner s.callSite n.id
    containerId := n.containerId.map (inner s.callSite) }

/-- The nodes that take the place of the call. -/
def nodes (s : Site) : List Node :=
  (s.definition.nodes.filter (fun n ↦ !s.isBoundary n.id)).map s.innerNode

/-- The anchors of the call. -/
def anchorCount (s : Site) : AnchorCount :=
  ⟨s.inputAnchors.length, s.outputAnchors.length⟩

end Site

end Splice

namespace Document

/-- The document with the first node that has an identifier replaced by the content of a macro, or
the reason why it cannot be. -/
def splice (parent : Document) (callSite : String) (definition : Document) : Except Gap Document :=
  match parent.nodes.find? (fun n ↦ n.id = callSite) with
  | none => .error (.malformed s!"call site {callSite} not found in {parent.name}")
  | some call =>
    let site : Splice.Site := ⟨callSite, call.inputAnchors, call.outputAnchors, definition⟩
    if site.anchorCount = definition.anchorCount then
      .ok { parent with
        nodes :=
          parent.nodes.takeWhile (fun n ↦ n.id ≠ callSite) ++ site.nodes ++
            (parent.nodes.dropWhile (fun n ↦ n.id ≠ callSite)).drop 1
        connections := site.connections parent }
    else .error (.anchorMismatch site.anchorCount definition.anchorCount)

theorem path_splice {parent definition result : Document} {callSite : String}
    (h : parent.splice callSite definition = .ok result) : result.path = parent.path := by
  unfold splice at h
  split at h
  · cases h
  · dsimp only at h
    split at h
    · rw [← Except.ok.inj h]
    · cases h

end Document

end Provenance

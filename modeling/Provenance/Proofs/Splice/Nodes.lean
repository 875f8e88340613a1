import Provenance.Proofs.Splice.Boundary

/-!
# The nodes after a splice

A splice puts copies of the macro's nodes in the place of the call, and changes no other node. The
boundary is taken out by identifier: a node of the macro that shares its identifier with a boundary
node disappears along with it, whatever it is. So all inner nodes arrive exactly if none of them has
the identifier of a boundary node (`splice_nodes_eq_iff`).
-/

namespace Provenance

namespace Node

/-- Whether data enters or leaves a macro through the node. -/
def isBoundary (n : Node) : Bool :=
  n.category = .macroInput || n.category = .macroOutput

/-- The copy of a node of a macro in a document that calls the macro. -/
def copyTo (callSite definition : String) (n : Node) : Node :=
  { n with
    id := callSite ++ "/" ++ n.id
    containerId := n.containerId.map (fun container ↦ callSite ++ "/" ++ container)
    origin := if n.origin = "" then definition ++ "#" ++ n.id else n.origin }

end Node

namespace Document

variable {d : Document}

theorem onBoundary_iff {id : String} :
    d.onBoundary id ↔ ∃ b ∈ d.nodes, b.isBoundary ∧ b.id = id := by
  simp [onBoundary, Node.isBoundary, and_comm]

theorem IdsDistinct.onBoundary_eq_false (h : d.IdsDistinct) {n : Node} (hn : n ∈ d.nodes)
    (hinner : n.isBoundary = false) : d.onBoundary n.id = false := by
  apply Bool.eq_false_iff.2
  intro hboundary
  obtain ⟨b, hb, hb', hid⟩ := onBoundary_iff.1 hboundary
  rw [h.eq_of_mem hb hn hid, hinner] at hb'
  cases hb'

/-- No inner node has the identifier of a boundary node. -/
def BoundaryApart (d : Document) : Prop :=
  ∀ n ∈ d.nodes, ∀ b ∈ d.nodes, b.isBoundary → n.id = b.id → n.isBoundary

instance (d : Document) : Decidable d.BoundaryApart :=
  inferInstanceAs (Decidable
    (∀ n ∈ d.nodes, ∀ b ∈ d.nodes, b.isBoundary → n.id = b.id → n.isBoundary))

/-- All inner nodes are outside the boundary by their identifiers too, or some are missing. -/
theorem map_filter_onBoundary_eq_iff {α : Type} (f : Node → α) :
    (d.nodes.filter (fun n ↦ !d.onBoundary n.id)).map f =
        (d.nodes.filter (fun n ↦ !n.isBoundary)).map f ↔ d.BoundaryApart := by
  have hkept : d.nodes.filter (fun n ↦ !d.onBoundary n.id) =
      (d.nodes.filter (fun n ↦ !n.isBoundary)).filter (fun n ↦ !d.onBoundary n.id) := by
    rw [List.filter_filter]
    apply List.filter_congr
    intro n hn
    cases hboundary : n.isBoundary with
    | false => simp
    | true => simpa using onBoundary_iff.2 ⟨n, hn, hboundary, rfl⟩
  have hapart : d.BoundaryApart ↔
      ∀ n ∈ d.nodes.filter (fun n ↦ !n.isBoundary), !d.onBoundary n.id := by
    simp only [List.mem_filter, Bool.not_eq_true', Bool.eq_false_iff, ne_eq, onBoundary_iff]
    constructor
    · rintro h n ⟨hn, hinner⟩ ⟨b, hb, hboundary, hid⟩
      exact hinner (h n hn b hb hboundary hid.symm)
    · intro h n hn b hb hboundary hid
      by_contra hinner
      exact h n ⟨hn, hinner⟩ ⟨b, hb, hboundary, hid.symm⟩
  rw [hkept, hapart]
  constructor
  · intro h
    have hlength := congrArg List.length h
    rw [List.length_map, List.length_map] at hlength
    exact List.length_filter_eq_length_iff.1 hlength
  · intro h
    rw [List.filter_eq_self.2 h]

end Document

namespace Splice

namespace Site

theorem innerNode_eq (s : Site) : s.innerNode = Node.copyTo s.callSite s.definition.name := by
  funext n
  unfold innerNode Node.stamp Node.copyTo inner
  split <;> rfl

theorem nodes_eq (s : Site) :
    s.nodes = (s.definition.nodes.filter (fun n ↦ !s.definition.onBoundary n.id)).map
      (Node.copyTo s.callSite s.definition.name) := by
  simp only [nodes, innerNode_eq, isBoundary_eq]

theorem copyTo_mem_nodes {s : Site} {n : Node} (hn : n ∈ s.definition.nodes)
    (hinner : s.definition.onBoundary n.id = false) :
    n.copyTo s.callSite s.definition.name ∈ s.nodes := by
  rw [nodes_eq]
  exact List.mem_map_of_mem (List.mem_filter.2 ⟨hn, by rw [hinner]; rfl⟩)

end Site

end Splice

namespace Document

/-- A splice that succeeds replaces the first node with the identifier, whose anchors match. -/
theorem exists_of_splice {parent d result : Document} {callSite : String}
    (h : parent.splice callSite d = .ok result) :
    ∃ before call after, parent.nodes = before ++ call :: after ∧ call.id = callSite ∧
      (∀ n ∈ before, n.id ≠ callSite) ∧
      (Splice.Site.ofCall call d).anchorCount = d.anchorCount ∧
      result = { parent with
        nodes := before ++ (Splice.Site.ofCall call d).nodes ++ after
        connections := (Splice.Site.ofCall call d).connections parent } := by
  have hnode : ∃ call, parent.node? callSite = some call := by
    unfold splice at h
    split at h
    · cases h
    · rename_i call hcall
      exact ⟨call, hcall⟩
  obtain ⟨call, hcall⟩ := hnode
  obtain ⟨before, after, hnodes, hid, hbefore⟩ := node?_eq_some_iff.1 hcall
  rw [splice_eq hnodes hid hbefore] at h
  split at h
  · rename_i hcount
    exact ⟨before, call, after, hnodes, hid, hbefore, hcount, (Except.ok.inj h).symm⟩
  · cases h

/-- A splice puts copies of nodes of the macro in the place of the first node with the identifier,
in their order, and keeps all others: copies of all inner nodes exactly if none of these has the
identifier of a boundary node, and otherwise of fewer. -/
theorem splice_nodes_eq_iff {parent d result : Document} {callSite : String}
    (h : parent.splice callSite d = .ok result) :
    ∃ before call after, parent.nodes = before ++ call :: after ∧ call.id = callSite ∧
      (∀ n ∈ before, n.id ≠ callSite) ∧
      result.nodes = before ++ (d.nodes.filter (fun n ↦ !d.onBoundary n.id)).map
        (Node.copyTo callSite d.name) ++ after ∧
      (result.nodes = before ++ (d.nodes.filter (fun n ↦ !n.isBoundary)).map
          (Node.copyTo callSite d.name) ++ after ↔ d.BoundaryApart) := by
  obtain ⟨before, call, after, hnodes, rfl, hbefore, -, rfl⟩ := exists_of_splice h
  have hsite : (Splice.Site.ofCall call d).nodes =
      (d.nodes.filter (fun n ↦ !d.onBoundary n.id)).map (Node.copyTo call.id d.name) :=
    (Splice.Site.ofCall call d).nodes_eq
  refine ⟨before, call, after, hnodes, rfl, hbefore, by rw [hsite], ?_⟩
  rw [← map_filter_onBoundary_eq_iff (Node.copyTo call.id d.name), hsite,
    List.append_cancel_right_eq, List.append_cancel_left_eq]

/-! ## Two macros in which an identifier is repeated -/

/-- A workflow with two calls of the same identifier, each with one input. -/
def twinCaller : Document where
  name := "caller"
  path := ⟨"caller.yxmd"⟩
  description := none
  nodes :=
    [.plain "1" .input "x", { Node.call "2" (.named "Clean") with inputAnchors := ["Input"] },
     { Node.call "2" (.named "Other") with inputAnchors := ["Input"] }]
  connections := [⟨⟨"1", "Output"⟩, ⟨"2", "Input"⟩⟩]

/-- A macro in which two inner nodes have the same identifier. -/
def twinMacro : Document where
  name := "Clean"
  path := ⟨"Clean.yxmc"⟩
  description := none
  nodes :=
    [.plain "1" .macroInput "in", { Node.plain "5" .formula "trim" with containerId := some "4" },
     { Node.plain "5" .filter "check" with origin := "Base#3" }]
  connections := []

theorem splice_nodes_eq_iff_twin :
    ∃ result, twinCaller.splice "2" twinMacro = .ok result ∧
      (∃ before call after, twinCaller.nodes = before ++ call :: after ∧ call.id = "2" ∧
        (∀ n ∈ before, n.id ≠ "2") ∧
        result.nodes = before ++ (twinMacro.nodes.filter (fun n ↦
          !twinMacro.onBoundary n.id)).map (Node.copyTo "2" twinMacro.name) ++ after ∧
        (result.nodes = before ++ (twinMacro.nodes.filter (fun n ↦ !n.isBoundary)).map
            (Node.copyTo "2" twinMacro.name) ++ after ↔ twinMacro.BoundaryApart)) ∧
      twinMacro.BoundaryApart ∧
      result.nodes.map (fun n ↦ (n.id, n.containerId, n.origin)) =
        [("1", none, ""), ("2/5", some "2/4", "Clean#5"), ("2/5", none, "Base#3"),
         ("2", none, "")] := by
  have hsplice : twinCaller.splice "2" twinMacro = .ok _ := rfl
  exact ⟨_, hsplice, splice_nodes_eq_iff hsplice, by decide, by decide +kernel⟩

/-- A macro whose only inner node has the identifier of its input. -/
def maskedMacro : Document where
  name := "Clean"
  path := ⟨"Clean.yxmc"⟩
  description := none
  nodes := [.plain "1" .macroInput "in", .plain "1" .formula "trim"]
  connections := []

/-- The inner node does not arrive. -/
theorem splice_nodes_masked :
    ∃ result, twinCaller.splice "2" maskedMacro = .ok result ∧
      (maskedMacro.nodes.filter (fun n ↦ !n.isBoundary)).map
        (fun n ↦ (n.copyTo "2" maskedMacro.name).id) = ["2/1"] ∧
      result.nodes.map Node.id = ["1", "2"] :=
  ⟨_, rfl, by decide +kernel, by decide +kernel⟩

end Document

end Provenance

import Mathlib.Data.List.Nodup
import Provenance.Document.Splice

/-!
# The boundary of a macro

A splice looks a boundary node up by its identifier. In a macro whose identifiers are distinct the
position found this way is the node's place among the boundary nodes, so anchors and boundary nodes
belong together by position (`inputNode?_eq_some_iff`, `outputNode?_eq_some_iff`), and no identifier
is at both ends of a macro (`outputOf?_eq_none_of_inputOf?`).

`Document.splice_eq` says what a splice gives.
-/

namespace Provenance

/-- The nodes in the place of a node, if others take the place of those with an identifier. -/
def Node.replaceBy (id : String) (new : List Node) (n : Node) : List Node :=
  if n.id = id then new else [n]

theorem Node.flatMap_replaceBy_of_ne {id : String} {new ns : List Node} (h : ∀ n ∈ ns, n.id ≠ id) :
    ns.flatMap (replaceBy id new) = ns := by
  calc ns.flatMap (replaceBy id new)
    _ = ns.flatMap (fun n ↦ [n]) := List.flatMap_congr fun n hn ↦ if_neg (h n hn)
    _ = ns := List.flatMap_singleton' ns

namespace Document

/-- Whether an identifier belongs to a node through which data enters or leaves a macro. -/
def onBoundary (d : Document) (id : String) : Bool :=
  d.nodes.any (fun n ↦ n.id = id && (n.category = .macroInput || n.category = .macroOutput))

/-- No two nodes have the same identifier. -/
def IdsDistinct (d : Document) : Prop :=
  (d.nodes.map Node.id).Nodup

instance (d : Document) : Decidable d.IdsDistinct :=
  inferInstanceAs (Decidable (d.nodes.map Node.id).Nodup)

theorem IdsDistinct.eq_of_mem {d : Document} (h : d.IdsDistinct) {m n : Node} (hm : m ∈ d.nodes)
    (hn : n ∈ d.nodes) (hid : m.id = n.id) : m = n :=
  List.inj_on_of_nodup_map h hm hn hid

/-- A node has an identifier that none of the others has, and those are distinct. -/
theorem IdsDistinct.nodup_of_nodes_eq {d : Document} (h : d.IdsDistinct) {before after : List Node}
    {n : Node} (hnodes : d.nodes = before ++ n :: after) :
    n.id ∉ (before ++ after).map Node.id ∧ ((before ++ after).map Node.id).Nodup := by
  unfold IdsDistinct at h
  rw [hnodes, List.map_append, List.map_cons, List.nodup_middle, ← List.map_append] at h
  exact List.nodup_cons.1 h

theorem IdsDistinct.ne_of_nodes_eq {d : Document} (h : d.IdsDistinct) {before after : List Node}
    {n : Node} (hnodes : d.nodes = before ++ n :: after) : ∀ m ∈ before ++ after, m.id ≠ n.id := by
  intro m hm hid
  apply (h.nodup_of_nodes_eq hnodes).1
  rw [← hid]
  exact List.mem_map_of_mem hm

/-- Nodes whose identifiers are distinct, and are not those of other nodes, may take the place of a
node. -/
theorem IdsDistinct.replace {d d' : Document} (h : d.IdsDistinct) {before after nodes : List Node}
    {n : Node} (hnodes : d.nodes = before ++ n :: after)
    (hnodes' : d'.nodes = before ++ nodes ++ after) (hnew : (nodes.map Node.id).Nodup)
    (hothers : ∀ m ∈ nodes, ∀ k ∈ before ++ after, m.id ≠ k.id) : d'.IdsDistinct := by
  have hperm : d'.nodes.Perm (nodes ++ (before ++ after)) := by
    rw [hnodes', ← List.append_assoc]
    exact List.perm_append_comm.append_right _
  rw [IdsDistinct, (hperm.map _).nodup_iff, List.map_append, List.nodup_append]
  refine ⟨hnew, (h.nodup_of_nodes_eq hnodes).2, ?_⟩
  intro x hx y hy
  obtain ⟨m, hm, rfl⟩ := List.mem_map.1 hx
  obtain ⟨k, hk, rfl⟩ := List.mem_map.1 hy
  exact hothers m hm k hk

theorem IdsDistinct.boundaryInputs {d : Document} (h : d.IdsDistinct) :
    (d.boundaryInputs.map Node.id).Nodup :=
  h.sublist (List.filter_sublist.map _)

theorem IdsDistinct.boundaryOutputs {d : Document} (h : d.IdsDistinct) :
    (d.boundaryOutputs.map Node.id).Nodup :=
  h.sublist (List.filter_sublist.map _)

end Document

namespace Splice

theorem inner_injective (callSite : String) : Function.Injective (inner callSite) := by
  intro x y h
  have hlist := congrArg String.toList h
  simp only [inner, String.toList_append, List.append_cancel_left_eq] at hlist
  exact String.toList_inj.1 hlist

theorem ne_inner_of_plain {id : String} (h : '/' ∉ id.toList) (callSite id' : String) :
    id ≠ inner callSite id' := by
  rintro rfl
  apply h
  have hsep : "/".toList = ['/'] := rfl
  simp [inner, hsep]

theorem inner_ne (callSite id : String) : inner callSite id ≠ callSite := by
  intro h
  have hlength := congrArg String.length h
  simp only [inner, String.length_append] at hlength
  have hsep : "/".length = 1 := rfl
  omega

theorem getElem?_of_lastPosition? {ids : List String} {id : String} {i : Nat}
    (h : lastPosition? id ids = some i) : ids[i]? = some id := by
  obtain ⟨k, hk, rfl⟩ := Option.map_eq_some_iff.1 h
  obtain ⟨hlt, hid, -⟩ := List.idxOf?_eq_some_iff.1 hk
  rw [List.length_reverse] at hlt
  rw [List.getElem_reverse] at hid
  rw [List.getElem?_eq_getElem (by omega), hid]

theorem isSome_lastPosition?_iff {ids : List String} {id : String} :
    (lastPosition? id ids).isSome ↔ id ∈ ids := by
  simp [lastPosition?]

theorem lastPosition?_eq_some_iff {ids : List String} (h : ids.Nodup) {id : String} {i : Nat} :
    lastPosition? id ids = some i ↔ ids[i]? = some id := by
  constructor
  · exact getElem?_of_lastPosition?
  intro hi
  have hmem : id ∈ ids := List.mem_of_getElem? hi
  obtain ⟨k, hk⟩ := Option.isSome_iff_exists.1 (isSome_lastPosition?_iff.2 hmem)
  obtain ⟨hlt, -⟩ := List.getElem?_eq_some_iff.1 hi
  have hki : i = k := (List.getElem?_inj hlt h).1 (hi.trans (getElem?_of_lastPosition? hk).symm)
  rw [hki, hk]

namespace Site

/-- The place of a call, and the macro that is to replace it. -/
def ofCall (call : Node) (d : Document) : Site :=
  ⟨call.id, call.inputAnchors, call.outputAnchors, d⟩

/-- The boundary node that an input anchor of the call stands for. -/
def inputNode? (s : Site) (anchor : String) : Option String :=
  (s.inputAnchors.idxOf? anchor).bind (fun i ↦ (s.definition.boundaryInputs.map Node.id)[i]?)

/-- The boundary node that an output anchor of the call stands for. -/
def outputNode? (s : Site) (anchor : String) : Option String :=
  (s.outputAnchors.idxOf? anchor).bind (fun j ↦ (s.definition.boundaryOutputs.map Node.id)[j]?)

theorem isSome_inputOf?_iff {s : Site} {id : String} :
    (s.inputOf? id).isSome ↔ ∃ n ∈ s.definition.nodes, n.id = id ∧ n.category = .macroInput := by
  rw [inputOf?, isSome_lastPosition?_iff]
  simp [Document.boundaryInputs, and_assoc, and_comm]

theorem isSome_outputOf?_iff {s : Site} {id : String} :
    (s.outputOf? id).isSome ↔ ∃ n ∈ s.definition.nodes, n.id = id ∧ n.category = .macroOutput := by
  rw [outputOf?, isSome_lastPosition?_iff]
  simp [Document.boundaryOutputs, and_assoc, and_comm]

/-- The boundary that a splice removes consists of the macro's boundary nodes. -/
theorem isBoundary_eq (s : Site) (id : String) : s.isBoundary id = s.definition.onBoundary id := by
  rw [Bool.eq_iff_iff, isBoundary, Bool.or_eq_true, isSome_inputOf?_iff, isSome_outputOf?_iff]
  simp only [Document.onBoundary, List.any_eq_true, Bool.and_eq_true, Bool.or_eq_true,
    decide_eq_true_eq]
  constructor
  · rintro (⟨n, hn, hid, hcategory⟩ | ⟨n, hn, hid, hcategory⟩)
    · exact ⟨n, hn, hid, .inl hcategory⟩
    · exact ⟨n, hn, hid, .inr hcategory⟩
  · rintro ⟨n, hn, hid, hcategory | hcategory⟩
    · exact .inl ⟨n, hn, hid, hcategory⟩
    · exact .inr ⟨n, hn, hid, hcategory⟩

theorem onBoundary_eq_false_iff {s : Site} {id : String} :
    s.definition.onBoundary id = false ↔ s.inputOf? id = none ∧ s.outputOf? id = none := by
  simp [← isBoundary_eq, isBoundary]

variable {s : Site} (h : s.definition.IdsDistinct)

include h

/-- Data enters a macro elsewhere than it leaves it. -/
theorem outputOf?_eq_none_of_inputOf? {id : String} {i : Nat} (hi : s.inputOf? id = some i) :
    s.outputOf? id = none := by
  obtain ⟨m, hm, hmid, hin⟩ := isSome_inputOf?_iff.1 (Option.isSome_iff_exists.2 ⟨i, hi⟩)
  rw [← Option.not_isSome_iff_eq_none, isSome_outputOf?_iff]
  rintro ⟨n, hn, hnid, hout⟩
  have hmn : m = n := h.eq_of_mem hm hn (hmid.trans hnid.symm)
  rw [hmn, hout] at hin
  cases hin

theorem inputOf?_eq_none_of_outputOf? {id : String} {j : Nat} (hj : s.outputOf? id = some j) :
    s.inputOf? id = none := by
  apply Option.eq_none_iff_forall_ne_some.2
  intro i hi
  rw [outputOf?_eq_none_of_inputOf? h hi] at hj
  cases hj

/-- The macro's inner nodes have different identifiers in the calling document too. -/
theorem nodup_nodes : (s.nodes.map Node.id).Nodup := by
  have hkept : ((s.definition.nodes.filter (fun n ↦ !s.isBoundary n.id)).map Node.id).Nodup :=
    List.Nodup.sublist (List.filter_sublist.map Node.id) h
  have hmap : s.nodes.map Node.id =
      ((s.definition.nodes.filter (fun n ↦ !s.isBoundary n.id)).map Node.id).map
        (inner s.callSite) := by
    rw [nodes, List.map_map, List.map_map]
    rfl
  rw [hmap]
  exact hkept.map (inner_injective s.callSite)

theorem inputNode?_eq_some_iff {anchor id : String} :
    s.inputNode? anchor = some id ↔
      ∃ i, s.inputAnchors.idxOf? anchor = some i ∧ s.inputOf? id = some i := by
  simp only [inputNode?, Option.bind_eq_some_iff, inputOf?,
    lastPosition?_eq_some_iff h.boundaryInputs]

theorem outputNode?_eq_some_iff {anchor id : String} :
    s.outputNode? anchor = some id ↔
      ∃ j, s.outputAnchors.idxOf? anchor = some j ∧ s.outputOf? id = some j := by
  simp only [outputNode?, Option.bind_eq_some_iff, outputOf?,
    lastPosition?_eq_some_iff h.boundaryOutputs]

end Site

end Splice

namespace Document

theorem node?_eq_some_iff {d : Document} {id : String} {n : Node} :
    d.node? id = some n ↔
      ∃ before after, d.nodes = before ++ n :: after ∧ n.id = id ∧ ∀ m ∈ before, m.id ≠ id := by
  rw [node?, List.find?_eq_some_iff_append]
  constructor
  · rintro ⟨hid, before, after, hnodes, hbefore⟩
    exact ⟨before, after, hnodes, by simpa using hid, by simpa using hbefore⟩
  · rintro ⟨before, after, hnodes, hid, hbefore⟩
    exact ⟨by simpa using hid, before, after, hnodes, by simpa using hbefore⟩

theorem IdsDistinct.node?_eq_some {d : Document} (h : d.IdsDistinct) {n : Node} (hn : n ∈ d.nodes) :
    d.node? n.id = some n := by
  obtain ⟨before, after, hnodes⟩ := List.append_of_mem hn
  refine node?_eq_some_iff.2 ⟨before, after, hnodes, rfl, fun m hm ↦ ?_⟩
  exact h.ne_of_nodes_eq hnodes m (List.mem_append_left _ hm)

/-- A splice replaces the first node with the identifier by the macro's inner nodes, and keeps all
else but the connections, unless the anchors do not match. -/
theorem splice_eq {parent d : Document} {callSite : String} {before after : List Node} {call : Node}
    (hnodes : parent.nodes = before ++ call :: after) (hid : call.id = callSite)
    (hbefore : ∀ m ∈ before, m.id ≠ callSite) :
    parent.splice callSite d =
      if (Splice.Site.ofCall call d).anchorCount = d.anchorCount then
        .ok { parent with
          nodes := before ++ (Splice.Site.ofCall call d).nodes ++ after
          connections := (Splice.Site.ofCall call d).connections parent }
      else
        .error (.anchorMismatch (Splice.Site.ofCall call d).anchorCount d.anchorCount) := by
  have hcall : parent.nodes.find? (fun n ↦ n.id = callSite) = some call :=
    node?_eq_some_iff.2 ⟨before, after, hnodes, hid, hbefore⟩
  have htake : parent.nodes.takeWhile (fun n ↦ n.id ≠ callSite) = before := by
    rw [hnodes, List.takeWhile_append_of_pos (by simpa using hbefore)]
    simp [hid]
  have hdrop : (parent.nodes.dropWhile (fun n ↦ n.id ≠ callSite)).drop 1 = after := by
    rw [hnodes, List.dropWhile_append_of_pos (by simpa using hbefore)]
    simp [hid]
  unfold splice
  rw [hcall, htake, hdrop, ← hid]
  rfl

/-- Where identifiers are distinct and the anchors match, a splice succeeds and replaces every node
with the identifier by the macro's inner nodes. -/
theorem exists_splice {parent d : Document} {callSite : String} {call : Node}
    (hids : parent.IdsDistinct) (hcall : parent.node? callSite = some call)
    (hcount : (Splice.Site.ofCall call d).anchorCount = d.anchorCount) :
    ∃ result, parent.splice callSite d = .ok result ∧ result.name = parent.name ∧
      result.nodes =
        parent.nodes.flatMap (Node.replaceBy callSite (Splice.Site.ofCall call d).nodes) ∧
      result.connections = (Splice.Site.ofCall call d).connections parent := by
  obtain ⟨before, after, hnodes, hid, hbefore⟩ := node?_eq_some_iff.1 hcall
  have hafter (m : Node) (hm : m ∈ after) : m.id ≠ callSite :=
    hid ▸ hids.ne_of_nodes_eq hnodes m (List.mem_append_right _ hm)
  rw [splice_eq hnodes hid hbefore, if_pos hcount]
  refine ⟨_, rfl, rfl, ?_, rfl⟩
  rw [hnodes, List.flatMap_append, List.flatMap_cons, Node.flatMap_replaceBy_of_ne hbefore,
    Node.flatMap_replaceBy_of_ne hafter, Node.replaceBy, if_pos hid, List.append_assoc]

theorem splice_ok {parent d result : Document} {callSite : String} {call : Node}
    (hcall : parent.node? callSite = some call) (h : parent.splice callSite d = .ok result) :
    ∃ before after, parent.nodes = before ++ call :: after ∧ call.id = callSite ∧
      result = { parent with
        nodes := before ++ (Splice.Site.ofCall call d).nodes ++ after
        connections := (Splice.Site.ofCall call d).connections parent } := by
  obtain ⟨before, after, hnodes, hid, hbefore⟩ := node?_eq_some_iff.1 hcall
  rw [splice_eq hnodes hid hbefore] at h
  split at h
  · exact ⟨before, after, hnodes, hid, (Except.ok.inj h).symm⟩
  · cases h

/-- A splice changes no other node, unless the macro brings one with the same identifier. -/
theorem node?_splice_of_ne {parent d result : Document} {callSite : String} {call : Node}
    (hcall : parent.node? callSite = some call) (h : parent.splice callSite d = .ok result)
    {id : String} (hne : id ≠ callSite) (hclear : ∀ inner, Splice.inner callSite inner ≠ id) :
    result.node? id = parent.node? id := by
  obtain ⟨before, after, hnodes, rfl, rfl⟩ := splice_ok hcall h
  have hnone : (Splice.Site.ofCall call d).nodes.find? (fun n ↦ n.id = id) = none := by
    apply List.find?_eq_none.2
    intro n hn
    obtain ⟨m, -, rfl⟩ := List.mem_map.1 hn
    exact fun heq ↦ hclear m.id (of_decide_eq_true heq)
  unfold node?
  rw [hnodes, List.find?_append, List.find?_append, List.find?_append, hnone, Option.or_none,
    List.find?_cons_of_neg (by simpa using hne.symm)]

/-- Identifiers stay distinct if those that the macro's nodes get are not in use. -/
theorem IdsDistinct.splice {parent d result : Document} {callSite : String} {call : Node}
    (hids : parent.IdsDistinct) (hd : d.IdsDistinct) (hcall : parent.node? callSite = some call)
    (hfresh : ∀ n ∈ parent.nodes, ∀ id, n.id ≠ Splice.inner callSite id)
    (h : parent.splice callSite d = .ok result) : result.IdsDistinct := by
  obtain ⟨before, after, hnodes, rfl, rfl⟩ := splice_ok hcall h
  apply hids.replace hnodes rfl (Splice.Site.nodup_nodes hd)
  intro m hm n hn heq
  obtain ⟨k, -, rfl⟩ := List.mem_map.1 hm
  have hmem : n ∈ parent.nodes := by
    rw [hnodes]
    rcases List.mem_append.1 hn with hn | hn
    · exact List.mem_append_left _ hn
    · exact List.mem_append_right _ (List.mem_cons_of_mem _ hn)
  exact hfresh n hmem k.id heq.symm

end Document

end Provenance

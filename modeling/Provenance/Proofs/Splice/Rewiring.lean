import Mathlib.Data.List.Perm.Basic
import Mathlib.Data.List.TakeWhile
import Provenance.Proofs.Splice.Boundary

/-!
# Rewiring by substitution

The connections after a splice, stated without the way they are computed. Reading each boundary node
as the anchor that it stands for, a connection of the result is one of the calling document that
does not touch the call (`untouched`), one inside the macro (`inside`), or a path of connections
through boundary nodes that is cut short: into the macro (`entering`), out of it (`leaving`), or
through it from one side of the call to the other (`passing`).

`splice_connections_perm` says that these are all, each as often as there are such paths.
-/

open scoped List

namespace Provenance

namespace Splice

namespace Site

/-- The connections of the calling document that do not touch the call. -/
def untouched (s : Site) (parent : Document) : List Connection :=
  parent.connections.filter (fun p ↦ p.source.node ≠ s.callSite && p.target.node ≠ s.callSite)

/-- An end in the macro as the result names it: the node's identifier is written after the call's, with
a slash between them. -/
def placed (s : Site) (e : Endpoint) : Endpoint :=
  ⟨s.callSite ++ "/" ++ e.node, e.anchor⟩

theorem innerEnd_eq_placed (s : Site) (e : Endpoint) : innerEnd s.callSite e = s.placed e := rfl

/-- The connections of the macro between nodes that are not on its boundary. -/
def inside (s : Site) : List Connection :=
  s.definition.connections.filterMap (fun c ↦
    if s.definition.onBoundary c.source.node = false ∧ s.definition.onBoundary c.target.node = false
    then some ⟨s.placed c.source, s.placed c.target⟩
    else none)

/-- Where a connection into the call goes on inside the macro. -/
def entering (s : Site) (p : Connection) : List Connection :=
  s.definition.connections.filterMap (fun c ↦
    if p.target.node = s.callSite ∧ s.inputNode? p.target.anchor = some c.source.node ∧
      s.definition.onBoundary c.target.node = false
    then some ⟨p.source, s.placed c.target⟩
    else none)

/-- What a connection out of the call goes back to inside the macro. -/
def leaving (s : Site) (q : Connection) : List Connection :=
  s.definition.connections.filterMap (fun c ↦
    if q.source.node = s.callSite ∧ s.outputNode? q.source.anchor = some c.target.node ∧
      s.definition.onBoundary c.source.node = false
    then some ⟨s.placed c.source, q.target⟩
    else none)

/-- What a connection out of the call goes back to on the other side of the call. -/
def passing (s : Site) (parent : Document) (q : Connection) : List Connection :=
  s.definition.connections.flatMap (fun c ↦
    parent.connections.filterMap (fun p ↦
      if p.target.node = s.callSite ∧ s.inputNode? p.target.anchor = some c.source.node ∧
        q.source.node = s.callSite ∧ s.outputNode? q.source.anchor = some c.target.node
      then some ⟨p.source, q.target⟩
      else none))

/-! ## What a connection of the macro becomes -/

section

variable {s : Site}

theorem internal_eq_inside : s.internal = s.inside := by
  rw [internal, wires, inside, List.filterMap_filter]
  apply List.filterMap_congr
  intro c _
  cases hi : s.inputOf? c.source.node <;> cases hj : s.outputOf? c.target.node <;>
    simp [onBoundary_eq_false_iff, isUsable, hi, hj, innerEnd_eq_placed]

variable (h : s.definition.IdsDistinct)

include h

theorem targets_eq (i : Nat) :
    s.targets i = s.definition.connections.filterMap (fun c ↦
      if s.inputOf? c.source.node = some i ∧ s.definition.onBoundary c.target.node = false
      then some (s.placed c.target) else none) := by
  rw [targets, wires, List.filterMap_filter]
  apply List.filterMap_congr
  intro c _
  cases hi : s.inputOf? c.source.node with
  | none => simp
  | some i' =>
    have hnone := outputOf?_eq_none_of_inputOf? h hi
    cases hin : s.inputOf? c.target.node <;> cases hout : s.outputOf? c.target.node <;>
      simp [onBoundary_eq_false_iff, isUsable, hnone, hin, hout, innerEnd_eq_placed]

theorem sources_eq (j : Nat) :
    s.sources j = s.definition.connections.filterMap (fun c ↦
      if s.outputOf? c.target.node = some j ∧ s.definition.onBoundary c.source.node = false
      then some (s.placed c.source) else none) := by
  rw [sources, wires, List.filterMap_filter]
  apply List.filterMap_congr
  intro c _
  cases hj : s.outputOf? c.target.node with
  | none => cases hi : s.inputOf? c.source.node <;> simp
  | some j' =>
    have hnone := inputOf?_eq_none_of_outputOf? h hj
    cases hin : s.inputOf? c.source.node <;> cases hout : s.outputOf? c.source.node <;>
      simp [onBoundary_eq_false_iff, isUsable, hnone, hin, hout, innerEnd_eq_placed]

theorem passed_eq (j : Nat) :
    s.passed j = s.definition.connections.filterMap (fun c ↦
      if s.outputOf? c.target.node = some j then s.inputOf? c.source.node else none) := by
  rw [passed, wires, List.filterMap_filter]
  apply List.filterMap_congr
  intro c _
  cases hi : s.inputOf? c.source.node with
  | none => simp
  | some i =>
    have hsource := outputOf?_eq_none_of_inputOf? h hi
    cases hj : s.outputOf? c.target.node with
    | none => simp
    | some j' => simp [isUsable, hsource, inputOf?_eq_none_of_outputOf? h hj]

/-! ## What a connection of the calling document becomes -/

theorem rewireInto_eq (p : Connection) : s.rewireInto p = s.entering p := by
  unfold rewireInto entering
  by_cases hp : p.target.node = s.callSite
  · rw [if_pos hp]
    cases hi : s.inputAnchors.idxOf? p.target.anchor with
    | none => simp [inputNode?, hi]
    | some i =>
      dsimp only
      rw [targets_eq h, List.map_filterMap]
      apply List.filterMap_congr
      intro c _
      simp only [inputNode?_eq_some_iff h, hi, hp, Option.some.injEq, exists_eq_left', true_and]
      split <;> rfl
  · simp [hp]

/-- A feeder of an input anchor is the source of a connection into the call whose anchor stands for
the same boundary node. -/
theorem feeders_eq (parent : Document) {id : String} {i : Nat} (hi : s.inputOf? id = some i) :
    s.feeders parent i = parent.connections.filterMap (fun p ↦
      if p.target.node = s.callSite ∧ s.inputNode? p.target.anchor = some id
      then some p.source else none) := by
  rw [feeders, Document.incoming, List.filterMap_filter]
  apply List.filterMap_congr
  intro p _
  by_cases hp : p.target.node = s.callSite <;> simp [hp, inputNode?_eq_some_iff h, hi]

theorem rewireOut_eq (parent : Document) (q : Connection) :
    s.rewireOut parent q = s.leaving q ++ s.passing parent q := by
  unfold rewireOut leaving passing
  by_cases hq : q.source.node = s.callSite
  · rw [if_pos hq]
    cases hj : s.outputAnchors.idxOf? q.source.anchor with
    | none => simp [outputNode?, hj]
    | some j =>
      dsimp only
      rw [List.map_append, List.map_flatMap]
      congr 1
      · rw [sources_eq h, List.map_filterMap]
        apply List.filterMap_congr
        intro c _
        simp only [outputNode?_eq_some_iff h, hj, hq, Option.some.injEq, exists_eq_left', true_and]
        split <;> rfl
      · rw [passed_eq h, List.filterMap_eq_flatMap_toList, List.flatMap_assoc]
        apply List.flatMap_congr
        intro c _
        simp only [outputNode?_eq_some_iff h, hj, hq, Option.some.injEq, exists_eq_left', true_and]
        by_cases hout : s.outputOf? c.target.node = some j
        · rw [if_pos hout]
          cases hin : s.inputOf? c.source.node with
          | none => simp [inputNode?_eq_some_iff h, hin]
          | some i =>
            simp only [Option.toList_some, List.flatMap_singleton]
            rw [feeders_eq h parent hin, List.map_filterMap]
            apply List.filterMap_congr
            intro p _
            simp only [hout, and_true]
            split <;> rfl
        · simp [hout]
  · simp [hq]

theorem rewire_eq (parent : Document) (p : Connection) :
    s.rewire parent p =
      (if p.source.node ≠ s.callSite && p.target.node ≠ s.callSite then [p] else []) ++
        (s.entering p ++ (s.leaving p ++ s.passing parent p)) := by
  rw [rewire, touches, rewireInto_eq h, rewireOut_eq h]
  by_cases hp : p.target.node = s.callSite
  · simp [hp]
  · by_cases hq : p.source.node = s.callSite
    · simp [hq]
    · simp [hp, hq, entering, leaving, passing]

/-- What becomes of connections of the calling document, whatever stands between them. -/
theorem flatMap_rewire_perm (parent : Document) (ps : List Connection) :
    ps.flatMap (s.rewire parent) ~
      ps.filter (fun p ↦ p.source.node ≠ s.callSite && p.target.node ≠ s.callSite) ++
        (ps.flatMap s.entering ++ (ps.flatMap s.leaving ++ ps.flatMap (s.passing parent))) := by
  have hfilter : ps.filter (fun p ↦ p.source.node ≠ s.callSite && p.target.node ≠ s.callSite) =
      ps.flatMap (fun p ↦
        if p.source.node ≠ s.callSite && p.target.node ≠ s.callSite then [p] else []) := by
    rw [← List.filterMap_eq_filter, List.filterMap_eq_flatMap_toList]
    apply List.flatMap_congr
    intro p _
    unfold Option.guard
    split <;> rfl
  rw [List.flatMap_congr fun p _ ↦ rewire_eq h parent p, hfilter]
  apply (List.flatMap_append_perm ps _ _).symm.trans
  apply List.Perm.append_left
  apply (List.flatMap_append_perm ps _ _).symm.trans
  apply List.Perm.append_left
  exact (List.flatMap_append_perm ps _ _).symm

omit h in
theorem flatMap_rewire_of_not_touches {parent : Document} {ps : List Connection}
    (hps : ∀ p ∈ ps, s.touches p = false) : ps.flatMap (s.rewire parent) = ps := by
  calc ps.flatMap (s.rewire parent)
    _ = ps.flatMap (fun p ↦ [p]) := List.flatMap_congr fun p hp ↦ by simp [rewire, hps p hp]
    _ = ps := List.flatMap_singleton' ps

omit h in
/-- The connections of the macro stand together, at a place that depends on the calling document. -/
theorem connections_perm (parent : Document) :
    s.connections parent ~ s.internal ++ parent.connections.flatMap (s.rewire parent) := by
  have hbefore : (parent.connections.takeWhile (fun p ↦ !s.touches p)).flatMap (s.rewire parent) =
      parent.connections.takeWhile (fun p ↦ !s.touches p) :=
    flatMap_rewire_of_not_touches fun p hp ↦ by simpa using List.mem_takeWhile_imp hp
  calc s.connections parent
    _ = (parent.connections.takeWhile (fun p ↦ !s.touches p)).flatMap (s.rewire parent) ++
          s.internal ++
          (parent.connections.dropWhile (fun p ↦ !s.touches p)).flatMap (s.rewire parent) := by
        rw [connections, hbefore]
    _ ~ s.internal ++
          (parent.connections.takeWhile (fun p ↦ !s.touches p)).flatMap (s.rewire parent) ++
          (parent.connections.dropWhile (fun p ↦ !s.touches p)).flatMap (s.rewire parent) :=
        List.perm_append_comm.append_right _
    _ = s.internal ++ parent.connections.flatMap (s.rewire parent) := by
        rw [List.append_assoc, ← List.flatMap_append, List.takeWhile_append_dropWhile]

theorem connections_perm_classes (parent : Document) :
    s.connections parent ~
      s.untouched parent ++ s.inside ++ parent.connections.flatMap s.entering ++
        parent.connections.flatMap s.leaving ++
        parent.connections.flatMap (s.passing parent) := by
  calc s.connections parent
    _ ~ s.internal ++ parent.connections.flatMap (s.rewire parent) := connections_perm parent
    _ ~ s.inside ++ (s.untouched parent ++ (parent.connections.flatMap s.entering ++
          (parent.connections.flatMap s.leaving ++
            parent.connections.flatMap (s.passing parent)))) := by
        rw [internal_eq_inside]
        exact (flatMap_rewire_perm h parent parent.connections).append_left _
    _ ~ s.untouched parent ++ (s.inside ++ (parent.connections.flatMap s.entering ++
          (parent.connections.flatMap s.leaving ++
            parent.connections.flatMap (s.passing parent)))) :=
        List.perm_append_comm_assoc _ _ _
    _ = _ := by simp only [List.append_assoc]

end

end Site

end Splice

namespace Document

/-- A splice substitutes the macro for the call: the connections of the result are those that the
call is no part of, those inside the macro, and the paths into, out of and through the macro, each
as often as there are such paths. -/
theorem splice_connections_perm {parent d result : Document} {callSite : String} {call : Node}
    (hcall : parent.node? callSite = some call) (hids : d.IdsDistinct)
    (h : parent.splice callSite d = .ok result) :
    result.connections ~
      (Splice.Site.ofCall call d).untouched parent ++ (Splice.Site.ofCall call d).inside ++
        parent.connections.flatMap (Splice.Site.ofCall call d).entering ++
        parent.connections.flatMap (Splice.Site.ofCall call d).leaving ++
        parent.connections.flatMap ((Splice.Site.ofCall call d).passing parent) := by
  obtain ⟨before, after, hnodes, hid, rfl⟩ := splice_ok hcall h
  exact Splice.Site.connections_perm_classes hids parent

/-- A call of a macro with two input anchors, one of them fed twice, and two output anchors. -/
def mergeCall : Node :=
  { Node.call "M" (.named "Merge") with
    inputAnchors := ["Left", "Right"]
    outputAnchors := ["Done", "Raw"] }

/-- A workflow around that call. -/
def mergeCaller : Document where
  name := "caller"
  path := ⟨"caller.yxmd"⟩
  description := none
  nodes := [.plain "A" .input "a", mergeCall, .plain "B" .input "b", .plain "Y" .output "y"]
  connections :=
    [⟨⟨"A", "Output"⟩, ⟨"Y", "First"⟩⟩, ⟨⟨"A", "Output"⟩, ⟨"M", "Left"⟩⟩,
     ⟨⟨"B", "Output"⟩, ⟨"M", "Left"⟩⟩, ⟨⟨"B", "Output"⟩, ⟨"M", "Right"⟩⟩,
     ⟨⟨"M", "Done"⟩, ⟨"Y", "Second"⟩⟩, ⟨⟨"M", "Raw"⟩, ⟨"Y", "Third"⟩⟩]

/-- A macro that joins its inputs and passes the first of them through. -/
def mergeMacro : Document where
  name := "Merge"
  path := ⟨"Merge.yxmc"⟩
  description := none
  nodes :=
    [.plain "1" .macroInput "left", .plain "2" .macroInput "right", .plain "J" .join "join",
     .plain "S" .sort "sort", .plain "8" .macroOutput "done", .plain "9" .macroOutput "raw"]
  connections :=
    [⟨⟨"1", "Output"⟩, ⟨"J", "Left"⟩⟩, ⟨⟨"2", "Output"⟩, ⟨"J", "Right"⟩⟩,
     ⟨⟨"J", "Join"⟩, ⟨"S", "Input"⟩⟩, ⟨⟨"S", "Output"⟩, ⟨"8", "Input"⟩⟩,
     ⟨⟨"1", "Output"⟩, ⟨"9", "Input"⟩⟩]

theorem splice_connections_perm_merge :
    ∃ result, mergeCaller.node? "M" = some mergeCall ∧ mergeMacro.IdsDistinct ∧
      mergeCaller.splice "M" mergeMacro = .ok result ∧
      result.connections =
        [⟨⟨"A", "Output"⟩, ⟨"Y", "First"⟩⟩, ⟨⟨"M/J", "Join"⟩, ⟨"M/S", "Input"⟩⟩,
         ⟨⟨"A", "Output"⟩, ⟨"M/J", "Left"⟩⟩, ⟨⟨"B", "Output"⟩, ⟨"M/J", "Left"⟩⟩,
         ⟨⟨"B", "Output"⟩, ⟨"M/J", "Right"⟩⟩, ⟨⟨"M/S", "Output"⟩, ⟨"Y", "Second"⟩⟩,
         ⟨⟨"A", "Output"⟩, ⟨"Y", "Third"⟩⟩, ⟨⟨"B", "Output"⟩, ⟨"Y", "Third"⟩⟩] ∧
      result.connections ~
        (Splice.Site.ofCall mergeCall mergeMacro).untouched mergeCaller ++
          (Splice.Site.ofCall mergeCall mergeMacro).inside ++
          mergeCaller.connections.flatMap (Splice.Site.ofCall mergeCall mergeMacro).entering ++
          mergeCaller.connections.flatMap (Splice.Site.ofCall mergeCall mergeMacro).leaving ++
          mergeCaller.connections.flatMap
            ((Splice.Site.ofCall mergeCall mergeMacro).passing mergeCaller) := by
  have hcall : mergeCaller.node? "M" = some mergeCall := rfl
  have hids : mergeMacro.IdsDistinct := by
    unfold IdsDistinct
    decide
  have hsplice : mergeCaller.splice "M" mergeMacro = .ok _ := rfl
  exact ⟨_, hcall, hids, hsplice, by decide +kernel, splice_connections_perm hcall hids hsplice⟩

end Document

end Provenance

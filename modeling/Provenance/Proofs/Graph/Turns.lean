import Provenance.Proofs.Graph.Placement

/-!
# Turns

Stages join the queue when the last of their parents is placed, and leave it in the order in which
they have joined it. So all that is placed are the stages without parents in the order of the graph,
and then those that each placed stage releases, in the order of its edges (`placement_eq`): of the
stages whose parents are placed the next one is that which has been ready for longest
(`order_outranks`). The order of the graph counts among the stages without parents alone.
-/

namespace Provenance

namespace Graph

/-- The stages without parents. -/
def roots (g : Graph) : List String :=
  (g.nodes.map Stage.id).filter (fun id ↦ g.parents id = [])

/-- The stages that become ready when a stage is placed after some others. -/
def releasedBy (g : Graph) (placed : List String) (x : String) : List String :=
  (g.children x).filter (fun id ↦ id ∈ g.nodes.map Stage.id ∧ g.unplaced placed id = [x])

/-- The stages that become ready while stages are placed one by one after some others. -/
def releasedAfter (g : Graph) (placed : List String) : List String → List String
  | [] => []
  | x :: rest => g.releasedBy placed x ++ g.releasedAfter (placed ++ [x]) rest

/-- The number of stages of an order that are placed when a stage becomes ready. -/
def readySince (g : Graph) (ids : List String) (id : String) : Nat :=
  ((g.parents id).map (fun x ↦ ids.idxOf x + 1)).foldr max 0

/-- The line in which those stages stand that become ready together: at first that of the graph, and
then that of the edges of the stage placed last. -/
def line (g : Graph) (ids : List String) : Nat → List String
  | 0 => g.nodes.map Stage.id
  | count + 1 => (ids[count]?.map g.children).getD []

/-- A stage has been ready for longer than another, or they became ready together and it stands before
the other. -/
def Outranks (g : Graph) (ids : List String) (x y : String) : Prop :=
  g.readySince ids x < g.readySince ids y ∨
    g.readySince ids x = g.readySince ids y ∧
      (g.line ids (g.readySince ids x)).idxOf x < (g.line ids (g.readySince ids x)).idxOf y

variable {g : Graph} {placed rest : List String}

theorem releasedAfter_append_singleton (placed rest : List String) (x : String) :
    g.releasedAfter placed (rest ++ [x]) =
      g.releasedAfter placed rest ++ g.releasedBy (placed ++ rest) x := by
  induction rest generalizing placed with
  | nil => simp [releasedAfter]
  | cons first rest ih => simp [releasedAfter, ih]

theorem readySince_le_iff {ids : List String} {id : String} {count : Nat} :
    g.readySince ids id ≤ count ↔ ∀ x ∈ g.parents id, ids.idxOf x < count := by
  unfold readySince
  induction g.parents id with
  | nil => simp
  | cons first rest ih =>
    rw [List.map_cons, List.foldr_cons, Nat.max_le, ih, List.forall_mem_cons, Nat.succ_le_iff]

/-- A stage that is released by another one becomes ready when this one is placed. -/
theorem readySince_of_mem_releasedBy {id x : String} (hid : id ∈ g.releasedBy placed x)
    (hdistinct : (placed ++ x :: rest).Nodup) :
    g.readySince (placed ++ x :: rest) id = placed.length + 1 := by
  have hwaits : g.unplaced placed id = [x] := by
    have hboth := (List.mem_filter.1 hid).2
    exact (decide_eq_true_iff.1 hboth).2
  have hx : x ∉ placed := notMem_of_nodup_append_cons hdistinct
  have hposition : (placed ++ x :: rest).idxOf x = placed.length := by
    rw [List.idxOf_append_of_notMem hx, List.idxOf_cons_self, Nat.add_zero]
  apply Nat.le_antisymm
  · refine readySince_le_iff.2 fun y hy ↦ Nat.lt_succ_of_le ?_
    by_cases hplaced : y ∈ placed
    · rw [List.idxOf_append_of_mem hplaced]
      exact List.idxOf_le_length
    · have hmem : y ∈ g.unplaced placed id := List.mem_filter.2 ⟨hy, by simpa using hplaced⟩
      rw [hwaits, List.mem_singleton] at hmem
      rw [hmem, hposition]
  · have hparent : x ∈ g.parents id := by
      have hmem : x ∈ g.unplaced placed id := hwaits ▸ List.mem_singleton_self x
      exact (List.mem_filter.1 hmem).1
    have hlt := readySince_le_iff.1 (Nat.le_refl (g.readySince (placed ++ x :: rest) id)) x hparent
    rwa [hposition] at hlt

/-- What is released later becomes ready later. -/
theorem lt_readySince_of_mem_releasedAfter {id : String} (hid : id ∈ g.releasedAfter placed rest)
    (hdistinct : (placed ++ rest).Nodup) :
    placed.length < g.readySince (placed ++ rest) id := by
  induction rest generalizing placed with
  | nil => cases hid
  | cons x rest ih =>
    rcases List.mem_append.1 hid with hid | hid
    · rw [readySince_of_mem_releasedBy hid hdistinct]
      exact Nat.lt_succ_self _
    · rw [List.append_cons] at hdistinct ⊢
      have hlt := ih hid hdistinct
      rw [List.length_append] at hlt
      exact Nat.lt_of_succ_lt hlt

/-- Stages that become ready together are placed in the order of their line. -/
theorem pairwise_outranks_of_sublist {ids members : List String} {count : Nat}
    (hready : ∀ id ∈ members, g.readySince ids id = count)
    (hline : members.Sublist (g.line ids count)) (hdistinct : (g.line ids count).Nodup) :
    members.Pairwise (g.Outranks ids) := by
  refine ((pairwise_idxOf hdistinct).sublist hline).imp_of_mem ?_
  intro x y hx hy hlt
  refine .inr ⟨(hready x hx).trans (hready y hy).symm, ?_⟩
  rwa [hready x hx]

section

variable (hg : g.Indexed)

include hg

/-- The queue holds the stages without parents and those that what is placed has released. -/
theorem placement_eq : g.placement = g.roots ++ g.releasedAfter [] g.placement := by
  have hturn {placed queue : List String} {f : Frontier} {x : String} (h : f.Fits g placed)
      (hkept : placed ++ f.queue = g.roots ++ g.releasedAfter [] placed)
      (hqueue : f.queue = x :: queue) :
      placed ++ [x] ++ ((g.children x).foldl Frontier.release { f with queue := queue }).queue =
        g.roots ++ g.releasedAfter [] (placed ++ [x]) := by
    have hx : x ∉ placed := h.notMem hqueue
    have hreleased : (g.children x).filter (fun id ↦ (Table.find? id f.waiting).any (· ≤ 1)) =
        g.releasedBy placed x := by
      apply List.filter_congr
      intro id hid
      have hiff : id ∈ List.filter _ _ ↔ _ := h.mem_released_iff hg hx
      rw [List.mem_filter, and_iff_right hid] at hiff
      rw [Bool.eq_iff_iff, hiff, decide_eq_true_iff]
    rw [(Frontier.foldl_release _ (hg.nodup_children x)).2, hreleased,
      releasedAfter_append_singleton, List.nil_append, ← List.append_assoc g.roots, ← hkept, hqueue]
    simp
  have hstart : [] ++ g.startFrontier.queue = g.roots ++ g.releasedAfter [] [] := by
    rw [List.nil_append, releasedAfter, List.append_nil]
    apply List.filter_congr
    intro id hid
    have hwaiting := (fits_start hg).waiting id
    rw [if_pos hid, unplaced_nil, startFrontier] at hwaiting
    simp [hwaiting]
  obtain ⟨last, hqueue, -, hlast⟩ := exists_last_frontier hg
    (fun placed f ↦ placed ++ f.queue = g.roots ++ g.releasedAfter [] placed) hturn hstart
  rwa [hqueue, List.append_nil] at hlast

theorem pairwise_outranks_releasedAfter (hdistinct : (placed ++ rest).Nodup) :
    (g.releasedAfter placed rest).Pairwise (g.Outranks (placed ++ rest)) := by
  induction rest generalizing placed with
  | nil => exact List.Pairwise.nil
  | cons x rest ih =>
    have hline : g.line (placed ++ x :: rest) (placed.length + 1) = g.children x := by
      simp [line]
    refine List.pairwise_append.2 ⟨?_, ?_, fun id hid id' hid' ↦ .inl ?_⟩
    · refine pairwise_outranks_of_sublist
        (fun id hid ↦ readySince_of_mem_releasedBy hid hdistinct) ?_ ?_
      · exact hline ▸ List.filter_sublist
      · exact hline ▸ hg.nodup_children x
    · rw [List.append_cons] at hdistinct ⊢
      exact ih hdistinct
    · rw [readySince_of_mem_releasedBy hid hdistinct]
      rw [List.append_cons] at hdistinct ⊢
      simpa using lt_readySince_of_mem_releasedAfter hid' hdistinct

theorem pairwise_outranks_placement : g.placement.Pairwise (g.Outranks g.placement) := by
  have hdistinct := (placement_spec hg).1
  have hreleased : (g.releasedAfter [] g.placement).Pairwise (g.Outranks ([] ++ g.placement)) :=
    pairwise_outranks_releasedAfter hg hdistinct
  have hroots : ∀ id ∈ g.roots, g.readySince g.placement id = 0 := by
    intro id hid
    have hparents : g.parents id = [] := by simpa using (List.mem_filter.1 hid).2
    simp [readySince, hparents]
  have hall : (g.roots ++ g.releasedAfter [] g.placement).Pairwise (g.Outranks g.placement) := by
    refine List.pairwise_append.2 ⟨?_, hreleased, fun id hid id' hid' ↦ .inl ?_⟩
    · exact pairwise_outranks_of_sublist hroots List.filter_sublist hg.distinct
    · have hlater : 0 < g.readySince ([] ++ g.placement) id' :=
        lt_readySince_of_mem_releasedAfter hid' hdistinct
      rwa [hroots id hid]
  rwa [← placement_eq hg] at hall

end

/-- At each position of an order stands a stage whose parents have been placed; of all that have not
been placed it comes first, by how long they have been ready and then by their line. -/
theorem order_outranks (h : g.Obtained) {ids before after : List String} {x : String}
    (horder : g.order = .ok ids) (hsplit : ids = before ++ x :: after) :
    (∀ y ∈ g.parents x, y ∈ before) ∧ ∀ y ∈ after, g.Outranks ids x y := by
  have hg := h.indexed
  obtain ⟨rfl, -⟩ := eq_placement_of_order_eq_ok hg horder
  constructor
  · simpa using (fits_start hg).parents_before hg hsplit
  · have hall := pairwise_outranks_placement hg
    nth_rewrite 2 [hsplit] at hall
    exact (List.pairwise_cons.1 (List.pairwise_append.1 hall).2.1).1

/-- A stage that releases two others, the second of which comes first in the graph. -/
def fork : Graph :=
  sketch ["a", "b", "c", "d"] [("a", "c"), ("a", "b")]

theorem order_outranks_fork :
    fork.Obtained ∧ fork.order = .ok ["a", "d", "c", "b"] ∧
      ["a", "d", "c", "b"] = ["a", "d"] ++ "c" :: ["b"] ∧
      fork.Outranks ["a", "d", "c", "b"] "c" "b" := by
  have hobtained : fork.Obtained := .ofLists ..
  have horder : fork.order = .ok ["a", "d", "c", "b"] := by decide +kernel
  have hsplit : ["a", "d", "c", "b"] = ["a", "d"] ++ "c" :: ["b"] := rfl
  exact ⟨hobtained, horder, hsplit, (order_outranks hobtained horder hsplit).2 "b" (by simp)⟩

/-- A stage that is ready and comes first in the graph need not be placed next: once `a` is placed, `b`
is ready too, but `c` has been so for longer. -/
theorem not_first_of_graph_placed_next :
    ¬∀ g : Graph, g.Obtained → ∀ ids before x after, g.order = .ok ids →
      ids = before ++ x :: after → ∀ y ∈ after, (∀ p ∈ g.parents y, p ∈ before) →
        (g.nodes.map Stage.id).idxOf x < (g.nodes.map Stage.id).idxOf y := by
  intro h
  have horder : (sketch ["a", "b", "c"] [("a", "b")]).order = .ok ["a", "c", "b"] := by
    decide +kernel
  have hready : ∀ p ∈ (sketch ["a", "b", "c"] [("a", "b")]).parents "b", p ∈ ["a"] := by
    decide +kernel
  have hfirst := h _ (.ofLists ..) _ ["a"] "c" ["b"] horder rfl "b" (by simp) hready
  revert hfirst
  decide +kernel

end Graph

end Provenance

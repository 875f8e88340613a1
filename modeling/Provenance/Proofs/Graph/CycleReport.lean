import Provenance.Proofs.Graph.Placement
import Provenance.Proofs.Graph.ShortestCycle

/-!
# Reports of cycles

The cycles of stages all remain when the stages are placed, so that the search among the stages that
remain misses none (`IsCycle.subset_remaining`): the cycle that is reported is one of the shortest of
the graph (`order_cycle_shortest`). But stages also remain where an edge leads to one of them from an
identifier that no stage has; if there is no cycle then, none is reported (`order_eq_error_iff`).
-/

open Relation

namespace Provenance

namespace Graph

variable {g : Graph} {cycle : List String}

/-- One thing is reached from another if a chain leads from it to the other. -/
theorem transGen_iff_exists_isChain {r : String → String → Prop} {x y : String} :
    TransGen r x y ↔ ∃ rest, (x :: rest ++ [y]).IsChain r := by
  constructor
  · intro h
    induction h using TransGen.head_induction_on with
    | single hstep => exact ⟨[], List.isChain_pair.2 hstep⟩
    | @head x z hstep _ ih =>
      obtain ⟨rest, hchain⟩ := ih
      exact ⟨z :: rest, List.isChain_cons_cons.2 ⟨hstep, hchain⟩⟩
  · rintro ⟨rest, hchain⟩
    induction rest generalizing x with
    | nil => exact .single (List.isChain_pair.1 hchain)
    | cons z rest ih =>
      obtain ⟨hstep, hchain⟩ := List.isChain_cons_cons.1 hchain
      exact .head hstep (ih hchain)

theorem transGen_links_of_isChain {x y : String} {rest : List String}
    (h : (x :: rest ++ [y]).IsChain g.Precedes)
    (hstages : x :: rest ++ [y] ⊆ g.nodes.map Stage.id) : TransGen g.Links x y :=
  transGen_iff_exists_isChain.2 ⟨rest, (List.IsChain.iff_mem.1 h).imp
    fun _ _ ⟨hx, hy, hstep⟩ ↦ ⟨hstep, hstages hx, hstages hy⟩⟩

theorem exists_isChain_of_transGen_links {x y : String} (h : TransGen g.Links x y) :
    ∃ rest, (x :: rest ++ [y]).IsChain g.Precedes ∧ x :: rest ⊆ g.nodes.map Stage.id := by
  induction h using TransGen.head_induction_on with
  | single hstep => exact ⟨[], List.isChain_pair.2 hstep.1, by simpa using hstep.2.1⟩
  | @head x z hstep _ ih =>
    obtain ⟨rest, hchain, hstages⟩ := ih
    exact ⟨z :: rest, List.isChain_cons_cons.2 ⟨hstep.1, hchain⟩,
      List.cons_subset.2 ⟨hstep.2.1, hstages⟩⟩

theorem IsCycle.transGen_links (h : g.IsCycle cycle) (hstages : cycle ⊆ g.nodes.map Stage.id)
    {id : String} (hid : id ∈ cycle) : TransGen g.Links id id := by
  obtain ⟨turned, hturned, hhead, hperm⟩ := h.rotate hid
  cases turned with
  | nil => cases hhead
  | cons first rest =>
    obtain rfl := Option.some.inj hhead
    have hturnedin : first :: rest ⊆ g.nodes.map Stage.id := fun x hx ↦ hstages (hperm.subset hx)
    refine transGen_links_of_isChain hturned (List.append_subset.2 ⟨hturnedin, ?_⟩)
    simpa using hstages hid

/-- There is a cycle of stages if links lead from a stage back to it. -/
theorem exists_isCycle_iff : (∃ cycle, g.IsCycle cycle ∧ cycle ⊆ g.nodes.map Stage.id) ↔
    ∃ id, TransGen g.Links id id := by
  constructor
  · rintro ⟨cycle, hcycle, hstages⟩
    obtain ⟨id, hid⟩ := hcycle.exists_mem
    exact ⟨id, hcycle.transGen_links hstages hid⟩
  · rintro ⟨id, hid⟩
    obtain ⟨rest, hchain, hstages⟩ := exists_isChain_of_transGen_links hid
    exact ⟨id :: rest, hchain, hstages⟩

theorem IsCycle.subset_of_joined (hjoined : g.Joined) (h : g.IsCycle cycle) :
    cycle ⊆ g.nodes.map Stage.id := by
  intro id hid
  obtain ⟨turned, hturned, hhead, -⟩ := h.rotate hid
  have hstep : ∃ y, g.Precedes id y := by
    match turned, hhead with
    | [_], rfl => exact ⟨_, List.isChain_pair.1 hturned⟩
    | _ :: y :: _, rfl => exact ⟨y, (List.isChain_cons_cons.1 hturned).1⟩
  obtain ⟨y, e, he, rfl, -⟩ := hstep
  exact (hjoined e he).1

section

variable (hg : g.Indexed)

include hg

/-- No stage of a cycle can be placed. -/
theorem IsCycle.subset_remaining (h : g.IsCycle cycle) (hstages : cycle ⊆ g.nodes.map Stage.id) :
    cycle ⊆ g.remaining := fun id hid ↦
  (mem_remaining_iff_stuck hg).2 ⟨id, .inl (h.transGen_links hstages hid), .refl⟩

/-- Of the stages that remain, one comes before another in the order of the graph. -/
theorem idxOf_le_of_remaining_eq {before after : List String} {first id : String}
    (hsplit : g.remaining = before ++ first :: after) (hid : id ∈ g.remaining) (hnot : id ∉ before) :
    (g.nodes.map Stage.id).idxOf first ≤ (g.nodes.map Stage.id).idxOf id := by
  have hsorted := (pairwise_idxOf hg.distinct).sublist
    (List.filter_sublist (p := fun id ↦ decide (id ∉ g.placement)))
  change g.remaining.Pairwise _ at hsorted
  rw [hsplit] at hsorted hid
  rcases List.mem_cons.1 ((List.mem_append.1 hid).resolve_left hnot) with rfl | hafter
  · exact Nat.le_refl _
  · exact (List.rel_of_pairwise_cons (List.pairwise_append.1 hsorted).2.1 hafter).le

end

/-- Where every edge leads from stage to stage and there is a circle, a cycle without repetition is
reported that is one of the shortest of the graph, from the first stage in the graph that is on such
a cycle. -/
theorem order_cycle_shortest (h : g.Obtained) (hjoined : g.Joined) (hcyclic : ¬g.Acyclic) :
    ∃ report first rest, g.order = .error report ∧ report.cycle = first :: rest ∧
      g.IsCycle report.cycle ∧ report.cycle.Nodup ∧
      ∀ other, g.IsCycle other → report.cycle.length ≤ other.length ∧
        (other.length = report.cycle.length → ∀ id ∈ other,
          (g.nodes.map Stage.id).idxOf first ≤ (g.nodes.map Stage.id).idxOf id) := by
  have hg := h.indexed
  have hremaining : g.remaining ≠ [] := mt (remaining_eq_nil_iff hg hjoined).1 hcyclic
  have hin {other : List String} (hother : g.IsCycle other) : other ⊆ g.remaining :=
    hother.subset_remaining hg (hother.subset_of_joined hjoined)
  obtain ⟨cycle, hcycle, -⟩ := exists_isCycle_iff.2 (by
    rw [links_eq_precedes hjoined]
    unfold Acyclic at hcyclic
    push Not at hcyclic
    exact hcyclic)
  obtain ⟨before, first, after, hsplit, hcycle, hhead, hsimple, hleast⟩ :=
    shortestCycle_spec hg hcycle (hin hcycle)
  obtain ⟨rest, hrest⟩ := List.head?_eq_some_iff.1 hhead
  refine ⟨⟨g.remaining, g.shortestCycle g.remaining⟩, first, rest,
    by rw [order_eq hg, if_neg hremaining], hrest, hcycle, hsimple, fun other hother ↦ ?_⟩
  obtain ⟨hle, hfirst⟩ := hleast other hother (hin hother)
  exact ⟨hle, fun hlength id hid ↦
    idxOf_le_of_remaining_eq hg hsplit (hin hother hid) (hfirst hlength id hid)⟩

/-- A cycle of three stages and one of two, which have a stage in common. -/
def bow : Graph :=
  sketch ["s", "a", "b", "c", "d"]
    [("s", "a"), ("a", "b"), ("b", "c"), ("c", "a"), ("b", "d"), ("d", "b")]

theorem order_cycle_shortest_bow :
    bow.Obtained ∧ bow.Joined ∧ ¬bow.Acyclic ∧
      bow.order = .error ⟨["a", "b", "c", "d"], ["b", "d"]⟩ ∧
      ∀ other, bow.IsCycle other → 2 ≤ other.length ∧
        (other.length = 2 → ∀ id ∈ other,
          (bow.nodes.map Stage.id).idxOf "b" ≤ (bow.nodes.map Stage.id).idxOf id) := by
  have hobtained : bow.Obtained := .ofLists ..
  have hjoined : bow.Joined := by unfold Joined; decide +kernel
  have horder : bow.order = .error ⟨["a", "b", "c", "d"], ["b", "d"]⟩ := by decide +kernel
  have hcyclic : ¬bow.Acyclic := fun hacyclic ↦ by
    obtain ⟨ids, hids⟩ := (exists_order_eq_ok_iff hobtained.indexed hjoined).2 hacyclic
    rw [horder] at hids
    cases hids
  refine ⟨hobtained, hjoined, hcyclic, horder, ?_⟩
  obtain ⟨report, first, rest, hreport, hcycle, -, -, hleast⟩ :=
    order_cycle_shortest hobtained hjoined hcyclic
  obtain rfl := Except.error.inj (horder.symm.trans hreport)
  obtain rfl : "b" = first := (List.cons.inj hcycle).1
  exact hleast

/-- There is no order if there is a cycle of stages, or if an edge leads to a stage from an identifier
that no stage has. A cycle is reported if there is one of stages, and then it is one of the graph. -/
theorem order_eq_error_iff (h : g.Obtained) :
    ((∃ report, g.order = .error report) ↔
        (∃ cycle, g.IsCycle cycle ∧ cycle ⊆ g.nodes.map Stage.id) ∨
          ∃ e ∈ g.edges, e.source ∉ g.nodes.map Stage.id ∧ e.target ∈ g.nodes.map Stage.id) ∧
      ∀ report, g.order = .error report →
        (report.cycle ≠ [] ↔ ∃ cycle, g.IsCycle cycle ∧ cycle ⊆ g.nodes.map Stage.id) ∧
          (report.cycle ≠ [] → g.IsCycle report.cycle ∧ report.cycle ⊆ g.nodes.map Stage.id) := by
  have hg := h.indexed
  have hreported (hsome : g.shortestCycle g.remaining ≠ []) :
      g.IsCycle (g.shortestCycle g.remaining) ∧
        g.shortestCycle g.remaining ⊆ g.nodes.map Stage.id := by
    obtain ⟨hcycle, hin⟩ := isCycle_shortestCycle hg hsome
    exact ⟨hcycle, fun id hid ↦ (mem_remaining_iff.1 (hin hid)).1⟩
  constructor
  · rw [exists_order_eq_error_iff hg, exists_isCycle_iff]
    apply or_congr_right
    constructor
    · rintro ⟨id, hid, x, ⟨e, he, rfl, rfl⟩, hnot⟩
      exact ⟨e, he, hnot, hid⟩
    · rintro ⟨e, he, hnot, hid⟩
      exact ⟨e.target, hid, e.source, ⟨e, he, rfl, rfl⟩, hnot⟩
  · intro report hreport
    obtain ⟨rfl, -⟩ := eq_remaining_of_order_eq_error hg hreport
    refine ⟨⟨fun hsome ↦ ⟨_, hreported hsome⟩, ?_⟩, hreported⟩
    rintro ⟨cycle, hcycle, hstages⟩ hnone
    obtain ⟨_, _, _, -, hshortest, -⟩ :=
      shortestCycle_spec hg hcycle (hcycle.subset_remaining hg hstages)
    exact (congrArg g.IsCycle hnone).mp hshortest

/-- A stage that waits for no stage, next to a cycle. -/
def straggler : Graph :=
  sketch ["a", "b", "c"] [("x", "a"), ("b", "c"), ("c", "b")]

theorem order_eq_error_iff_straggler :
    straggler.Obtained ∧ straggler.order = .error ⟨["a", "b", "c"], ["b", "c"]⟩ ∧
      straggler.IsCycle ["b", "c"] ∧ ["b", "c"] ⊆ straggler.nodes.map Stage.id := by
  have hobtained : straggler.Obtained := .ofLists ..
  have horder : straggler.order = .error ⟨["a", "b", "c"], ["b", "c"]⟩ := by decide +kernel
  exact ⟨hobtained, horder, ((order_eq_error_iff hobtained).2 _ horder).2 (by decide)⟩

/-- A stage that waits for no stage, alone. -/
def orphan : Graph :=
  sketch ["b"] [("a", "b")]

/-- A graph without a circle can lack an order, and then no cycle is reported: the only edge leads to the
only stage from an identifier that no stage has. -/
theorem order_orphan : orphan.Obtained ∧ orphan.Acyclic ∧ orphan.order = .error ⟨["b"], []⟩ := by
  refine ⟨.ofLists .., fun id hcircle ↦ ?_, by decide +kernel⟩
  have hedge : ∀ e ∈ orphan.edges, e.source = "a" ∧ e.target = "b" := by decide +kernel
  obtain ⟨_, ⟨e, he, hsource, -⟩, -⟩ := TransGen.head'_iff.1 hcircle
  obtain ⟨_, -, e', he', -, htarget⟩ := TransGen.tail'_iff.1 hcircle
  have hsame : "a" = "b" :=
    (hedge e he).1.symm.trans (hsource.trans (htarget.symm.trans (hedge e' he').2))
  exact absurd hsame (by decide)

end Graph

end Provenance

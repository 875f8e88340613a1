import Provenance.Proofs.Graph.Order

/-!
# The course of a placement

The placement of the stages one change at a time (`Moment.next?`): a child of the stage placed last
takes note of it, or if there is no such child left the next stage is placed. Between the turns the
frontier is the one after the last turn with some children released (`Moment.Regular`). So a child
that takes note waits for one parent at least, and a stage joins the queue once.
-/

open Relation

namespace Provenance

namespace Graph

/-- A moment of the placement. -/
structure Moment where
  placed : List String
  frontier : Frontier
  /-- The children of the stage placed last that have not taken note of it. -/
  pending : List String

namespace Moment

/-- The stages that have been in the queue, in the order in which they joined it. -/
def queued (m : Moment) : List String :=
  m.placed ++ m.frontier.queue

/-- The next change: a child is released, or if there is none the next stage is placed. -/
def next? (g : Graph) (m : Moment) : Option Moment :=
  match m.pending, m.frontier.queue with
  | id :: pending, _ => some ⟨m.placed, m.frontier.release id, pending⟩
  | [], x :: queue =>
    some ⟨m.placed ++ [x], { m.frontier with queue := queue }, g.children x⟩
  | [], [] => none

/-- The frontier is that after a turn, or that after a turn with some children released. -/
inductive Regular (g : Graph) : Moment → Prop
  | idle {placed : List String} {f : Frontier} (h : f.Fits g placed) : Regular g ⟨placed, f, []⟩
  | releasing {placed queue released pending : List String} {f : Frontier} {x : String}
      (h : f.Fits g placed) (hqueue : f.queue = x :: queue)
      (hchildren : g.children x = released ++ pending) :
      Regular g ⟨placed ++ [x], released.foldl Frontier.release { f with queue := queue }, pending⟩

end Moment

/-- Whether the placement comes to a moment. -/
def Passes (g : Graph) (m : Moment) : Prop :=
  ReflTransGen (fun m m' ↦ m.next? g = some m') ⟨[], g.startFrontier, []⟩ m

variable {g : Graph} {m m' : Moment}

/-- A stage that has joined the queue stays on record. -/
theorem Moment.queued_prefix_of_next? (h : m.next? g = some m') : m.queued <+: m'.queued := by
  unfold next? at h
  split at h
  · obtain rfl := Option.some.inj h
    simp [queued, Frontier.queue_release, ← List.append_assoc]
  · rename_i hqueue
    obtain rfl := Option.some.inj h
    simp [queued, hqueue]
  · cases h

theorem Passes.release {placed ids : List String} {f : Frontier}
    (h : g.Passes ⟨placed, f, ids⟩) : g.Passes ⟨placed, ids.foldl Frontier.release f, []⟩ := by
  induction ids generalizing f with
  | nil => exact h
  | cons id rest ih => exact ih (h.tail rfl)

section

variable (hg : g.Indexed)

include hg

/-- The moments lead to the end of the placement. -/
theorem exists_passes_placement : ∃ m, g.Passes m ∧ m.next? g = none ∧ m.placed = g.placement := by
  have hturn {placed queue : List String} {f : Frontier} {x : String} (_ : f.Fits g placed)
      (hpasses : g.Passes ⟨placed, f, []⟩) (hqueue : f.queue = x :: queue) :
      g.Passes ⟨placed ++ [x], (g.children x).foldl Frontier.release { f with queue := queue }, []⟩ := by
    have hplace : Moment.next? g ⟨placed, f, []⟩ =
        some ⟨placed ++ [x], { f with queue := queue }, g.children x⟩ := by
      simp [Moment.next?, hqueue]
    exact Passes.release (hpasses.tail hplace)
  obtain ⟨last, hqueue, -, hlast⟩ :=
    exists_last_frontier hg (fun placed f ↦ g.Passes ⟨placed, f, []⟩) hturn .refl
  exact ⟨_, hlast, by simp [Moment.next?, hqueue], rfl⟩

namespace Moment

theorem Regular.fits (h : m.Regular g) (hpending : m.pending = []) :
    m.frontier.Fits g m.placed := by
  cases h with
  | idle h => exact h
  | releasing h hqueue hchildren =>
    obtain rfl : _ = [] := hpending
    rw [List.append_nil] at hchildren
    exact hchildren ▸ h.next hg hqueue

theorem Regular.next (h : m.Regular g) (hnext : m.next? g = some m') : m'.Regular g := by
  have hfits := h.fits hg
  unfold next? at hnext
  split at hnext
  · rename_i hpending
    cases h with
    | idle h => cases hpending
    | releasing h hqueue hchildren =>
      obtain rfl := hpending
      obtain rfl := Option.some.inj hnext
      have hreleased := Regular.releasing h hqueue (hchildren.trans (List.append_cons ..))
      rwa [List.foldl_concat] at hreleased
  · rename_i x queue hpending hqueue
    obtain rfl := Option.some.inj hnext
    exact .releasing (hfits hpending) hqueue (List.nil_append _).symm
  · cases hnext

theorem regular_of_passes (h : g.Passes m) : m.Regular g := by
  induction h with
  | refl => exact .idle (fits_start hg)
  | tail _ hnext ih => exact ih.next hg hnext

/-- No stage joins the queue twice. -/
theorem Regular.nodup_queued (h : m.Regular g) : m.queued.Nodup := by
  cases h with
  | idle h => exact h.distinct
  | @releasing placed queue released pending f x h hqueue hchildren =>
    -- The children that join the queue now are some of those that have joined it after the turn.
    have hafter := (h.next hg hqueue).distinct
    have hdistinct := hg.nodup_children x
    rw [(Frontier.foldl_release _ hdistinct).2] at hafter
    rw [hchildren] at hdistinct hafter
    rw [queued, (Frontier.foldl_release _ hdistinct.of_append_left).2]
    refine hafter.sublist (.append_left (.append_left ?_ _) _)
    rw [List.filter_append]
    exact List.sublist_append_left ..

/-- A child that takes note of a stage waits for one at least. -/
theorem Regular.pos_of_find? (h : m.Regular g) {id : String} {pending : List String} {count : Nat}
    (hpending : m.pending = id :: pending)
    (hcount : Table.find? id m.frontier.waiting = some count) : 0 < count := by
  cases h with
  | idle h => cases hpending
  | @releasing placed queue released _ f x h hqueue hchildren =>
    obtain rfl := hpending
    have hdistinct := hg.nodup_children x
    have hid : id ∈ g.children x := by simp [hchildren]
    rw [hchildren] at hdistinct
    have hnew : id ∉ released := notMem_of_nodup_append_cons hdistinct
    have hx : x ∉ placed := h.notMem hqueue
    rw [(Frontier.foldl_release _ hdistinct.of_append_left).1, if_neg hnew, h.waiting] at hcount
    split at hcount
    · obtain rfl := Option.some.inj hcount
      exact List.length_pos_of_mem ((mem_children_iff hg hx).1 hid)
    · cases hcount

end Moment

end

/-- Where every edge leads from stage to stage there is an order if there is no circle. An order lists
each stage once, and the source of every edge before its target; where there is none, the stages that
are reported are those that data reaches from a circle, in the order of the graph. On the way no stage
joins the queue twice, and no stage is counted down that waits for none. -/
theorem order_correct (h : g.Obtained) (hjoined : g.Joined) :
    ((∃ ids, g.order = .ok ids) ↔ g.Acyclic) ∧
      (∀ ids, g.order = .ok ids → ids.Perm (g.nodes.map Stage.id) ∧
        ∀ e ∈ g.edges, ids.idxOf e.source < ids.idxOf e.target) ∧
      (∀ report, g.order = .error report →
        report.unsorted.Sublist (g.nodes.map Stage.id) ∧
          ∀ id, id ∈ report.unsorted ↔
            ∃ c, TransGen g.Precedes c c ∧ ReflTransGen g.Precedes c id) ∧
      (∃ m, g.Passes m ∧ m.next? g = none ∧ m.placed = g.placement) ∧
      ∀ m, g.Passes m → m.queued.Nodup ∧ (∀ m', m.next? g = some m' → m.queued <+: m'.queued) ∧
        ∀ id pending count, m.pending = id :: pending →
          Table.find? id m.frontier.waiting = some count → 0 < count := by
  have hg := h.indexed
  refine ⟨exists_order_eq_ok_iff hg hjoined, fun ids hids ↦ ⟨perm_of_order_eq_ok hg hids, ?_⟩,
    fun report hreport ↦ ?_, exists_passes_placement hg, fun m hm ↦ ?_⟩
  · intro e he
    have htarget : e.target ∈ ids := (perm_of_order_eq_ok hg hids).mem_iff.2 (hjoined e he).2
    obtain ⟨rfl, -⟩ := eq_placement_of_order_eq_ok hg hids
    exact (idxOf_lt_of_precedes hg ⟨e, he, rfl, rfl⟩ htarget).2
  · obtain ⟨rfl, -⟩ := eq_remaining_of_order_eq_error hg hreport
    exact ⟨List.filter_sublist, fun id ↦ mem_remaining_iff_of_joined hg hjoined⟩
  · have hregular := Moment.regular_of_passes hg hm
    exact ⟨hregular.nodup_queued hg, fun m' ↦ Moment.queued_prefix_of_next?,
      fun id pending count ↦ hregular.pos_of_find? hg⟩

/-- The graph with some stages and edges of which nothing is set but their ends. -/
def sketch (ids : List String) (ends : List (String × String)) : Graph :=
  ofLists "sketch" ⟨"sketch.yxmd"⟩
    (ids.map (fun id ↦ ⟨id, id, id, .transform, "", false, none, none⟩))
    (ends.map (fun (x, y) ↦ ⟨x, y, "Output", "Input", .data, none⟩))

/-- Two circles, one of them with a self-loop and fed from outside, and a stage that they reach along
two edges. -/
def rings : Graph :=
  sketch ["s", "a", "b", "c", "d", "e"]
    [("s", "a"), ("a", "b"), ("b", "c"), ("c", "a"), ("c", "c"), ("b", "d"), ("d", "b"), ("d", "e"),
      ("d", "e")]

theorem order_correct_rings :
    rings.Obtained ∧ rings.Joined ∧
      rings.order = .error ⟨["a", "b", "c", "d", "e"], ["c"]⟩ ∧
      ∃ c, TransGen rings.Precedes c c ∧ ReflTransGen rings.Precedes c "e" := by
  have hobtained : rings.Obtained := .ofLists ..
  have hjoined : rings.Joined := by unfold Joined; decide +kernel
  have horder : rings.order = .error ⟨["a", "b", "c", "d", "e"], ["c"]⟩ := by decide +kernel
  refine ⟨hobtained, hjoined, horder, ?_⟩
  exact (((order_correct hobtained hjoined).2.2.1 _ horder).2 "e").1 (by simp)

end Graph

end Provenance

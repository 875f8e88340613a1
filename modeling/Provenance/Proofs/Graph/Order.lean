import Mathlib.Order.WellFoundedSet
import Provenance.Graph.Order
import Provenance.Proofs.Graph.Index

/-!
# The order of a graph

The stages are placed one after the other, and each is counted down to when one of its parents is
placed. At any time the count of a stage is the number of its parents that are not placed
(`unplaced`), and the stages whose turn has come are those with no such parent (`Fits`). At the end
all whose parents are placed are placed themselves, and the parents of a stage come before it. So
the stages that remain are those that data reaches from a circle, or from a stage with a parent that
the graph does not have (`mem_remaining_iff_stuck`): where edges lead from stage to stage, there is an
order if there is no circle (`exists_order_eq_ok_iff`).
-/

open Relation

namespace Provenance

namespace Graph

/-- The parents of a stage that have not been placed. -/
def unplaced (g : Graph) (placed : List String) (id : String) : List String :=
  (g.parents id).filter (· ∉ placed)

/-- Every edge leads from a stage of the graph to a stage of the graph. -/
def Joined (g : Graph) : Prop :=
  ∀ e ∈ g.edges, e.source ∈ g.nodes.map Stage.id ∧ e.target ∈ g.nodes.map Stage.id

/-- No edges form a circle. -/
def Acyclic (g : Graph) : Prop :=
  ∀ id, ¬TransGen g.Precedes id id

/-- An edge leads from one stage of the graph to another. -/
def Links (g : Graph) (x y : String) : Prop :=
  g.Precedes x y ∧ x ∈ g.nodes.map Stage.id ∧ y ∈ g.nodes.map Stage.id

/-- An edge leads to a stage from an identifier that no stage has. -/
def LacksParent (g : Graph) (id : String) : Prop :=
  id ∈ g.nodes.map Stage.id ∧ ∃ x, g.Precedes x id ∧ x ∉ g.nodes.map Stage.id

/-- Data reaches a stage from a circle, or from a stage that waits for no stage. -/
def Stuck (g : Graph) (id : String) : Prop :=
  ∃ root, (TransGen g.Links root root ∨ g.LacksParent root) ∧ ReflTransGen g.Links root id

/-- All stages that can be placed, in the order in which their turn comes. -/
def placement (g : Graph) : List String :=
  g.place g.nodes.length g.startFrontier

/-- The stages that cannot be placed. -/
def remaining (g : Graph) : List String :=
  (g.nodes.map Stage.id).filter (· ∉ g.placement)

namespace Frontier

/-! ## Counting down -/

theorem find?_release (f : Frontier) (id key : String) :
    Table.find? key (f.release id).waiting =
      if id = key then (Table.find? key f.waiting).map (· - 1) else Table.find? key f.waiting := by
  unfold release
  by_cases heq : id = key
  · subst heq
    split
    · rename_i hnone
      simp [hnone]
    · rename_i count hcount
      simp [hcount, Table.find?_insert]
  · split
    · rw [if_neg heq]
    · rw [Table.find?_insert, if_neg heq, if_neg heq]

theorem queue_release (f : Frontier) (id : String) :
    (f.release id).queue =
      f.queue ++ [id].filter (fun id ↦ (Table.find? id f.waiting).any (· ≤ 1)) := by
  unfold release
  split
  · rename_i hnone
    simp [hnone]
  · rename_i count hcount
    by_cases hle : count ≤ 1
    · have hzero : count - 1 = 0 := by omega
      simp [hcount, hle, hzero]
    · have hpositive : count - 1 ≠ 0 := by omega
      simp [hcount, hle, hpositive]

/-- To release some stages counts down each of them, and queues those that waited for one parent. -/
theorem foldl_release (f : Frontier) {ids : List String} (h : ids.Nodup) :
    (∀ key, Table.find? key (ids.foldl release f).waiting =
        if key ∈ ids then (Table.find? key f.waiting).map (· - 1)
        else Table.find? key f.waiting) ∧
      (ids.foldl release f).queue =
        f.queue ++ ids.filter (fun id ↦ (Table.find? id f.waiting).any (· ≤ 1)) := by
  induction ids generalizing f with
  | nil => simp
  | cons id rest ih =>
    obtain ⟨hid, hrest⟩ := List.nodup_cons.1 h
    obtain ⟨hwaiting, hqueue⟩ := ih (f.release id) hrest
    constructor
    · intro key
      rw [List.foldl_cons, hwaiting, find?_release]
      by_cases heq : id = key
      · subst heq
        simp [hid]
      · simp [heq, Ne.symm heq]
    · have hsame : rest.filter (fun key ↦ (Table.find? key (f.release id).waiting).any (· ≤ 1)) =
          rest.filter (fun key ↦ (Table.find? key f.waiting).any (· ≤ 1)) := by
        apply List.filter_congr
        intro key hkey
        have hne : id ≠ key := fun heq ↦ hid (heq ▸ hkey)
        rw [find?_release, if_neg hne]
      rw [List.foldl_cons, hqueue, queue_release, hsame, List.append_assoc, ← List.filter_append,
        List.singleton_append]

/-! ## The state of the placement -/

/-- Some stages have been placed, and the frontier is what follows from this. -/
structure Fits (g : Graph) (placed : List String) (f : Frontier) : Prop where
  distinct : (placed ++ f.queue).Nodup
  ready : ∀ id, id ∈ placed ++ f.queue ↔ id ∈ g.nodes.map Stage.id ∧ g.unplaced placed id = []
  waiting : ∀ id, Table.find? id f.waiting =
    if id ∈ g.nodes.map Stage.id then some (g.unplaced placed id).length else none

end Frontier

variable {g : Graph} {placed : List String} {f : Frontier}

theorem mem_and_length_le_one_iff {x : String} {ids : List String} :
    x ∈ ids ∧ ids.length ≤ 1 ↔ ids = [x] := by
  constructor
  · rintro ⟨hmem, hlength⟩
    have hpositive := List.length_pos_of_mem hmem
    obtain ⟨y, rfl⟩ := List.length_eq_one_iff.1 (Nat.le_antisymm hlength hpositive)
    rw [List.mem_singleton.1 hmem]
  · rintro rfl
    exact ⟨List.mem_singleton_self x, Nat.le_refl 1⟩

theorem unplaced_nil (id : String) : g.unplaced [] id = g.parents id := by
  simp [unplaced]

theorem unplaced_eq_nil_iff {id : String} :
    g.unplaced placed id = [] ↔ ∀ x ∈ g.parents id, x ∈ placed := by
  simp [unplaced]

theorem mem_remaining_iff {id : String} :
    id ∈ g.remaining ↔ id ∈ g.nodes.map Stage.id ∧ id ∉ g.placement := by
  simp [remaining]

/-- A stage leaves the queue before it is placed. -/
theorem Frontier.Fits.notMem (h : f.Fits g placed) {x : String} {queue : List String}
    (hqueue : f.queue = x :: queue) : x ∉ placed :=
  notMem_of_nodup_append_cons (hqueue ▸ h.distinct)

/-- Where every edge leads from stage to stage, edges are links. -/
theorem links_eq_precedes (hjoined : g.Joined) : g.Links = g.Precedes := by
  funext x y
  refine propext ⟨And.left, fun hxy ↦ ⟨hxy, ?_⟩⟩
  obtain ⟨e, he, rfl, rfl⟩ := hxy
  exact hjoined e he

section

variable (hg : g.Indexed)

include hg

/-- When a stage is placed, its children wait for one parent less. -/
theorem unplaced_append_singleton (x id : String) :
    g.unplaced (placed ++ [x]) id = (g.unplaced placed id).erase x := by
  unfold unplaced
  rw [((hg.nodup_parents id).filter _).erase_eq_filter, List.filter_filter]
  apply List.filter_congr
  intro y _
  by_cases hy : y = x <;> simp [hy]

theorem fits_start : Frontier.Fits g [] g.startFrontier := by
  have hwaiting (id : String) : Table.find? id g.startFrontier.waiting =
      if id ∈ g.nodes.map Stage.id then some (g.parents id).length else none := by
    have hfind := Table.find?_ofList_map (g.nodes.map Stage.id) (fun id ↦ (g.parents id).length) id
    rwa [List.map_map] at hfind
  refine ⟨?_, fun id ↦ ?_, fun id ↦ ?_⟩
  · exact hg.distinct.filter _
  · have hready : id ∈ g.startFrontier.queue ↔
        id ∈ g.nodes.map Stage.id ∧ Table.find? id g.startFrontier.waiting = some 0 := by
      simp [startFrontier]
    rw [List.nil_append, hready, hwaiting, unplaced_nil]
    apply and_congr_right
    intro hid
    simp [hid]
  · rw [hwaiting, unplaced_nil]

/-- The children of a stage that is not placed wait for it. -/
theorem mem_children_iff {x id : String} (hx : x ∉ placed) :
    id ∈ g.children x ↔ x ∈ g.unplaced placed id := by
  rw [hg.mem_children, ← hg.mem_parents, unplaced, List.mem_filter]
  simp [hx]

/-- The stages whose turn comes with a stage are those that wait for it alone. -/
theorem Frontier.Fits.mem_released_iff (h : f.Fits g placed) {x id : String} (hx : x ∉ placed) :
    id ∈ (g.children x).filter (fun id ↦ (Table.find? id f.waiting).any (· ≤ 1)) ↔
      id ∈ g.nodes.map Stage.id ∧ g.unplaced placed id = [x] := by
  rw [List.mem_filter, mem_children_iff hg hx, h.waiting, ← mem_and_length_le_one_iff]
  by_cases hid : id ∈ g.nodes.map Stage.id
  · rw [if_pos hid]
    simp [hid]
  · simp [hid]

/-- To place the next stage keeps the frontier right. -/
theorem Frontier.Fits.next (h : f.Fits g placed) {x : String} {queue : List String}
    (hqueue : f.queue = x :: queue) :
    ((g.children x).foldl Frontier.release { f with queue := queue }).Fits g (placed ++ [x]) := by
  obtain ⟨hwaiting, hnext⟩ :=
    Frontier.foldl_release { f with queue := queue } (hg.nodup_children x)
  have hdistinct := h.distinct
  have hready := h.ready
  rw [hqueue] at hdistinct hready
  have hx : x ∉ placed := h.notMem hqueue
  have hshift (released : List String) :
      placed ++ [x] ++ (queue ++ released) = placed ++ x :: queue ++ released := by
    simp
  refine ⟨?_, fun id ↦ ?_, fun id ↦ ?_⟩
  · rw [hnext, hshift, List.nodup_append]
    refine ⟨hdistinct, (hg.nodup_children x).filter _, fun id hid id' hid' heq ↦ ?_⟩
    subst heq
    have hnone := ((hready id).1 hid).2
    rw [((h.mem_released_iff hg hx).1 hid').2] at hnone
    cases hnone
  · rw [hnext, hshift, List.mem_append, hready, h.mem_released_iff hg hx, ← and_or_left,
      unplaced_append_singleton hg, List.erase_eq_nil_iff]
  · rw [hwaiting, h.waiting, unplaced_append_singleton hg, List.length_erase]
    simp only [mem_children_iff hg hx]
    split <;> split <;> rfl

/-- As long as there is room for all stages, the placement goes on until no stage is ready. What each
turn keeps still holds then. -/
theorem Frontier.Fits.place {Kept : List String → Frontier → Prop}
    (hkeeps : ∀ {placed f x queue}, f.Fits g placed → Kept placed f → f.queue = x :: queue →
      Kept (placed ++ [x]) ((g.children x).foldl Frontier.release { f with queue := queue }))
    (h : f.Fits g placed) (hkept : Kept placed f) {fuel : Nat}
    (hfuel : g.nodes.length ≤ placed.length + fuel) :
    ∃ last : Frontier, last.queue = [] ∧ last.Fits g (placed ++ g.place fuel f) ∧
      Kept (placed ++ g.place fuel f) last := by
  induction fuel generalizing placed f with
  | zero =>
    have hsub : placed ++ f.queue ⊆ g.nodes.map Stage.id := fun id hid ↦ ((h.ready id).1 hid).1
    have hlength := (h.distinct.subperm hsub).length_le
    rw [List.length_append, List.length_map] at hlength
    have hqueue : f.queue = [] := List.length_eq_zero_iff.1 (by omega)
    rw [Graph.place, List.append_nil]
    exact ⟨f, hqueue, h, hkept⟩
  | succ fuel ih =>
    unfold Graph.place
    split
    · rename_i hqueue
      rw [List.append_nil]
      exact ⟨f, hqueue, h, hkept⟩
    · rename_i x queue hqueue
      have hrest := ih (h.next hg hqueue) (hkeeps h hkept hqueue) (by simpa using by omega)
      simpa using hrest

/-- Whatever is placed, its parents were placed before it. -/
theorem Frontier.Fits.parents_before (h : f.Fits g placed) {fuel : Nat} {before after : List String}
    {x : String} (hplace : g.place fuel f = before ++ x :: after) :
    ∀ y ∈ g.parents x, y ∈ placed ++ before := by
  induction fuel generalizing placed f before with
  | zero => simp [Graph.place] at hplace
  | succ fuel ih =>
    unfold Graph.place at hplace
    split at hplace
    · simp at hplace
    · rename_i id queue hqueue
      cases before with
      | nil =>
        obtain ⟨rfl, -⟩ := List.cons.inj hplace
        have hmem : id ∈ placed ++ f.queue := by simp [hqueue]
        rw [List.append_nil]
        exact unplaced_eq_nil_iff.1 ((h.ready id).1 hmem).2
      | cons first before =>
        obtain ⟨rfl, hrest⟩ := List.cons.inj hplace
        intro y hy
        simpa using ih (h.next hg hqueue) hrest y hy

/-! ## What is placed in the end -/

/-- The placement ends when no stage is ready, and what each turn keeps holds at its end. -/
theorem exists_last_frontier (Kept : List String → Frontier → Prop)
    (hkeeps : ∀ {placed f x queue}, f.Fits g placed → Kept placed f → f.queue = x :: queue →
      Kept (placed ++ [x]) ((g.children x).foldl Frontier.release { f with queue := queue }))
    (hstart : Kept [] g.startFrontier) :
    ∃ last : Frontier, last.queue = [] ∧ last.Fits g g.placement ∧ Kept g.placement last :=
  (fits_start hg).place hg hkeeps hstart (by simp)

/-- The stages that are placed are those whose parents are all placed. -/
theorem placement_spec : g.placement.Nodup ∧
    ∀ id, id ∈ g.placement ↔ id ∈ g.nodes.map Stage.id ∧ ∀ x ∈ g.parents id, x ∈ g.placement := by
  obtain ⟨last, hqueue, hlast, -⟩ :=
    exists_last_frontier hg (fun _ _ ↦ True) (fun _ _ _ ↦ trivial) trivial
  have hdistinct := hlast.distinct
  have hready := hlast.ready
  rw [hqueue, List.append_nil] at hdistinct hready
  exact ⟨hdistinct, fun id ↦ by rw [hready, unplaced_eq_nil_iff]⟩

theorem placement_subset : g.placement ⊆ g.nodes.map Stage.id :=
  fun id hid ↦ (((placement_spec hg).2 id).1 hid).1

/-- What leads to a stage that is placed is placed before it. -/
theorem idxOf_lt_of_precedes {x y : String} (hxy : g.Precedes x y) (hy : y ∈ g.placement) :
    x ∈ g.placement ∧ g.placement.idxOf x < g.placement.idxOf y := by
  have hparent : x ∈ g.parents y := hg.mem_parents.2 hxy
  obtain ⟨hdistinct, hplaced⟩ := placement_spec hg
  refine ⟨((hplaced y).1 hy).2 x hparent, ?_⟩
  obtain ⟨before, after, hsplit⟩ := List.append_of_mem hy
  have hx : x ∈ before := by simpa using (fits_start hg).parents_before hg hsplit x hparent
  rw [hsplit] at hdistinct ⊢
  rw [List.idxOf_append_of_mem hx,
    List.idxOf_append_of_notMem (notMem_of_nodup_append_cons hdistinct)]
  exact Nat.lt_add_right _ (List.idxOf_lt_length_of_mem hx)

/-- No stage on a circle is placed. -/
theorem notMem_placement_of_circle {id : String} (h : TransGen g.Precedes id id) :
    id ∉ g.placement := by
  intro hid
  have hchain {x : String} (hx : TransGen g.Precedes x id) :
      x ∈ g.placement ∧ g.placement.idxOf x < g.placement.idxOf id := by
    induction hx using TransGen.head_induction_on with
    | single hstep => exact idxOf_lt_of_precedes hg hstep hid
    | head hstep _ ih =>
      obtain ⟨hmem, hlt⟩ := idxOf_lt_of_precedes hg hstep ih.1
      exact ⟨hmem, Nat.lt_trans hlt ih.2⟩
  exact Nat.lt_irrefl _ (hchain h).2

/-- A stage that cannot be placed waits for another one that cannot be placed, or for no stage. -/
theorem exists_links_of_mem_remaining {id : String} (h : id ∈ g.remaining) :
    g.LacksParent id ∨ ∃ x ∈ g.remaining, g.Links x id := by
  obtain ⟨hid, hnot⟩ := mem_remaining_iff.1 h
  rw [(placement_spec hg).2] at hnot
  push Not at hnot
  obtain ⟨x, hx, hout⟩ := hnot hid
  have hprecedes : g.Precedes x id := hg.mem_parents.1 hx
  by_cases hstage : x ∈ g.nodes.map Stage.id
  · exact .inr ⟨x, mem_remaining_iff.2 ⟨hstage, hout⟩, hprecedes, hstage, hid⟩
  · exact .inl ⟨hid, x, hprecedes, hstage⟩

/-- The stages that cannot be placed are those that are stuck. -/
theorem mem_remaining_iff_stuck {id : String} : id ∈ g.remaining ↔ g.Stuck id := by
  constructor
  · intro h
    -- The induction is on the order in which a stage comes before another if links lead from it to
    -- the other but not back; a stage whose parent does not come before it is on a circle.
    have hstrict : IsStrictOrder String
        (fun x y ↦ TransGen g.Links x y ∧ ¬TransGen g.Links y x) :=
      { irrefl := fun x h ↦ h.2 h.1
        trans := fun x y z hxy hyz ↦
          ⟨hxy.1.trans hyz.1, fun hback ↦ hyz.2 (hback.trans hxy.1)⟩ }
    have hwf : {id | id ∈ g.remaining}.WellFoundedOn
        (fun x y ↦ TransGen g.Links x y ∧ ¬TransGen g.Links y x) :=
      (List.finite_toSet _).wellFoundedOn
    refine hwf.induction (P := g.Stuck) h fun id hid ih ↦ ?_
    rcases exists_links_of_mem_remaining hg hid with hlacks | ⟨x, hx, hlink⟩
    · exact ⟨id, .inr hlacks, .refl⟩
    · by_cases hback : TransGen g.Links id x
      · exact ⟨id, .inl (hback.tail hlink), .refl⟩
      · obtain ⟨root, hroot, hreaches⟩ := ih x hx ⟨.single hlink, hback⟩
        exact ⟨root, hroot, hreaches.tail hlink⟩
  · rintro ⟨root, hroot, hreaches⟩
    induction hreaches with
    | refl =>
      rcases hroot with hcircle | ⟨hid, x, hx, hnot⟩
      · obtain ⟨y, -, -, -, hid⟩ := TransGen.tail'_iff.1 hcircle
        exact mem_remaining_iff.2
          ⟨hid, notMem_placement_of_circle hg (TransGen.mono (fun _ _ h ↦ h.1) _ _ hcircle)⟩
      · refine mem_remaining_iff.2 ⟨hid, fun hmem ↦ hnot (placement_subset hg ?_)⟩
        exact (idxOf_lt_of_precedes hg hx hmem).1
    | tail _ hlink ih =>
      refine mem_remaining_iff.2 ⟨hlink.2.2, fun hmem ↦ (mem_remaining_iff.1 ih).2 ?_⟩
      exact (idxOf_lt_of_precedes hg hlink.1 hmem).1

/-- There is an order if no stage remains. -/
theorem order_eq : g.order = if g.remaining = [] then .ok g.placement else
    .error ⟨g.remaining, g.shortestCycle g.remaining⟩ := by
  have hdistinct := (placement_spec hg).1
  have hfull : g.placement.length = g.nodes.length ↔ g.remaining = [] := by
    have hremaining : g.remaining = [] ↔ g.nodes.map Stage.id ⊆ g.placement := by
      simp [remaining, List.subset_def]
    rw [hremaining, ← List.length_map Stage.id]
    constructor
    · intro hlength
      exact ((hdistinct.subperm (placement_subset hg)).perm_of_length_le hlength.ge).symm.subset
    · intro hsub
      exact Nat.le_antisymm (hdistinct.subperm (placement_subset hg)).length_le
        (hg.distinct.subperm hsub).length_le
  exact ite_congr (propext hfull) (fun _ ↦ rfl) fun _ ↦ rfl

theorem eq_placement_of_order_eq_ok {ids : List String} (h : g.order = .ok ids) :
    ids = g.placement ∧ g.remaining = [] := by
  rw [order_eq hg] at h
  split at h
  · rename_i hnone
    exact ⟨(Except.ok.inj h).symm, hnone⟩
  · cases h

theorem eq_remaining_of_order_eq_error {report : CycleReport} (h : g.order = .error report) :
    report = ⟨g.remaining, g.shortestCycle g.remaining⟩ ∧ g.remaining ≠ [] := by
  rw [order_eq hg] at h
  split at h
  · cases h
  · rename_i hsome
    exact ⟨(Except.error.inj h).symm, hsome⟩

/-- There is no order if there is a circle of stages, or a stage that waits for no stage. -/
theorem exists_order_eq_error_iff : (∃ report, g.order = .error report) ↔
    (∃ id, TransGen g.Links id id) ∨ ∃ id, g.LacksParent id := by
  rw [← exists_or]
  constructor
  · rintro ⟨report, hreport⟩
    obtain ⟨-, hsome⟩ := eq_remaining_of_order_eq_error hg hreport
    obtain ⟨id, hid⟩ := List.exists_mem_of_ne_nil _ hsome
    obtain ⟨root, hroot, -⟩ := (mem_remaining_iff_stuck hg).1 hid
    exact ⟨root, hroot⟩
  · rintro ⟨root, hroot⟩
    have hmem : root ∈ g.remaining := (mem_remaining_iff_stuck hg).2 ⟨root, hroot, .refl⟩
    exact ⟨_, by rw [order_eq hg, if_neg (List.ne_nil_of_mem hmem)]⟩

/-- An order lists every stage once. -/
theorem perm_of_order_eq_ok {ids : List String} (h : g.order = .ok ids) :
    ids.Perm (g.nodes.map Stage.id) := by
  obtain ⟨rfl, hnone⟩ := eq_placement_of_order_eq_ok hg h
  have hall : g.nodes.map Stage.id ⊆ g.placement := by
    simpa [remaining, List.subset_def] using hnone
  exact (List.perm_ext_iff_of_nodup (placement_spec hg).1 hg.distinct).2
    fun id ↦ ⟨fun hid ↦ placement_subset hg hid, fun hid ↦ hall hid⟩

section

variable (hjoined : g.Joined)

include hjoined

/-- Where every edge leads from stage to stage, the stages that cannot be placed are those that data
reaches from a circle. -/
theorem mem_remaining_iff_of_joined {id : String} : id ∈ g.remaining ↔
    ∃ c, TransGen g.Precedes c c ∧ ReflTransGen g.Precedes c id := by
  have hlacks (root : String) : ¬g.LacksParent root := by
    rintro ⟨-, x, ⟨e, he, rfl, -⟩, hnot⟩
    exact hnot (hjoined e he).1
  simp only [mem_remaining_iff_stuck hg, Stuck, links_eq_precedes hjoined, hlacks, or_false]

/-- All stages can be placed if there is no circle. -/
theorem remaining_eq_nil_iff : g.remaining = [] ↔ g.Acyclic := by
  rw [List.eq_nil_iff_forall_not_mem]
  simp only [mem_remaining_iff_of_joined hg hjoined, not_exists, not_and]
  exact ⟨fun h c hc ↦ h c c hc .refl, fun h id c hc ↦ absurd hc (h c)⟩

/-- The stages have an order if there is no circle. -/
theorem exists_order_eq_ok_iff : (∃ ids, g.order = .ok ids) ↔ g.Acyclic := by
  rw [← remaining_eq_nil_iff hg hjoined]
  constructor
  · rintro ⟨ids, h⟩
    exact (eq_placement_of_order_eq_ok hg h).2
  · intro hnone
    exact ⟨g.placement, by rw [order_eq hg, if_pos hnone]⟩

end

end

end Graph

end Provenance

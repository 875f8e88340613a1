import Mathlib.Data.List.Forall2
import Mathlib.Data.List.TakeWhile
import Provenance.Expansion.Outcome
import Provenance.Proofs.Splice.Boundary

/-!
# Settled calls

A call is settled if it is replaced, or if it is marked and listed as an issue: then one placeholder
in the document belongs to one issue, in the same order. While the calls of a document are looked
into, one after the other, what stands before the first call that is left is settled, and what
stands after it is as it was written (`Outcome.Settles`). To mark the call keeps this
(`Settles.mark`), and to splice a settled macro in keeps it as well, since the issues of the macro
are relocated to where its nodes go (`Settles.expand`).

An identifier without a slash is that of one node only, whatever was spliced in before: inner nodes
are told apart by what stands before the first slash (`topLevel`).
-/

namespace Provenance

/-- An identifier up to its first slash. -/
def topLevel (id : String) : List Char :=
  id.toList.takeWhile (· ≠ '/')

theorem topLevel_of_not_mem {id : String} (h : '/' ∉ id.toList) : topLevel id = id.toList := by
  apply List.takeWhile_eq_self_iff.2
  intro c hc
  exact decide_eq_true fun heq ↦ h (heq ▸ hc)

theorem topLevel_inner {callSite id : String} (h : '/' ∉ callSite.toList) :
    topLevel (Splice.inner callSite id) = callSite.toList := by
  have hcallSite : ∀ c ∈ callSite.toList, decide (c ≠ '/') = true :=
    fun c hc ↦ decide_eq_true fun heq ↦ h (heq ▸ hc)
  have hsep : "/".toList = ['/'] := rfl
  simp only [topLevel, Splice.inner, String.toList_append, hsep, List.append_assoc]
  rw [List.takeWhile_append_of_pos hcallSite]
  simp

namespace Node

/-- The issue that belongs to a placeholder. -/
def issue? (document : Path) (n : Node) : Option Issue :=
  match n.reference, n.gap with
  | some reference, some gap => some ⟨reference, document, n.id, n.origin, gap⟩
  | _, _ => none

theorem issue?_eq_some {document : Path} {n : Node} {i : Issue}
    (h : n.issue? document = some i) :
    n.gap = some i.gap ∧ n.reference = some i.reference ∧ i.node = n.id ∧ n.origin = i.origin ∧
      i.document = document := by
  unfold issue? at h
  split at h
  · rename_i hreference hgap
    obtain rfl := Option.some.inj h
    exact ⟨hgap, hreference, rfl, rfl, rfl⟩
  · cases h

end Node

/-- No two nodes have the same identifier, and none has a slash in it. -/
structure Document.PlainIds (d : Document) : Prop where
  distinct : d.IdsDistinct
  plain : ∀ n ∈ d.nodes, '/' ∉ n.id.toList

instance (d : Document) : Decidable d.PlainIds :=
  decidable_of_iff (d.IdsDistinct ∧ ∀ n ∈ d.nodes, '/' ∉ n.id.toList)
    ⟨fun h ↦ ⟨h.1, h.2⟩, fun h ↦ ⟨h.distinct, h.plain⟩⟩

/-- A later call has another identifier, and one that no node of a macro can get. -/
theorem Document.PlainIds.apart {d : Document} (h : d.PlainIds) {before rest : List String}
    {id : String} (hids : d.pending.map Node.id = before ++ id :: rest) {id' : String}
    (hid' : id' ∈ rest) : id' ≠ id ∧ ∀ inner, Splice.inner id inner ≠ id' := by
  have hdistinct : (d.pending.map Node.id).Nodup :=
    h.distinct.sublist (List.filter_sublist.map _)
  have hmem : id' ∈ d.pending.map Node.id := by simp [hids, hid']
  obtain ⟨n, hn, rfl⟩ := List.mem_map.1 hmem
  rw [hids] at hdistinct
  constructor
  · rintro rfl
    exact (List.nodup_cons.1 (List.nodup_append.1 hdistinct).2.1).1 hid'
  · exact fun inner ↦ (Splice.ne_inner_of_plain (h.plain n (List.mem_filter.1 hn).1) id inner).symm

/-- In a document with plain identifiers the copies of a macro's nodes get new ones. -/
theorem Document.PlainIds.distinct_splice {parent d result : Document} {callSite : String}
    {call : Node} (hparent : parent.PlainIds) (hd : d.IdsDistinct)
    (hcall : parent.node? callSite = some call) (h : parent.splice callSite d = .ok result) :
    result.IdsDistinct :=
  hparent.distinct.splice hd hcall
    (fun n hn ↦ Splice.ne_inner_of_plain (hparent.plain n hn) callSite) h

/-- No node is marked yet, and each says where it was written. -/
def Document.Unmarked (d : Document) : Prop :=
  ∀ n ∈ d.nodes, n.gap = none ∧ n.origin ≠ ""

/-- All calls but those with some identifiers, which come in this order, are replaced, or marked and
listed as issues. -/
structure Outcome.Settles (o : Outcome) (rest : List String) : Prop where
  pending : o.document.pending.map Node.id = rest
  issues : o.document.placeholders.map (Node.issue? o.document.path) = o.issues.map some
  ordered : o.document.nodes.Pairwise (fun m n ↦ m.isPending → n.gap = none)
  distinct : o.document.IdsDistinct
  origins : ∀ n ∈ o.document.nodes, n.origin ≠ ""
  calls : ∀ n ∈ o.document.nodes, n.isPlaceholder → n.category = .macroCall
  plain : ∀ id ∈ rest, '/' ∉ id.toList
  topLevel : ∀ id ∈ rest, ∀ n ∈ o.document.nodes, topLevel n.id = id.toList → n.id = id

namespace Outcome

theorem settles_start {d : Document} (hids : d.PlainIds) (hd : d.Unmarked) :
    (start d).Settles (d.pending.map Node.id) where
  pending := rfl
  issues := by
    have hnone : d.placeholders = [] :=
      List.filter_eq_nil_iff.2 fun n hn ↦ by simp [Node.isPlaceholder, (hd n hn).1]
    simp [start, hnone]
  ordered := List.pairwise_of_forall_mem_list fun _ _ n hn _ ↦ (hd n hn).1
  distinct := hids.distinct
  origins n hn := (hd n hn).2
  calls n hn hplaceholder := by simp [Node.isPlaceholder, (hd n hn).1] at hplaceholder
  plain id hid := by
    obtain ⟨n, hn, rfl⟩ := List.mem_map.1 hid
    exact hids.plain n (List.mem_filter.1 hn).1
  topLevel id _ n hn htop := by
    rw [topLevel_of_not_mem (hids.plain n hn)] at htop
    exact String.toList_inj.1 htop

theorem Settles.forall₂_issues {o : Outcome} {rest : List String} (h : o.Settles rest) :
    List.Forall₂ (fun i n ↦ n.gap = some i.gap ∧ n.reference = some i.reference ∧ i.node = n.id ∧
        n.origin = i.origin ∧ i.document = o.document.path)
      o.issues o.document.placeholders := by
  have heq : List.Forall₂ Eq (o.document.placeholders.map (Node.issue? o.document.path))
      (o.issues.map some) := by
    rw [List.forall₂_eq_eq_eq]
    exact h.issues
  rw [List.forall₂_map_left_iff, List.forall₂_map_right_iff] at heq
  exact heq.flip.imp fun i n ↦ Node.issue?_eq_some

theorem Settles.issue_nodes {o : Outcome} {rest : List String} (h : o.Settles rest) :
    o.issues.map Issue.node = o.document.placeholders.map Node.id := by
  rw [← List.forall₂_eq_eq_eq, List.forall₂_map_left_iff, List.forall₂_map_right_iff]
  exact h.forall₂_issues.imp fun i n hmatch ↦ hmatch.2.2.1

theorem Settles.issue_nodes_nodup {o : Outcome} {rest : List String} (h : o.Settles rest) :
    (o.issues.map Issue.node).Nodup := by
  rw [h.issue_nodes]
  exact List.Nodup.sublist (List.filter_sublist.map _) h.distinct

/-- The next call in a document, between what is finished and what is as it was written. -/
structure Next (o : Outcome) (id : String) (queue : List String) (before : List Node) (call : Node)
    (after : List Node) : Prop where
  nodes : o.document.nodes = before ++ call :: after
  call_id : call.id = id
  call_pending : call.isPending
  before_settled : ∀ n ∈ before, n.isPending = false
  after_unmarked : ∀ n ∈ after, n.gap = none
  after_pending : (after.filter Node.isPending).map Node.id = queue
  others : ∀ n ∈ before ++ after, n.id ≠ id

theorem Settles.exists_next {o : Outcome} {id : String} {queue : List String}
    (h : o.Settles (id :: queue)) : ∃ before call after, o.Next id queue before call after := by
  obtain ⟨call, more, hpending, hid, hqueue⟩ := List.map_eq_cons_iff.1 h.pending
  obtain ⟨before, after, hnodes, hbefore, hcall, hafter⟩ := List.filter_eq_cons_iff.1 hpending
  have hordered := h.ordered
  rw [hnodes, List.pairwise_append, List.pairwise_cons] at hordered
  exact ⟨before, call, after, {
    nodes := hnodes
    call_id := hid
    call_pending := hcall
    before_settled := fun n hn ↦ by simpa using hbefore n hn
    after_unmarked := fun n hn ↦ hordered.2.1.1 n hn hcall
    after_pending := by rw [hafter, hqueue]
    others := hid ▸ h.distinct.ne_of_nodes_eq hnodes }⟩

section

variable {o : Outcome} {id : String} {queue : List String} {before after : List Node} {call : Node}
  (hnext : o.Next id queue before call after)

include hnext

theorem Next.node? : o.document.node? id = some call := by
  apply Document.node?_eq_some_iff.2
  have hbefore : ∀ n ∈ before, n.id ≠ id :=
    fun n hn ↦ hnext.others n (List.mem_append_left _ hn)
  exact ⟨before, after, hnext.nodes, hnext.call_id, hbefore⟩

theorem Next.mem_nodes {n : Node} (hn : n ∈ before ++ after) : n ∈ o.document.nodes := by
  rw [hnext.nodes]
  simp only [List.mem_append, List.mem_cons] at hn ⊢
  tauto

theorem Next.ne_of_mem_queue {id' : String} (hid : id' ∈ queue) : id' ≠ id := by
  rw [← hnext.after_pending] at hid
  obtain ⟨n, hn, rfl⟩ := List.mem_map.1 hid
  exact hnext.others n (List.mem_append_right _ (List.mem_filter.1 hn).1)

theorem Next.filter_after : after.filter Node.isPlaceholder = [] := by
  apply List.filter_eq_nil_iff.2
  intro n hn
  simp [Node.isPlaceholder, hnext.after_unmarked n hn]

/-- All placeholders stand before the next call. -/
theorem Next.placeholders : o.document.placeholders = before.filter Node.isPlaceholder := by
  have hcall : call.isPlaceholder = false := by
    have hpending := hnext.call_pending
    simp only [Node.isPending, Bool.and_eq_true, Option.isNone_iff_eq_none] at hpending
    simp [Node.isPlaceholder, hpending.2]
  rw [Document.placeholders, hnext.nodes, List.filter_append,
    List.filter_cons_of_neg (by simp [hcall]), hnext.filter_after, List.append_nil]

end

/-- Settled nodes, and the issues that belong to them, that may take the place of a call in the
document at a path. -/
structure Replacement (document : Path) (callSite : String) (nodes : List Node)
    (issues : List Issue) : Prop where
  issues : (nodes.filter Node.isPlaceholder).map (Node.issue? document) = issues.map some
  distinct : (nodes.map Node.id).Nodup
  topLevel : ∀ n ∈ nodes, Provenance.topLevel n.id = callSite.toList
  settled : ∀ n ∈ nodes, n.isPending = false
  origins : ∀ n ∈ nodes, n.origin ≠ ""
  calls : ∀ n ∈ nodes, n.isPlaceholder → n.category = .macroCall

/-- To replace the next call settles it. -/
theorem Settles.replace {o o' : Outcome} {id : String} {queue : List String}
    (h : o.Settles (id :: queue)) {before after : List Node} {call : Node}
    (hnext : o.Next id queue before call after) {nodes : List Node} {issues : List Issue}
    (hnew : Replacement o.document.path id nodes issues)
    (hnodes : o'.document.nodes = before ++ nodes ++ after)
    (hpath : o'.document.path = o.document.path) (hissues : o'.issues = o.issues ++ issues) :
    o'.Settles queue := by
  have hfinished : ∀ n ∈ before ++ nodes, n.isPending = false := fun n hn ↦
    (List.mem_append.1 hn).elim (hnext.before_settled n) (hnew.settled n)
  have hperm : o'.document.nodes.Perm (nodes ++ (before ++ after)) := by
    rw [hnodes, ← List.append_assoc]
    exact List.perm_append_comm.append_right _
  -- A node of the result is new, or stood in the document beside the call.
  have hmem {n : Node} (hn : n ∈ o'.document.nodes) : n ∈ nodes ∨ n ∈ before ++ after :=
    List.mem_append.1 (hperm.mem_iff.1 hn)
  refine ⟨?pending, ?issues, ?ordered, ?distinct, ?origins, ?calls, ?plain, ?topLevel⟩
  case pending =>
    rw [Document.pending, hnodes, List.filter_append, hnext.after_pending.symm]
    have hnone : (before ++ nodes).filter Node.isPending = [] :=
      List.filter_eq_nil_iff.2 fun n hn ↦ by simp [hfinished n hn]
    rw [hnone, List.nil_append]
  case issues =>
    have hbefore := h.issues
    rw [hnext.placeholders] at hbefore
    rw [Document.placeholders, hnodes, List.filter_append, List.filter_append, hnext.filter_after,
      List.append_nil, List.map_append, hpath, hbefore, hnew.issues, hissues, List.map_append]
  case ordered =>
    have hafter := h.ordered
    rw [hnext.nodes, List.pairwise_append, List.pairwise_cons] at hafter
    rw [hnodes, List.pairwise_append]
    have hfirst {m n : Node} (hm : m ∈ before ++ nodes) (hpending : m.isPending) :
        n.gap = none := by
      rw [hfinished m hm] at hpending
      cases hpending
    exact ⟨List.pairwise_of_forall_mem_list fun _ hm _ _ ↦ hfirst hm, hafter.2.1.2,
      fun _ hm _ _ ↦ hfirst hm⟩
  case distinct =>
    apply h.distinct.replace hnext.nodes hnodes hnew.distinct
    intro m hm n hn hmn
    have htop := hmn ▸ hnew.topLevel m hm
    exact hnext.others n hn (h.topLevel id (List.mem_cons_self ..) n (hnext.mem_nodes hn) htop)
  case origins =>
    intro n hn
    exact (hmem hn).elim (hnew.origins n) (fun hn ↦ h.origins n (hnext.mem_nodes hn))
  case calls =>
    intro n hn
    exact (hmem hn).elim (hnew.calls n) (fun hn ↦ h.calls n (hnext.mem_nodes hn))
  case plain => exact fun id' hid' ↦ h.plain id' (List.mem_cons_of_mem _ hid')
  case topLevel =>
    intro id' hid' n hn htop
    rcases hmem hn with hn | hn
    · have heq : id' = id := String.toList_inj.1 (htop.symm.trans (hnew.topLevel n hn))
      exact absurd heq (hnext.ne_of_mem_queue hid')
    · exact h.topLevel id' (List.mem_cons_of_mem _ hid') n (hnext.mem_nodes hn) htop

/-! ## Marking and expanding a call -/

section

variable {o : Outcome} {id : String} {queue : List String} {reference : Reference}
  (h : o.Settles (id :: queue)) (hreference : o.document.reference? id = some reference)

theorem updateFirst_append {f : Node → Node} {before after : List Node} {n : Node}
    (hbefore : ∀ m ∈ before, m.id ≠ n.id) :
    Document.updateFirst f n.id (before ++ n :: after) = before ++ f n :: after := by
  induction before with
  | nil => simp [Document.updateFirst]
  | cons m rest ih =>
    have hm : m.id ≠ n.id := hbefore m (List.mem_cons_self ..)
    simpa [Document.updateFirst, hm] using ih fun m hm ↦ hbefore m (List.mem_cons_of_mem _ hm)

include h hreference

theorem Settles.mark (gap : Gap) : (o.mark id reference gap).Settles queue := by
  obtain ⟨before, call, after, hnext⟩ := h.exists_next
  have hnode := hnext.node?
  have hcallReference : call.reference = some reference := by
    simpa [Document.reference?, hnode] using hreference
  have hmem : call ∈ o.document.nodes := by simp [hnext.nodes]
  have hbefore : ∀ m ∈ before, m.id ≠ id := fun m hm ↦ hnext.others m (List.mem_append_left _ hm)
  have hcategory : call.category = .macroCall := by
    have hpending := hnext.call_pending
    simp only [Node.isPending, Bool.and_eq_true, decide_eq_true_eq] at hpending
    exact hpending.1.1
  obtain rfl := hnext.call_id
  have hplain := h.plain call.id (List.mem_cons_self ..)
  have hnew : Replacement o.document.path call.id [{ call with gap := some gap }]
      [⟨reference, o.document.path, call.id, originOf o.document call.id, gap⟩] := {
    issues := by
      rw [List.filter_cons_of_pos rfl, List.filter_nil]
      simp [Node.issue?, hcallReference, originOf, hnode]
    distinct := List.nodup_singleton _
    topLevel := List.forall_mem_singleton.2 (topLevel_of_not_mem hplain)
    settled := List.forall_mem_singleton.2 (by simp [Node.isPending])
    origins := List.forall_mem_singleton.2 (h.origins call hmem)
    calls := List.forall_mem_singleton.2 fun _ ↦ hcategory }
  refine h.replace hnext hnew ?_ rfl rfl
  rw [mark, Document.setGap, hnext.nodes, updateFirst_append hbefore, List.append_cons]

end

end Outcome

/-! ## Splicing a macro in -/

/-- A macro in which every call is replaced, or marked and listed as an issue. -/
def Definition.Settled (d : Definition) : Prop :=
  Outcome.Settles ⟨d.document, d.issues, d.uses⟩ []

/-- A placeholder goes where the issue that belongs to it is relocated. -/
theorem issue?_innerNode (s : Splice.Site) (document document' : Path) {n : Node}
    (horigin : n.origin ≠ "") :
    Node.issue? document (s.innerNode n) =
      (Node.issue? document' n).map (Issue.relocate s.callSite document) := by
  unfold Splice.Site.innerNode Node.stamp
  rw [if_neg horigin]
  unfold Node.issue?
  cases n.reference <;> cases n.gap <;> rfl

theorem origin_innerNode (s : Splice.Site) {n : Node} (horigin : n.origin ≠ "") :
    (s.innerNode n).origin = n.origin := by
  unfold Splice.Site.innerNode Node.stamp
  rw [if_neg horigin]

theorem isPlaceholder_innerNode (s : Splice.Site) (n : Node) :
    (s.innerNode n).isPlaceholder = n.isPlaceholder := by
  unfold Splice.Site.innerNode Node.stamp
  split <;> rfl

theorem isPending_innerNode (s : Splice.Site) (n : Node) :
    (s.innerNode n).isPending = n.isPending := by
  unfold Splice.Site.innerNode Node.stamp
  split <;> rfl

theorem reference_innerNode (s : Splice.Site) (n : Node) :
    (s.innerNode n).reference = n.reference := by
  unfold Splice.Site.innerNode Node.stamp
  split <;> rfl

theorem category_innerNode (s : Splice.Site) (n : Node) :
    (s.innerNode n).category = n.category := by
  unfold Splice.Site.innerNode Node.stamp
  split <;> rfl

namespace Outcome

theorem Settles.reference?_ne_none {o : Outcome} {id : String} {queue : List String}
    (h : o.Settles (id :: queue)) : o.document.reference? id ≠ none := by
  obtain ⟨before, call, after, hnext⟩ := h.exists_next
  have hpending := hnext.call_pending
  simp only [Node.isPending, Bool.and_eq_true] at hpending
  rw [Document.reference?, hnext.node?, Option.bind_some]
  exact Option.isSome_iff_ne_none.1 hpending.1.2

theorem Settles.pending_eq_false {o : Outcome} (h : o.Settles []) :
    ∀ n ∈ o.document.nodes, n.isPending = false := by
  intro n hn
  have hnil := List.filter_eq_nil_iff.1 (List.map_eq_nil_iff.1 h.pending) n hn
  simpa using hnil

end Outcome

/-- The nodes of a settled macro may take the place of a call. -/
theorem Definition.Settled.replacement {d : Definition} (hd : d.Settled) {s : Splice.Site}
    (hs : s.definition = d.document) (hplain : '/' ∉ s.callSite.toList) (document : Path) :
    Outcome.Replacement document s.callSite s.nodes
      (d.issues.map (Issue.relocate s.callSite document)) := by
  have hmem {n : Node} (hn : n ∈ s.nodes) : ∃ m ∈ d.document.nodes, s.innerNode m = n := by
    obtain ⟨m, hm, rfl⟩ := List.mem_map.1 hn
    exact ⟨m, hs ▸ (List.mem_filter.1 hm).1, rfl⟩
  have hinner {m : Node} (hm : m ∈ d.document.nodes) (hplaceholder : m.isPlaceholder) :
      s.isBoundary m.id = false := by
    rw [Splice.Site.isBoundary_eq, hs, Document.onBoundary, List.any_eq_false]
    intro n hn hboundary
    simp only [Bool.and_eq_true, Bool.or_eq_true, decide_eq_true_eq] at hboundary
    obtain rfl : n = m := Outcome.Settles.distinct hd |>.eq_of_mem hn hm hboundary.1
    have hcategory : n.category = .macroCall := Outcome.Settles.calls hd n hm hplaceholder
    simp [hcategory] at hboundary
  refine ⟨?issues, ?distinct, ?topLevel, ?settled, ?origins, ?calls⟩
  case issues =>
    have hplaceholders : s.nodes.filter Node.isPlaceholder =
        d.document.placeholders.map s.innerNode := by
      rw [Splice.Site.nodes, hs, List.filter_map, List.filter_filter, Document.placeholders]
      congr 1
      apply List.filter_congr
      intro n hn
      rw [Function.comp_apply, isPlaceholder_innerNode]
      cases hplaceholder : n.isPlaceholder with
      | false => rfl
      | true => simp [hinner hn hplaceholder]
    have hissue (n : Node) (hn : n ∈ d.document.placeholders) :
        Node.issue? document (s.innerNode n) =
          (Node.issue? d.document.path n).map (Issue.relocate s.callSite document) :=
      issue?_innerNode s document _ (Outcome.Settles.origins hd n (List.mem_filter.1 hn).1)
    calc (s.nodes.filter Node.isPlaceholder).map (Node.issue? document)
      _ = (d.document.placeholders.map (Node.issue? d.document.path)).map
            (Option.map (Issue.relocate s.callSite document)) := by
          rw [hplaceholders, List.map_map, List.map_map]
          exact List.map_congr_left hissue
      _ = (d.issues.map some).map (Option.map (Issue.relocate s.callSite document)) := by
          rw [Outcome.Settles.issues hd]
      _ = (d.issues.map (Issue.relocate s.callSite document)).map some := by
          rw [List.map_map, List.map_map]
          rfl
  case distinct => exact Splice.Site.nodup_nodes (hs ▸ Outcome.Settles.distinct hd)
  case topLevel =>
    intro n hn
    obtain ⟨m, -, rfl⟩ := hmem hn
    exact topLevel_inner hplain
  case settled =>
    intro n hn
    obtain ⟨m, hm, rfl⟩ := hmem hn
    rw [isPending_innerNode]
    exact Outcome.Settles.pending_eq_false hd m hm
  case origins =>
    intro n hn
    obtain ⟨m, hm, rfl⟩ := hmem hn
    have horigin : m.origin ≠ "" := Outcome.Settles.origins hd m hm
    rwa [origin_innerNode s horigin]
  case calls =>
    intro n hn hplaceholder
    obtain ⟨m, hm, rfl⟩ := hmem hn
    rw [isPlaceholder_innerNode] at hplaceholder
    rw [category_innerNode]
    exact Outcome.Settles.calls hd m hm hplaceholder

namespace Outcome

theorem Settles.expand {o : Outcome} {id : String} {queue : List String} {reference : Reference}
    (h : o.Settles (id :: queue)) (hreference : o.document.reference? id = some reference)
    {d : Definition} (hd : d.Settled) : (o.expand id reference d).Settles queue := by
  obtain ⟨before, call, after, hnext⟩ := h.exists_next
  have hbefore : ∀ m ∈ before, m.id ≠ id := fun m hm ↦ hnext.others m (List.mem_append_left _ hm)
  unfold Outcome.expand
  rw [Document.splice_eq hnext.nodes hnext.call_id hbefore]
  split
  · rename_i heq
    split at heq
    · cases heq
    · exact h.mark hreference _
  · rename_i result heq
    split at heq
    · obtain rfl := Except.ok.inj heq
      obtain rfl := hnext.call_id
      have hplain := h.plain call.id (List.mem_cons_self ..)
      have hnew :=
        hd.replacement (s := Splice.Site.ofCall call d.document) rfl hplain o.document.path
      exact h.replace hnext hnew rfl rfl rfl
    · cases heq

theorem Settles.apply {o : Outcome} {id : String} {queue : List String} {reference : Reference}
    (h : o.Settles (id :: queue)) (hreference : o.document.reference? id = some reference)
    {e : Expansion} (he : ∀ d, e = .expanded d → d.Settled) :
    (o.apply id reference e).Settles queue := by
  cases e with
  | expanded d => exact h.expand hreference (he d rfl)
  | failed gap => exact h.mark hreference gap

end Outcome

end Provenance

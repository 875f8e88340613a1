import Mathlib.Data.List.Forall2
import Mathlib.Data.List.Perm.Subperm
import Provenance.Proofs.Expansion.Memory
import Provenance.Proofs.Splice.Dangling
import Provenance.Proofs.Splice.Nodes

/-!
# Identifiers that several nodes share

A call is replaced by its identifier: it is the first node with the identifier that is looked into.
So of several nodes with one identifier the first ones are replaced, as long as they are calls, and
the others stay (`Outcome.Thins`). When all calls have been looked into, the document has distinct
identifiers only if every shared one is gone: all nodes with it but at most one were calls, and the
macros in their place have no inner identifier in common (`Document.Dissolves`).

Only the document itself is followed, below all macros that are being expanded for it
(`Progress.OfRoot`). A macro is the one that the memory has under its file, at that time and later.
-/

open scoped List

namespace Provenance

/-- The node without its mark. -/
def Node.unmarked (n : Node) : Node :=
  { n with gap := none }

@[simp]
theorem Node.id_unmarked (n : Node) : n.unmarked.id = n.id := rfl

@[simp]
theorem Node.reference_unmarked (n : Node) : n.unmarked.reference = n.reference := rfl

/-- A call was replaced by a macro: the macro is remembered, listed as what the call was replaced by,
and has the call's anchors. -/
def Outcome.Replaced (o : Outcome) (c : Context) (call : Node) (m : Definition) : Prop :=
  ∃ reference file, call.reference = some reference ∧ c.expansion? file = some (.expanded m) ∧
    (Splice.Site.ofCall call m.document).anchorCount = m.document.anchorCount ∧
    ⟨reference, m.path, m.document.anchorCount.inputs, m.document.anchorCount.outputs⟩ ∈ o.uses

theorem Outcome.Replaced.mono {o o' : Outcome} {c c' : Context} (huses : o.uses ⊆ o'.uses)
    (hknown : c.Extends c') {call : Node} {m : Definition} (h : o.Replaced c call m) :
    o'.Replaced c' call m := by
  obtain ⟨reference, file, hreference, hfile, hcount, huse⟩ := h
  exact ⟨reference, file, hreference, hknown _ _ hfile, hcount, huses huse⟩

theorem Outcome.Replaced.reference_isSome {o : Outcome} {c : Context} {call : Node}
    {m : Definition} (h : o.Replaced c call m) : call.reference.isSome := by
  obtain ⟨reference, -, hreference, -⟩ := h
  exact Option.isSome_of_eq_some hreference

namespace Document

/-- The nodes with an identifier, marked or not. -/
def namesakes (d : Document) (id : String) : List Node :=
  (d.nodes.map Node.unmarked).filter (fun n ↦ n.id = id)

/-- The identifiers that a macro's nodes have where it is spliced in, without that of the call. -/
def innerIds (d : Document) : List String :=
  (d.nodes.filter (fun n ↦ !d.onBoundary n.id)).map Node.id

/-- The nodes with an identifier, but for at most one that is left, were calls, and macros have taken
their place. These have no inner identifiers in common, if no node of the document has such an
identifier itself. -/
def Dissolves (d : Document) (id : String) (o : Outcome) (c : Context) : Prop :=
  ∃ calls rest macros, d.namesakes id = calls ++ rest ∧ calls ≠ [] ∧
    rest.Sublist (o.document.namesakes id) ∧ rest.length ≤ 1 ∧
    List.Forall₂ (o.Replaced c) calls macros ∧
    ((∀ x, d.hasNode (Splice.inner id x) = false) →
      (macros.flatMap (fun m ↦ m.document.innerIds)).Nodup)

variable {parent d result : Document} {callSite id : String} {call : Node} {ids : List String}

/-- All nodes with the identifier were calls, the last one perhaps not. -/
theorem Dissolves.reference_isSome {o : Outcome} {c : Context} (h : d.Dissolves id o c) {n : Node}
    (hn : n ∈ (d.namesakes id).dropLast) : n.reference.isSome := by
  obtain ⟨calls, rest, macros, hsplit, -, -, hlength, hreplaced, -⟩ := h
  have hcalls : (∀ call ∈ calls, call.reference.isSome) ∧ List.Forall₂ (o.Replaced c) calls macros :=
    (List.forall₂_and_left _ _).1 (hreplaced.imp fun _ _ h ↦ ⟨h.reference_isSome, h⟩)
  have hrest : rest.dropLast = [] := List.length_eq_zero_iff.1 (by simp; omega)
  apply hcalls.1 n
  rw [hsplit, List.dropLast_append] at hn
  split at hn
  · exact List.dropLast_subset _ hn
  · simpa [hrest] using hn

theorem namesakes_setGap (d : Document) (id id' : String) (gap : Option Gap) :
    (d.setGap id' gap).namesakes id = d.namesakes id := by
  unfold namesakes
  rw [map_setGap (g := Node.unmarked) fun _ _ ↦ rfl]

theorem ids_setGap (d : Document) (id : String) (gap : Option Gap) :
    (d.setGap id gap).nodes.map Node.id = d.nodes.map Node.id :=
  map_setGap (fun _ _ ↦ rfl) d id gap

theorem length_namesakes_le_one (h : d.IdsDistinct) (id : String) :
    (d.namesakes id).length ≤ 1 := by
  have hids : ((d.namesakes id).map Node.id).Nodup := by
    have hnodup : ((d.nodes.map Node.unmarked).map Node.id).Nodup := by rwa [List.map_map]
    exact hnodup.sublist (List.filter_sublist.map _)
  have hsame : (d.namesakes id).map Node.id = List.replicate (d.namesakes id).length id :=
    List.map_eq_replicate_iff.2 fun n hn ↦ by simpa using (List.mem_filter.1 hn).2
  rw [hsame] at hids
  exact List.nodup_replicate.1 hids

theorem ids_site_nodes (call : Node) (d : Document) :
    (Splice.Site.ofCall call d).nodes.map Node.id = d.innerIds.map (Splice.inner call.id) := by
  rw [Splice.Site.nodes_eq, innerIds, List.map_map, List.map_map]
  rfl

/-- No inner node has the identifier of the call. -/
theorem namesakes_site_nodes (call : Node) (d : Document) :
    (((Splice.Site.ofCall call d).nodes.map Node.unmarked).filter (fun n ↦ n.id = call.id)) = [] := by
  rw [List.filter_eq_nil_iff]
  intro n hn
  obtain ⟨m, hm, rfl⟩ := List.mem_map.1 hn
  obtain ⟨k, -, rfl⟩ := List.mem_map.1 hm
  exact fun hid ↦ Splice.inner_ne call.id k.id (of_decide_eq_true hid)

/-- A splice takes away the first node with the identifier of the call, and no other. -/
theorem namesakes_splice (h : parent.splice callSite d = .ok result) :
    ∃ call, parent.node? callSite = some call ∧
      (Splice.Site.ofCall call d).anchorCount = d.anchorCount ∧
      parent.namesakes callSite = call.unmarked :: result.namesakes callSite := by
  obtain ⟨before, call, after, hnodes, rfl, hbefore, hcount, rfl⟩ := exists_of_splice h
  refine ⟨call, node?_eq_some_iff.2 ⟨before, after, hnodes, rfl, hbefore⟩, hcount, ?_⟩
  have hnone : (before.map Node.unmarked).filter (fun n ↦ n.id = call.id) = [] := by
    rw [List.filter_eq_nil_iff]
    intro n hn
    obtain ⟨m, hm, rfl⟩ := List.mem_map.1 hn
    exact fun hid ↦ hbefore m hm (of_decide_eq_true hid)
  simp only [namesakes, hnodes, List.map_append, List.map_cons, List.filter_append, hnone,
    namesakes_site_nodes, List.nil_append, List.filter_cons, Node.id_unmarked, decide_true, if_true]

/-- A splice takes away no node with another identifier. -/
theorem namesakes_sublist_splice (h : parent.splice callSite d = .ok result) (hne : callSite ≠ id) :
    (parent.namesakes id).Sublist (result.namesakes id) := by
  obtain ⟨before, call, after, hnodes, rfl, -, -, rfl⟩ := exists_of_splice h
  have hcall : call.unmarked.id ≠ id := hne
  simp only [namesakes, hnodes, List.map_append, List.map_cons, List.filter_append,
    List.filter_cons, hcall, decide_false, Bool.false_eq_true, if_false]
  exact (List.sublist_append_left _ _).append (List.Sublist.refl _)

/-- A splice adds the identifiers of the macro's inner nodes, and takes away that of the call. -/
theorem subperm_ids_splice (h : parent.splice callSite d = .ok result)
    (hids : ids <+~ parent.nodes.map Node.id) (hnot : callSite ∉ ids) :
    ids ++ d.innerIds.map (Splice.inner callSite) <+~ result.nodes.map Node.id := by
  obtain ⟨before, call, after, hnodes, rfl, -, -, rfl⟩ := exists_of_splice h
  have hcall : parent.nodes.map Node.id ~ call.id :: (before.map Node.id ++ after.map Node.id) := by
    rw [hnodes, List.map_append, List.map_cons]
    exact List.perm_middle
  have hkept : ids <+~ before.map Node.id ++ after.map Node.id := by
    have herase := (hcall.subperm_left.1 hids).erase call.id
    rwa [List.erase_cons_head, List.erase_of_not_mem hnot] at herase
  have hresult : before.map Node.id ++ after.map Node.id ++ d.innerIds.map (Splice.inner call.id) ~
      (before ++ (Splice.Site.ofCall call d).nodes ++ after).map Node.id := by
    calc before.map Node.id ++ after.map Node.id ++ d.innerIds.map (Splice.inner call.id)
        = before.map Node.id ++ (after.map Node.id ++ d.innerIds.map (Splice.inner call.id)) :=
          List.append_assoc _ _ _
      _ ~ before.map Node.id ++ (d.innerIds.map (Splice.inner call.id) ++ after.map Node.id) :=
          List.perm_append_comm.append_left _
      _ = (before ++ (Splice.Site.ofCall call d).nodes ++ after).map Node.id := by
          rw [List.map_append, List.map_append, ids_site_nodes, List.append_assoc]
  exact hresult.subperm_left.1 ((List.subperm_append_right _).2 hkept)

end Document

namespace Outcome

/-- Macros have taken the place of the first of the nodes that have an identifier, and the others are
still there. -/
structure Thins (d : Document) (id : String) (c : Context) (o : Outcome) (queue : List String) :
    Prop where
  queue : ∀ x ∈ queue, d.hasNode x
  nodes : ∃ calls rest macros, d.namesakes id = calls ++ rest ∧
    List.Forall₂ (o.Replaced c) calls macros ∧ rest.Sublist (o.document.namesakes id) ∧
    ((∀ x, d.hasNode (Splice.inner id x) = false) →
      (macros.flatMap (fun m ↦ m.document.innerIds)).map (Splice.inner id) <+~
        o.document.nodes.map Node.id)

variable {d : Document} {id x : String} {c c' : Context} {o : Outcome} {queue : List String}

theorem thins_start (d : Document) (id : String) (c : Context) :
    Thins d id c (start d) (d.pending.map Node.id) where
  queue := by
    intro x hx
    obtain ⟨n, hn, rfl⟩ := List.mem_map.1 hx
    exact Document.hasNode_iff.2 ⟨n, (List.mem_filter.1 hn).1, rfl⟩
  nodes := ⟨[], _, [], rfl, .nil, List.Sublist.refl _, fun _ ↦ List.nil_subperm⟩

theorem Thins.tail (h : Thins d id c o (x :: queue)) : Thins d id c o queue :=
  ⟨fun y hy ↦ h.queue y (List.mem_cons_of_mem _ hy), h.nodes⟩

theorem Thins.extend (h : Thins d id c o queue) (hknown : c.Extends c') :
    Thins d id c' o queue := by
  obtain ⟨calls, rest, macros, hsplit, hcalls, hrest, hinner⟩ := h.nodes
  have hkept := hcalls.imp fun _ _ ↦ Replaced.mono (List.Subset.refl _) hknown
  exact ⟨h.queue, calls, rest, macros, hsplit, hkept, hrest, hinner⟩

theorem Thins.mark (h : Thins d id c o (x :: queue)) (reference : Reference) (gap : Gap) :
    Thins d id c (o.mark x reference gap) queue := by
  obtain ⟨calls, rest, macros, hsplit, hcalls, hrest, hinner⟩ := h.nodes
  refine ⟨h.tail.queue, calls, rest, macros, hsplit, hcalls, ?_, fun hfree ↦ ?_⟩
  · rwa [Outcome.mark, Document.namesakes_setGap]
  · rw [Outcome.mark, Document.ids_setGap]
    exact hinner hfree

theorem expand_of_splice {m : Definition} {result : Document} (reference : Reference)
    (h : o.document.splice x m.document = .ok result) :
    (o.expand x reference m).document = result ∧ o.uses ⊆ (o.expand x reference m).uses ∧
      ⟨reference, m.path, m.document.anchorCount.inputs, m.document.anchorCount.outputs⟩ ∈
        (o.expand x reference m).uses := by
  unfold Outcome.expand
  rw [h]
  exact ⟨rfl, List.subset_append_left _ _, by simp⟩

section

variable {reference : Reference} {m : Definition}

/-- A call with another identifier is replaced: the nodes with this one stay. -/
theorem Thins.expand_other (h : Thins d id c o (x :: queue)) (hx : x ≠ id) {result : Document}
    (hsplice : o.document.splice x m.document = .ok result) :
    Thins d id c (o.expand x reference m) queue := by
  obtain ⟨calls, rest, macros, hsplit, hcalls, hrest, hinner⟩ := h.nodes
  obtain ⟨hresult, huses, -⟩ := expand_of_splice reference hsplice
  have hkept := hcalls.imp fun _ _ ↦ Replaced.mono huses (.refl c)
  have hown : d.hasNode x := h.queue x (List.mem_cons_self ..)
  refine ⟨h.tail.queue, calls, rest, macros, hsplit, hkept, ?_, fun hfree ↦ ?_⟩
  · rw [hresult]
    exact hrest.trans (Document.namesakes_sublist_splice hsplice hx)
  · have hnot : x ∉ (macros.flatMap (fun m ↦ m.document.innerIds)).map (Splice.inner id) := by
      intro hmem
      obtain ⟨y, -, rfl⟩ := List.mem_map.1 hmem
      rw [hfree y] at hown
      cases hown
    rw [hresult]
    exact (List.sublist_append_left _ _).subperm.trans
      (Document.subperm_ids_splice hsplice (hinner hfree) hnot)

variable (hreference : o.document.reference? x = some reference) {file : Path}

include hreference

/-- A call with the identifier is replaced: it is the first of the nodes that are still there. -/
theorem Thins.expand_same (h : Thins d x c o (x :: queue))
    (hknown : c.expansion? file = some (.expanded m)) {result : Document}
    (hsplice : o.document.splice x m.document = .ok result) :
    Thins d x c (o.expand x reference m) queue := by
  obtain ⟨calls, rest, macros, hsplit, hcalls, hrest, hinner⟩ := h.nodes
  obtain ⟨hresult, huses, huse⟩ := expand_of_splice reference hsplice
  have hkept := hcalls.imp fun _ _ ↦ Replaced.mono huses (.refl c)
  have hnot : x ∉ (macros.flatMap (fun m ↦ m.document.innerIds)).map (Splice.inner x) := by
    intro hmem
    obtain ⟨y, -, hy⟩ := List.mem_map.1 hmem
    exact Splice.inner_ne x y hy
  have hids (hfree : ∀ y, d.hasNode (Splice.inner x y) = false) :=
    Document.subperm_ids_splice hsplice (hinner hfree) hnot
  obtain ⟨call, hcall, hcount, hnames⟩ := Document.namesakes_splice hsplice
  rw [hnames] at hrest
  refine ⟨h.tail.queue, ?_⟩
  rw [hresult]
  cases hrest with
  | cons _ hrest =>
    -- The call came with another macro, and is none of the document's own.
    exact ⟨calls, rest, macros, hsplit, hkept, hrest,
      fun hfree ↦ (List.sublist_append_left _ _).subperm.trans (hids hfree)⟩
  | @cons_cons others _ _ hrest =>
    have hreplaced : (o.expand x reference m).Replaced c call.unmarked m := by
      refine ⟨reference, file, ?_, hknown, hcount, huse⟩
      simpa [Document.reference?, hcall] using hreference
    refine ⟨calls ++ [call.unmarked], others, macros ++ [m], by simp [hsplit],
      List.rel_append hkept (.cons hreplaced .nil), hrest, fun hfree ↦ ?_⟩
    simpa using hids hfree

theorem Thins.expand (h : Thins d id c o (x :: queue))
    (hknown : c.expansion? file = some (.expanded m)) :
    Thins d id c (o.expand x reference m) queue := by
  cases hsplice : o.document.splice x m.document with
  | error gap =>
    unfold Outcome.expand
    rw [hsplice]
    exact h.mark reference gap
  | ok result =>
    by_cases hx : x = id
    · subst hx
      exact h.expand_same hreference hknown hsplice
    · exact h.expand_other hx hsplice

theorem Thins.apply (h : Thins d id c o (x :: queue)) {e : Expansion}
    (hknown : c.expansion? file = some e) : Thins d id c (o.apply x reference e) queue := by
  cases e with
  | expanded m => exact h.expand hreference hknown
  | failed gap => exact h.mark reference gap

end

/-- When no call is left and identifiers are distinct, all that shared one are gone but one. -/
theorem Thins.dissolves (h : Thins d id c o []) (hids : o.document.IdsDistinct)
    (hshared : 1 < (d.namesakes id).length) : d.Dissolves id o c := by
  obtain ⟨calls, rest, macros, hsplit, hcalls, hrest, hinner⟩ := h.nodes
  have hlength : rest.length ≤ 1 :=
    hrest.length_le.trans (Document.length_namesakes_le_one hids id)
  refine ⟨calls, rest, macros, hsplit, ?_, hrest, hlength, hcalls, fun hfree ↦ ?_⟩
  · rintro rfl
    rw [hsplit, List.nil_append] at hshared
    omega
  · obtain ⟨ids, hperm, hsub⟩ := hinner hfree
    have hnodup : ids.Nodup := hids.sublist hsub
    exact (hperm.nodup_iff.1 hnodup).of_map

end Outcome

namespace Progress

variable {σ : Type} {P Q : Outcome → List String → Prop} {o o' : Outcome}
  {queue queue' : List String} {callers : List Caller}

/-- Something holds of the lowest frame and the calls left in it, that of the next frame included;
`callers` are the frames below one that has an outcome and a queue. -/
def OfRoot (P : Outcome → List String → Prop) : Outcome → List String → List Caller → Prop
  | o, queue, [] => P o queue
  | _, _, caller :: callers =>
    OfRoot P caller.frame.outcome (caller.callSite :: caller.frame.queue) callers

theorem OfRoot.imp (hstep : P o queue → P o' queue') (h : OfRoot P o queue callers) :
    OfRoot P o' queue' callers := by
  cases callers with
  | nil => exact hstep h
  | cons caller callers => exact h

theorem OfRoot.mono (hPQ : ∀ o queue, P o queue → Q o queue) (h : OfRoot P o queue callers) :
    OfRoot Q o queue callers := by
  induction callers generalizing o queue with
  | nil => exact hPQ o queue h
  | cons caller callers ih => exact ih h

/-- Macros take the place of the first nodes of the document that have an identifier. -/
structure Thins (d : Document) (id : String) (p : Progress σ) : Prop where
  untold : p.Untold
  called : ∀ caller ∈ p.callers,
    caller.frame.outcome.document.reference? caller.callSite = some caller.reference
  root : OfRoot (Outcome.Thins d id p.session.context) p.current.outcome p.current.queue p.callers

end Progress

namespace Resolver

variable {σ : Type} {r : Resolver σ} {d : Document} {id : String}

theorem thins_move {p q : Progress σ} (h : r.Move p q) (hp : p.Thins d id) : q.Thins d id := by
  have hextends := extends_move h hp.untold
  have hroot := hp.root.mono fun _ _ hthins ↦ hthins.extend hextends
  refine ⟨untold_move h hp.untold, ?_, ?_⟩
  · cases h with
    | leave _ hcallers =>
      exact fun caller hcaller ↦ hp.called caller (hcallers ▸ List.mem_cons_of_mem _ hcaller)
    | enter _ hreference =>
      intro caller hcaller
      rcases List.mem_cons.1 hcaller with rfl | hold
      · exact hreference
      · exact hp.called caller hold
    | _ => exact hp.called
  · cases h with
    | @leave caller callers hqueue hcallers =>
      have hreference := hp.called caller (hcallers ▸ List.mem_cons_self ..)
      have hknown : (p.leave caller callers).session.context.expansion? p.current.file =
          some (.expanded (p.current.outcome.definition p.current.file)) := by
        rw [p.expansion?_leave, if_pos BEq.rfl]
      rw [hcallers] at hroot
      exact hroot.imp fun hthins ↦ hthins.expand hreference hknown
    | skip hqueue =>
      rw [hqueue] at hroot
      exact hroot.imp Outcome.Thins.tail
    | unresolved hqueue =>
      rw [hqueue] at hroot
      exact hroot.imp fun hthins ↦ hthins.mark _ _
    | cyclic hqueue =>
      rw [hqueue] at hroot
      exact hroot.imp fun hthins ↦ hthins.mark _ _
    | reuse hqueue hreference _ _ hknown =>
      rw [hqueue] at hroot
      exact hroot.imp fun hthins ↦ hthins.apply hreference hknown
    | fail hqueue =>
      rw [hqueue] at hroot
      exact hroot.imp fun hthins ↦ hthins.mark _ _
    | enter hqueue =>
      rw [hqueue] at hroot
      exact hroot

/-- A document that is resolved with distinct identifiers has lost the ones that were shared. -/
theorem dissolves_of_distinct_resolve {s : Session σ} (hshared : 1 < (d.namesakes id).length)
    (hids : (r.resolve d s).1.document.IdsDistinct) :
    d.Dissolves id (r.resolve d s).1 (r.resolve d s).2.context := by
  have hstart : (r.begin d s).Thins d id := by
    refine ⟨Progress.untold_start _ _ _, fun caller hcaller ↦ ?_, Outcome.thins_start d id _⟩
    cases hcaller
  have hend := run_keeps (r := r) (fun _ _ ↦ thins_move) hstart
  obtain ⟨hqueue, hcallers⟩ := run_done (r := r) (r.begin d s)
  have hroot := hend.root
  rw [hqueue, hcallers] at hroot
  exact Outcome.Thins.dissolves hroot hids hshared

end Resolver

end Provenance

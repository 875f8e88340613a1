import Provenance.Proofs.Expansion.Frames
import Provenance.Proofs.Expansion.Settled
import Provenance.Proofs.Splice.Valid

/-!
# Valid documents stay valid

A document is well-formed if it is valid and no identifier has a slash in it. If all documents that
are opened are well-formed, then whatever becomes of their calls, each document is valid all the
time (`Outcome.Sound`): marks change neither identifiers nor connections, and a macro's nodes go
where no node can be, since the calls that are left are named without a slash.
-/

namespace Provenance

namespace Document

/-- A valid document whose identifiers have no slash in them. -/
structure WellFormed (d : Document) : Prop extends d.Valid where
  plain : ∀ n ∈ d.nodes, '/' ∉ n.id.toList

theorem hasNode_eq_contains (d : Document) (id : String) :
    d.hasNode id = (d.nodes.map Node.id).contains id := by
  rw [Bool.eq_iff_iff, hasNode_iff]
  simp

/-- Whether a document is valid depends on its identifiers and its connections only. -/
theorem Valid.of_eq {d d' : Document} (h : d.Valid)
    (hids : d'.nodes.map Node.id = d.nodes.map Node.id)
    (hconnections : d'.connections = d.connections) : d'.Valid := by
  have hnode (id : String) : d'.hasNode id = d.hasNode id := by
    rw [hasNode_eq_contains, hasNode_eq_contains, hids]
  refine ⟨?_, ?_, ?_⟩
  · rw [IdsDistinct, hids]
    exact h.distinct
  · rw [dangling_eq_nil_iff, hconnections]
    simp only [hnode]
    exact dangling_eq_nil_iff.1 h.linked
  · have hflows : d'.Flows = d.Flows := by
      unfold Flows
      rw [hconnections]
    rw [Acyclic, hflows]
    exact h.acyclic

end Document

namespace Outcome

/-- What has become of a document is valid, and the calls that are left are named without a slash,
each in a way that no inner node can be. -/
structure Sound (o : Outcome) (rest : List String) : Prop where
  valid : o.document.Valid
  nodup : rest.Nodup
  plain : ∀ id ∈ rest, '/' ∉ id.toList
  topLevel : ∀ id ∈ rest, ∀ n ∈ o.document.nodes, topLevel n.id = id.toList → n.id = id

theorem sound_start {d : Document} (h : d.WellFormed) :
    (start d).Sound (d.pending.map Node.id) where
  valid := h.toValid
  nodup := h.distinct.sublist (List.filter_sublist.map _)
  plain id hid := by
    obtain ⟨n, hn, rfl⟩ := List.mem_map.1 hid
    exact h.plain n (List.mem_filter.1 hn).1
  topLevel id _ n hn htop := by
    rw [topLevel_of_not_mem (h.plain n hn)] at htop
    exact String.toList_inj.1 htop

variable {o : Outcome} {id : String} {rest : List String}

theorem Sound.tail (h : o.Sound (id :: rest)) : o.Sound rest where
  valid := h.valid
  nodup := (List.nodup_cons.1 h.nodup).2
  plain id hid := h.plain id (List.mem_cons_of_mem _ hid)
  topLevel id hid := h.topLevel id (List.mem_cons_of_mem _ hid)

theorem Sound.mark (h : o.Sound rest) (reference : Reference) (gap : Gap) :
    (o.mark id reference gap).Sound rest := by
  have hids : (o.mark id reference gap).document.nodes.map Node.id = o.document.nodes.map Node.id :=
    Document.map_setGap (fun _ _ ↦ rfl) o.document id (some gap)
  refine ⟨h.valid.of_eq hids rfl, h.nodup, h.plain, fun id' hid' n hn htop ↦ ?_⟩
  have hmem : n.id ∈ o.document.nodes.map Node.id := hids ▸ List.mem_map_of_mem hn
  obtain ⟨m, hm, hmid⟩ := List.mem_map.1 hmem
  rw [← hmid] at htop ⊢
  exact h.topLevel id' hid' m hm htop

/-- No node is where the nodes of a macro go. -/
theorem Sound.fresh (h : o.Sound (id :: rest)) {s : Splice.Site} (hs : s.callSite = id) :
    s.Fresh o.document := by
  intro inner
  subst hs
  rw [Bool.eq_false_iff]
  intro hnode
  obtain ⟨n, hn, hid⟩ := Document.hasNode_iff.1 hnode
  have htop := hid ▸ topLevel_inner (h.plain s.callSite (List.mem_cons_self ..))
  have heq := h.topLevel s.callSite (List.mem_cons_self ..) n hn htop
  exact Splice.inner_ne s.callSite inner (hid.symm.trans heq)

theorem Sound.expand (h : o.Sound (id :: rest)) {reference : Reference}
    (hreference : o.document.reference? id = some reference) {d : Definition}
    (hd : d.document.Valid) : (o.expand id reference d).Sound rest := by
  unfold Outcome.expand
  split
  · exact h.tail.mark reference _
  · rename_i result hsplice
    obtain ⟨call, hcall, -⟩ := Option.bind_eq_some_iff.1 hreference
    obtain ⟨before, after, hnodes, rfl, rfl⟩ := Document.splice_ok hcall hsplice
    have hvalid := h.valid.splice hd hcall (h.fresh rfl) hsplice
    refine ⟨hvalid, h.tail.nodup, h.tail.plain, fun id' hid' n hn htop ↦ ?_⟩
    rw [List.append_assoc, List.mem_append, List.mem_append] at hn
    have hkept (hmem : n ∈ before ++ call :: after) : n.id = id' :=
      h.tail.topLevel id' hid' n (hnodes ▸ hmem) htop
    rcases hn with hn | hn | hn
    · exact hkept (List.mem_append_left _ hn)
    · obtain ⟨m, -, rfl⟩ := List.mem_map.1 hn
      have hinner : Provenance.topLevel (Splice.inner call.id m.id) = call.id.toList :=
        topLevel_inner (h.plain call.id (List.mem_cons_self ..))
      have heq : id' = call.id := String.toList_inj.1 (htop.symm.trans hinner)
      exact absurd (heq ▸ hid') (List.nodup_cons.1 h.nodup).1
    · exact hkept (List.mem_append_right _ (List.mem_cons_of_mem _ hn))

theorem Sound.apply (h : o.Sound (id :: rest)) {reference : Reference}
    (hreference : o.document.reference? id = some reference) {e : Expansion}
    (he : ∀ d, e = .expanded d → d.document.Valid) : (o.apply id reference e).Sound rest := by
  cases e with
  | expanded d => exact h.expand hreference (he d rfl)
  | failed gap => exact h.tail.mark reference gap

end Outcome

namespace Resolver

variable {σ : Type}

/-- Every document is valid, whatever has become of its calls. -/
def soundness (σ : Type) : Claim σ where
  session _ := True
  frame _ o rest := o.Sound rest
  known _ e := ∀ d, e = .expanded d → d.document.Valid

variable (r : Resolver σ)

/-- The document in a file, if there is one, is well-formed. -/
def FileWellFormed (file : Path) : Prop :=
  ∀ d, r.load file = .ok d → d.WellFormed

theorem sustains_soundness (root : Path) :
    r.Sustains (soundness σ) r.FileWellFormed root where
  lookup _ _ := trivial
  opening _ := trivial
  remember _ := trivial
  start hallowed hload := Outcome.sound_start (hallowed _ hload)
  skip h _ := h.tail
  unresolved h _ _ _ := h.tail.mark _ _
  cyclic _ h _ := h.tail.mark _ _
  apply h hreference _ _ hknown := h.apply hreference hknown
  finish _ _ _ h d hd := by
    cases hd
    exact h.valid
  fail _ _ d hd := by cases hd
  spelled _ h := h

variable {r}

/-- If the document and all documents that were ever opened are well-formed, then the document is
valid when its calls have been looked into. Earlier documents may have been searched for in another
way, and others may have been asked. -/
theorem valid_resolve {folders : List Path} {earlier : List Document} {s : Session σ}
    (hs : History (fun r' ↦ r'.load = r.load) folders earlier s) {d : Document} (hd : d.WellFormed)
    (hopened : ∀ file ∈ (r.resolve d s).2.context.opened, r.FileWellFormed file) :
    (r.resolve d s).1.document.Valid := by
  have hsustains (r' : Resolver σ) (hr : r'.load = r.load) (root : Path) :
      r'.Sustains (soundness σ) r.FileWellFormed root := by
    have hsame : r'.FileWellFormed = r.FileWellFormed := by
      unfold FileWellFormed
      rw [hr]
    exact hsame ▸ r'.sustains_soundness root
  have hmemory := Sustains.history hsustains (fun _ ↦ trivial) hs
  have hend := (r.sustains_soundness (r.files.canonical d.path)).resolve hmemory hopened
  exact (hend.2 (Outcome.sound_start hd)).valid

end Resolver

end Provenance

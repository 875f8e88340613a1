import Mathlib.Logic.Relation
import Provenance.Proofs.Splice.Dangling

/-!
# Validity after a splice

A document is valid if its identifiers are distinct, its connections join nodes of it and no data
flow in a circle. A splice of valid documents is valid (`Valid.splice`).

It makes no circle: a circle in the result lies inside the macro, or becomes one in the calling
document if the macro's nodes are read as the call (`Site.outer`), a path through the macro from one
side to the other being a path through the call. Where no data flow in a circle the call does not
feed itself, so that no connection is left that leads nowhere either.
-/

open Relation

namespace Provenance

namespace Document

/-- Data flow along a connection from one node to another. -/
def Flows (d : Document) (x y : String) : Prop :=
  ∃ c ∈ d.connections, c.source.node = x ∧ c.target.node = y

/-- No data flow in a circle. -/
def Acyclic (d : Document) : Prop :=
  ∀ id, ¬TransGen d.Flows id id

/-- Identifiers are distinct, connections join nodes, and no data flow in a circle. -/
structure Valid (d : Document) : Prop where
  distinct : d.IdsDistinct
  linked : d.dangling = []
  acyclic : d.Acyclic

theorem acyclic_of_lt {d : Document} (h : ∀ c ∈ d.connections, c.source.node < c.target.node) :
    d.Acyclic := by
  have hlt {x y : String} (hchain : TransGen d.Flows x y) : x < y := by
    induction hchain with
    | single hflows =>
      obtain ⟨c, hc, rfl, rfl⟩ := hflows
      exact h c hc
    | tail _ hflows ih =>
      obtain ⟨c, hc, rfl, rfl⟩ := hflows
      exact String.lt_trans ih (h c hc)
  exact fun id hcycle ↦ String.lt_irrefl id (hlt hcycle)

theorem hasNode_of_flows {d : Document} (h : d.dangling = []) {x y : String}
    (hflows : d.Flows x y) : d.hasNode x ∧ d.hasNode y := by
  obtain ⟨c, hc, rfl, rfl⟩ := hflows
  exact dangling_eq_nil_iff.1 h c hc

end Document

namespace Splice

namespace Site

/-- A node of the result as one of the calling document: the macro's nodes as the call. -/
def outer (s : Site) (id : String) : String :=
  if (s.callSite ++ "/").toList <+: id.toList then s.callSite else id

theorem outer_inner (s : Site) (id : String) : s.outer (inner s.callSite id) = s.callSite := by
  apply if_pos
  simp only [inner, String.toList_append]
  exact List.prefix_append _ _

variable {s : Site} {parent : Document}

/-- The identifiers that the macro's nodes get are not in use. -/
def Fresh (s : Site) (parent : Document) : Prop :=
  ∀ id, parent.hasNode (inner s.callSite id) = false

theorem Fresh.outer_eq (h : s.Fresh parent) {id : String} (hid : parent.hasNode id) :
    s.outer id = id := by
  apply if_neg
  rintro ⟨rest, hrest⟩
  have heq : inner s.callSite (String.ofList rest) = id := by
    apply String.toList_inj.1
    rw [inner, String.toList_append, String.toList_ofList, hrest]
  have hnone := h (String.ofList rest)
  rw [heq, hid] at hnone
  cases hnone

/-- A connection of the result is one inside the macro, or a path of the calling document. -/
theorem Rewired.outer (hfresh : s.Fresh parent) (hparent : parent.dangling = []) {x : Connection}
    (hx : s.Rewired parent x) :
    (∃ a b, x.source.node = inner s.callSite a ∧ x.target.node = inner s.callSite b ∧
        s.definition.Flows a b) ∨
      TransGen parent.Flows (s.outer x.source.node) (s.outer x.target.node) := by
  have hends := Document.dangling_eq_nil_iff.1 hparent
  cases hx with
  | untouched hp =>
    right
    rw [hfresh.outer_eq (hends _ hp).1, hfresh.outer_eq (hends _ hp).2]
    exact .single ⟨_, hp, rfl, rfl⟩
  | inside hc => exact .inl ⟨_, _, rfl, rfl, _, hc, rfl, rfl⟩
  | entering hp hc hcall =>
    right
    rw [hfresh.outer_eq (hends _ hp).1, innerEnd, outer_inner]
    exact .single ⟨_, hp, rfl, hcall⟩
  | leaving hq hc hcall =>
    right
    rw [hfresh.outer_eq (hends _ hq).2, innerEnd, outer_inner]
    exact .single ⟨_, hq, hcall, rfl⟩
  | passing hp hc hq hcall hanchor hcall' =>
    right
    rw [hfresh.outer_eq (hends _ hp).1, hfresh.outer_eq (hends _ hq).2]
    exact .tail (.single ⟨_, hp, rfl, hcall⟩) ⟨_, hq, hcall', rfl⟩

/-- A path of the result lies inside the macro, or is a path of the calling document. -/
theorem transGen_outer (hfresh : s.Fresh parent) (hparent : parent.dangling = [])
    {result : Document} (hresult : ∀ x ∈ result.connections, s.Rewired parent x) {x y : String}
    (h : TransGen result.Flows x y) :
    (∃ a b, x = inner s.callSite a ∧ y = inner s.callSite b ∧ TransGen s.definition.Flows a b) ∨
      TransGen parent.Flows (s.outer x) (s.outer y) := by
  induction h with
  | single hflows =>
    obtain ⟨c, hc, rfl, rfl⟩ := hflows
    exact ((hresult c hc).outer hfresh hparent).imp_left
      fun ⟨a, b, ha, hb, hab⟩ ↦ ⟨a, b, ha, hb, .single hab⟩
  | tail _ hflows ih =>
    obtain ⟨c, hc, hsource, rfl⟩ := hflows
    obtain ⟨a, b, ha, hb, hab⟩ | hstep := (hresult c hc).outer hfresh hparent
    · obtain ⟨a', b', rfl, hb', hab'⟩ | hpath := ih
      · obtain rfl : b' = a := inner_injective _ (hb'.symm.trans (hsource.symm.trans ha))
        exact .inl ⟨a', b, rfl, hb, hab'.tail hab⟩
      · rw [← hsource, ha, outer_inner] at hpath
        rw [hb, outer_inner]
        exact .inr hpath
    · rw [hsource] at hstep
      obtain ⟨a', b', rfl, rfl, -⟩ | hpath := ih
      · rw [outer_inner] at hstep ⊢
        exact .inr hstep
      · exact .inr (hpath.trans hstep)

/-- A call that feeds itself is a circle. -/
theorem not_feedsBack (h : parent.Acyclic) : ¬s.FeedsBack parent := by
  rintro ⟨p, hp, hsource, htarget, -⟩
  exact h s.callSite (.single ⟨p, hp, hsource, htarget⟩)

end Site

end Splice

namespace Document

variable {parent d result : Document} {callSite : String} {call : Node}

/-- A splice makes no circle. -/
theorem acyclic_splice (hcall : parent.node? callSite = some call)
    (hfresh : (Splice.Site.ofCall call d).Fresh parent) (hparent : parent.dangling = [])
    (hacyclic : parent.Acyclic) (hids : d.IdsDistinct) (hd : d.Acyclic)
    (h : parent.splice callSite d = .ok result) : result.Acyclic := by
  obtain ⟨before, after, -, rfl, rfl⟩ := splice_ok hcall h
  intro id hcycle
  have hrewired (x : Connection) (hx : x ∈ (Splice.Site.ofCall call d).connections parent) :
      (Splice.Site.ofCall call d).Rewired parent x :=
    (Splice.Site.mem_connections_iff hids).1 hx
  obtain ⟨a, b, rfl, hb, hab⟩ | hpath := Splice.Site.transGen_outer hfresh hparent hrewired hcycle
  · obtain rfl := Splice.inner_injective _ hb
    exact hd a hab
  · exact hacyclic _ hpath

/-- Where no data flow in a circle, a splice leaves no connection that leads nowhere. -/
theorem dangling_splice (hcall : parent.node? callSite = some call) (hparent : parent.dangling = [])
    (hparentIds : parent.IdsDistinct) (hacyclic : parent.Acyclic) (hd : d.dangling = [])
    (hids : d.IdsDistinct) (h : parent.splice callSite d = .ok result) : result.dangling = [] := by
  have hnode := fun e ↦ hasNode_splice_iff (e := e) hcall h hparentIds
  obtain ⟨before, after, -, rfl, hresult⟩ := splice_ok hcall h
  have hunmentioned := mt Splice.Site.exists_rewired_mentions_iff.1
    (Splice.Site.not_feedsBack (s := Splice.Site.ofCall call d) hacyclic)
  rw [dangling_eq_nil_iff]
  intro c hc
  have hrewired : (Splice.Site.ofCall call d).Rewired parent c := by
    rw [hresult] at hc
    exact (Splice.Site.mem_connections_iff hids).1 hc
  obtain ⟨hsource, htarget⟩ := hrewired.known hparent hd
  exact ⟨(hnode _ hsource).2 fun heq ↦ hunmentioned ⟨c, hrewired, .inl heq⟩,
    (hnode _ htarget).2 fun heq ↦ hunmentioned ⟨c, hrewired, .inr heq⟩⟩

/-- A splice of valid documents is valid, if the identifiers that the macro's nodes get are not in
use. -/
theorem Valid.splice (hparent : parent.Valid) (hd : d.Valid)
    (hcall : parent.node? callSite = some call) (hfresh : (Splice.Site.ofCall call d).Fresh parent)
    (h : parent.splice callSite d = .ok result) : result.Valid := by
  have hlinked := dangling_splice hcall hparent.linked hparent.distinct hparent.acyclic hd.linked
    hd.distinct h
  have hacyclic := acyclic_splice hcall hfresh hparent.linked hparent.acyclic hd.distinct
    hd.acyclic h
  refine ⟨hparent.distinct.splice hd.distinct hcall (fun n hn id heq ↦ ?_) h, hlinked, hacyclic⟩
  obtain ⟨-, -, -, rfl, -⟩ := node?_eq_some_iff.1 hcall
  have hfree : parent.hasNode n.id = false := heq ▸ hfresh id
  exact Bool.eq_false_iff.1 hfree (hasNode_iff.2 ⟨n, hn, rfl⟩)

end Document

end Provenance

import Provenance.Proofs.Splice.Rewiring

/-!
# Connections that lead nowhere after a splice

A splice copies the outer ends of the connections that touch the call. If a connection of the
calling document goes from the call to itself, its outer end is the call, which is gone afterwards.
This is the only way in which a splice of well-formed documents leaves a connection that leads
nowhere: it does so exactly if data come in or go out along such a connection
(`splice_dangling_eq_nil_iff`).
-/

open scoped List

namespace Provenance

namespace Document

theorem dangling_eq_nil_iff {d : Document} :
    d.dangling = [] ↔
      ∀ c ∈ d.connections, d.hasNode c.source.node ∧ d.hasNode c.target.node := by
  simp [dangling]

theorem mem_dangling_iff {d : Document} {x : Dangling} :
    x ∈ d.dangling ↔ x.connection ∈ d.connections ∧ d.hasNode x.missing = false ∧
      (x.missing = x.connection.source.node ∨ x.missing = x.connection.target.node) := by
  obtain ⟨c, id⟩ := x
  simp only [dangling, List.mem_flatMap, List.mem_map, List.mem_filter, Dangling.mk.injEq,
    List.mem_cons, List.not_mem_nil, or_false, Bool.not_eq_true']
  constructor
  · rintro ⟨c, hc, id, ⟨hid, hmissing⟩, rfl, rfl⟩
    exact ⟨hc, hmissing, hid⟩
  · rintro ⟨hc, hmissing, hid⟩
    exact ⟨c, hc, id, ⟨hid, hmissing⟩, rfl, rfl⟩

theorem hasNode_iff {d : Document} {id : String} : d.hasNode id ↔ ∃ n ∈ d.nodes, n.id = id := by
  simp [hasNode]

end Document

namespace Splice

namespace Site

/-- Whether what arrives at an input anchor goes on: to an inner node of the macro, or to a node
that reads an output anchor of the call. -/
def Feeds (s : Site) (parent : Document) (anchor : String) : Prop :=
  ∃ c ∈ s.definition.connections, s.inputNode? anchor = some c.source.node ∧
    (s.definition.onBoundary c.target.node = false ∨
      ∃ q ∈ parent.outgoing s.callSite, s.outputNode? q.source.anchor = some c.target.node)

/-- Whether what leaves an output anchor comes from somewhere: from an inner node of the macro, or
from a node that feeds an input anchor of the call. -/
def Draws (s : Site) (parent : Document) (anchor : String) : Prop :=
  ∃ c ∈ s.definition.connections, s.outputNode? anchor = some c.target.node ∧
    (s.definition.onBoundary c.source.node = false ∨
      ∃ p ∈ parent.incoming s.callSite, s.inputNode? p.target.anchor = some c.source.node)

/-- Whether a connection from the call to itself carries data into the macro or out of it. -/
def FeedsBack (s : Site) (parent : Document) : Prop :=
  ∃ p ∈ parent.connections, p.source.node = s.callSite ∧ p.target.node = s.callSite ∧
    (s.Feeds parent p.target.anchor ∨ s.Draws parent p.source.anchor)

/-- The connections of a spliced document, by where they come from. -/
inductive Rewired (s : Site) (parent : Document) : Connection → Prop
  | untouched {p} (hp : p ∈ parent.connections) (hsource : p.source.node ≠ s.callSite)
      (htarget : p.target.node ≠ s.callSite) : Rewired s parent p
  | inside {c} (hc : c ∈ s.definition.connections)
      (hsource : s.definition.onBoundary c.source.node = false)
      (htarget : s.definition.onBoundary c.target.node = false) :
      Rewired s parent ⟨innerEnd s.callSite c.source, innerEnd s.callSite c.target⟩
  | entering {p c} (hp : p ∈ parent.connections) (hc : c ∈ s.definition.connections)
      (hcall : p.target.node = s.callSite)
      (hanchor : s.inputNode? p.target.anchor = some c.source.node)
      (htarget : s.definition.onBoundary c.target.node = false) :
      Rewired s parent ⟨p.source, innerEnd s.callSite c.target⟩
  | leaving {q c} (hq : q ∈ parent.connections) (hc : c ∈ s.definition.connections)
      (hcall : q.source.node = s.callSite)
      (hanchor : s.outputNode? q.source.anchor = some c.target.node)
      (hsource : s.definition.onBoundary c.source.node = false) :
      Rewired s parent ⟨innerEnd s.callSite c.source, q.target⟩
  | passing {p c q} (hp : p ∈ parent.connections) (hc : c ∈ s.definition.connections)
      (hq : q ∈ parent.connections) (hcall : p.target.node = s.callSite)
      (hanchor : s.inputNode? p.target.anchor = some c.source.node)
      (hcall' : q.source.node = s.callSite)
      (hanchor' : s.outputNode? q.source.anchor = some c.target.node) :
      Rewired s parent ⟨p.source, q.target⟩

variable {s : Site} {parent : Document}

theorem mem_connections_iff (h : s.definition.IdsDistinct) {x : Connection} :
    x ∈ s.connections parent ↔ s.Rewired parent x := by
  rw [(connections_perm_classes h parent).mem_iff]
  simp only [untouched, inside, entering, leaving, passing, List.mem_append, List.mem_filter,
    List.mem_flatMap, List.mem_filterMap, Option.ite_none_right_eq_some, Option.some.injEq,
    Bool.and_eq_true, decide_eq_true_eq]
  constructor
  · rintro ((((⟨hp, hs, ht⟩ | ⟨c, hc, ⟨hs, ht⟩, rfl⟩) | ⟨p, hp, c, hc, ⟨hcall, ha, ht⟩, rfl⟩) |
      ⟨q, hq, c, hc, ⟨hcall, ha, hs⟩, rfl⟩) | ⟨q, hq, c, hc, p, hp, ⟨hcall, ha, hcall', ha'⟩, rfl⟩)
    · exact .untouched hp hs ht
    · exact .inside hc hs ht
    · exact .entering hp hc hcall ha ht
    · exact .leaving hq hc hcall ha hs
    · exact .passing hp hc hq hcall ha hcall' ha'
  · rintro (⟨hp, hs, ht⟩ | ⟨hc, hs, ht⟩ | ⟨hp, hc, hcall, ha, ht⟩ | ⟨hq, hc, hcall, ha, hs⟩ |
      ⟨hp, hc, hq, hcall, ha, hcall', ha'⟩)
    · exact .inl (.inl (.inl (.inl ⟨hp, hs, ht⟩)))
    · exact .inl (.inl (.inl (.inr ⟨_, hc, ⟨hs, ht⟩, rfl⟩)))
    · exact .inl (.inl (.inr ⟨_, hp, _, hc, ⟨hcall, ha, ht⟩, rfl⟩))
    · exact .inl (.inr ⟨_, hq, _, hc, ⟨hcall, ha, hs⟩, rfl⟩)
    · exact .inr ⟨_, hq, _, hc, _, hp, ⟨hcall, ha, hcall', ha'⟩, rfl⟩

/-- An end that a splice of well-formed documents leaves: a node of the calling document, or an
inner node of the macro. -/
def Known (s : Site) (parent : Document) (e : Endpoint) : Prop :=
  parent.hasNode e.node ∨
    ∃ id, s.definition.hasNode id ∧ s.definition.onBoundary id = false ∧
      e.node = inner s.callSite id

theorem Rewired.known (hparent : parent.dangling = []) (hd : s.definition.dangling = [])
    {x : Connection} (hx : s.Rewired parent x) :
    s.Known parent x.source ∧ s.Known parent x.target := by
  rw [Document.dangling_eq_nil_iff] at hparent hd
  cases hx with
  | untouched hp => exact ⟨.inl (hparent _ hp).1, .inl (hparent _ hp).2⟩
  | inside hc hsource htarget =>
    exact ⟨.inr ⟨_, (hd _ hc).1, hsource, rfl⟩, .inr ⟨_, (hd _ hc).2, htarget, rfl⟩⟩
  | entering hp hc hcall hanchor htarget =>
    exact ⟨.inl (hparent _ hp).1, .inr ⟨_, (hd _ hc).2, htarget, rfl⟩⟩
  | leaving hq hc hcall hanchor hsource =>
    exact ⟨.inr ⟨_, (hd _ hc).1, hsource, rfl⟩, .inl (hparent _ hq).2⟩
  | passing hp hc hq => exact ⟨.inl (hparent _ hp).1, .inl (hparent _ hq).2⟩

/-- A connection that mentions the call is left exactly if the call feeds itself. -/
theorem exists_rewired_mentions_iff :
    (∃ x, s.Rewired parent x ∧ (x.source.node = s.callSite ∨ x.target.node = s.callSite)) ↔
      s.FeedsBack parent := by
  constructor
  · rintro ⟨x, hx, hmention⟩
    cases hx with
    | untouched hp hsource htarget => exact absurd hmention (not_or.2 ⟨hsource, htarget⟩)
    | inside hc => exact absurd hmention (not_or.2 ⟨inner_ne _ _, inner_ne _ _⟩)
    | @entering p c hp hc hcall hanchor htarget =>
      have hself := hmention.resolve_right (inner_ne _ _)
      exact ⟨p, hp, hself, hcall, .inl ⟨c, hc, hanchor, .inl htarget⟩⟩
    | @leaving q c hq hc hcall hanchor hsource =>
      have hself := hmention.resolve_left (inner_ne _ _)
      exact ⟨q, hq, hcall, hself, .inr ⟨c, hc, hanchor, .inl hsource⟩⟩
    | @passing p c q hp hc hq hcall hanchor hcall' hanchor' =>
      rcases hmention with hself | hself
      · have hread : q ∈ parent.outgoing s.callSite := by simp [Document.outgoing, hq, hcall']
        exact ⟨p, hp, hself, hcall, .inl ⟨c, hc, hanchor, .inr ⟨q, hread, hanchor'⟩⟩⟩
      · have hfed : p ∈ parent.incoming s.callSite := by simp [Document.incoming, hp, hcall]
        exact ⟨q, hq, hcall', hself, .inr ⟨c, hc, hanchor', .inr ⟨p, hfed, hanchor⟩⟩⟩
  · rintro ⟨p, hp, hsource, htarget, ⟨c, hc, hin, hinner | ⟨q, hread, hout⟩⟩ |
      ⟨c, hc, hout, hinner | ⟨q, hfed, hin⟩⟩⟩
    · exact ⟨_, .entering hp hc htarget hin hinner, .inl hsource⟩
    · obtain ⟨hq, hcall⟩ := List.mem_filter.1 hread
      exact ⟨_, .passing hp hc hq htarget hin (of_decide_eq_true hcall) hout, .inl hsource⟩
    · exact ⟨_, .leaving hp hc hsource hout hinner, .inr htarget⟩
    · obtain ⟨hq, hcall⟩ := List.mem_filter.1 hfed
      exact ⟨_, .passing hq hc hp (of_decide_eq_true hcall) hin hsource hout, .inr htarget⟩

end Site

end Splice

namespace Document

/-- Of the ends that a splice leaves, the call alone is no node any more. -/
theorem hasNode_splice_iff {parent d result : Document} {callSite : String} {call : Node}
    (hcall : parent.node? callSite = some call) (h : parent.splice callSite d = .ok result)
    (hparent : parent.IdsDistinct) {e : Endpoint}
    (he : (Splice.Site.ofCall call d).Known parent e) :
    result.hasNode e.node ↔ e.node ≠ callSite := by
  obtain ⟨before, after, hnodes, rfl, rfl⟩ := splice_ok hcall h
  have hothers := hparent.ne_of_nodes_eq hnodes
  have hnode {n : Node} : n ∈ before ++ (Splice.Site.ofCall call d).nodes ++ after ↔
      n ∈ before ++ after ∨ n ∈ (Splice.Site.ofCall call d).nodes := by
    simp only [List.mem_append]
    tauto
  rw [hasNode_iff]
  constructor
  · rintro ⟨n, hn, hid⟩ hcallSite
    rw [hcallSite] at hid
    rcases hnode.1 hn with hn | hn
    · exact hothers n hn hid
    · obtain ⟨m, -, rfl⟩ := List.mem_map.1 hn
      exact Splice.inner_ne _ _ hid
  · intro hne
    rcases he with hparentNode | ⟨id, hid, hboundary, heq⟩
    · obtain ⟨n, hn, hid⟩ := hasNode_iff.1 hparentNode
      rw [hnodes, List.mem_append, List.mem_cons] at hn
      rcases hn with hn | rfl | hn
      · exact ⟨n, hnode.2 (.inl (List.mem_append_left _ hn)), hid⟩
      · exact absurd hid.symm hne
      · exact ⟨n, hnode.2 (.inl (List.mem_append_right _ hn)), hid⟩
    · obtain ⟨m, hm, rfl⟩ := hasNode_iff.1 hid
      rw [← Splice.Site.isBoundary_eq] at hboundary
      have hinner : (Splice.Site.ofCall call d).innerNode m ∈ (Splice.Site.ofCall call d).nodes :=
        List.mem_map_of_mem (List.mem_filter.2 ⟨hm, by simp [hboundary]⟩)
      exact ⟨_, hnode.2 (.inr hinner), heq.symm⟩

/-- A splice of well-formed documents leaves a connection that leads nowhere exactly if the call
feeds itself: what such a connection misses is the call, and no other connection mentions the
call. -/
theorem splice_dangling_eq_nil_iff {parent d result : Document} {callSite : String} {call : Node}
    (hcall : parent.node? callSite = some call) (hparent : parent.dangling = [])
    (hparentIds : parent.IdsDistinct) (hd : d.dangling = []) (hids : d.IdsDistinct)
    (h : parent.splice callSite d = .ok result) :
    (result.dangling = [] ↔ ¬(Splice.Site.ofCall call d).FeedsBack parent) ∧
      ((∀ c ∈ result.connections, c.source.node ≠ callSite ∧ c.target.node ≠ callSite) ↔
        ¬(Splice.Site.ofCall call d).FeedsBack parent) ∧
      ∀ x ∈ result.dangling, x.missing = callSite := by
  have hrewired {x : Connection} :
      x ∈ result.connections ↔ (Splice.Site.ofCall call d).Rewired parent x := by
    obtain ⟨before, after, -, -, rfl⟩ := splice_ok hcall h
    exact Splice.Site.mem_connections_iff hids
  obtain ⟨before, after, -, rfl, -⟩ := splice_ok hcall h
  have hends {x : Connection} (hx : x ∈ result.connections) :
      (result.hasNode x.source.node ↔ x.source.node ≠ call.id) ∧
        (result.hasNode x.target.node ↔ x.target.node ≠ call.id) := by
    obtain ⟨hsource, htarget⟩ := (hrewired.1 hx).known hparent hd
    exact ⟨hasNode_splice_iff hcall h hparentIds hsource,
      hasNode_splice_iff hcall h hparentIds htarget⟩
  have hmention : (∀ c ∈ result.connections, c.source.node ≠ call.id ∧ c.target.node ≠ call.id) ↔
      ¬(Splice.Site.ofCall call d).FeedsBack parent := by
    rw [← Splice.Site.exists_rewired_mentions_iff]
    simp only [not_exists, not_and, not_or, hrewired]
    rfl
  refine ⟨?_, hmention, ?_⟩
  · rw [dangling_eq_nil_iff, ← hmention]
    apply forall₂_congr
    intro c hc
    exact and_congr (hends hc).1 (hends hc).2
  · intro x hx
    obtain ⟨hc, hmissing, hend | hend⟩ := mem_dangling_iff.1 hx
    · rw [hend] at hmissing ⊢
      exact not_not.1 fun hne ↦ Bool.eq_false_iff.1 hmissing ((hends hc).1.2 hne)
    · rw [hend] at hmissing ⊢
      exact not_not.1 fun hne ↦ Bool.eq_false_iff.1 hmissing ((hends hc).2.2 hne)

/-- A call whose output anchor is connected to its own input anchor. -/
def loopCall : Node :=
  { Node.call "M" (.named "Clean") with inputAnchors := ["Input"], outputAnchors := ["Output"] }

/-- A workflow around that call. -/
def loopCaller : Document where
  name := "caller"
  path := ⟨"caller.yxmd"⟩
  description := none
  nodes := [.plain "X" .input "x", loopCall, .plain "Y" .output "y"]
  connections :=
    [⟨⟨"X", "Output"⟩, ⟨"M", "Input"⟩⟩, ⟨⟨"M", "Output"⟩, ⟨"M", "Input"⟩⟩,
     ⟨⟨"M", "Output"⟩, ⟨"Y", "Input"⟩⟩]

/-- A macro of one step. -/
def loopMacro : Document where
  name := "Clean"
  path := ⟨"Clean.yxmc"⟩
  description := none
  nodes := [.plain "1" .macroInput "in", .plain "T" .formula "trim", .plain "9" .macroOutput "out"]
  connections := [⟨⟨"1", "Output"⟩, ⟨"T", "Input"⟩⟩, ⟨⟨"T", "Output"⟩, ⟨"9", "Input"⟩⟩]

theorem splice_dangling_loop :
    ∃ result, loopCaller.node? "M" = some loopCall ∧ loopCaller.dangling = [] ∧
      loopCaller.IdsDistinct ∧ loopMacro.dangling = [] ∧ loopMacro.IdsDistinct ∧
      loopCaller.splice "M" loopMacro = .ok result ∧
      ((result.dangling = [] ↔ ¬(Splice.Site.ofCall loopCall loopMacro).FeedsBack loopCaller) ∧
        ((∀ c ∈ result.connections, c.source.node ≠ "M" ∧ c.target.node ≠ "M") ↔
          ¬(Splice.Site.ofCall loopCall loopMacro).FeedsBack loopCaller) ∧
        ∀ x ∈ result.dangling, x.missing = "M") ∧
      result.dangling =
        [⟨⟨⟨"M", "Output"⟩, ⟨"M/T", "Input"⟩⟩, "M"⟩,
         ⟨⟨⟨"M/T", "Output"⟩, ⟨"M", "Input"⟩⟩, "M"⟩] := by
  have hcall : loopCaller.node? "M" = some loopCall := rfl
  have hcaller : loopCaller.IdsDistinct := by
    unfold IdsDistinct
    decide
  have hids : loopMacro.IdsDistinct := by
    unfold IdsDistinct
    decide
  have hsplice : loopCaller.splice "M" loopMacro = .ok _ := rfl
  exact ⟨_, hcall, rfl, hcaller, rfl, hids, hsplice,
    splice_dangling_eq_nil_iff hcall rfl hcaller rfl hids hsplice, by decide +kernel⟩

end Document

end Provenance

import Mathlib.Data.List.Flatten
import Provenance.Proofs.Graph.Translation
import Provenance.Proofs.Splice.Nodes

/-!
# The order of a node's inputs after a splice

What enters an inner node of a macro could be expected to keep its order, each connection from a
boundary input making way for the connections that feed it (`Site.inPlace`). A splice puts the same
connections in another order: first those from inner nodes, and then, one connection of the calling
document after the other, those that it feeds (`Site.arriving`). Both orders agree if none of the
macro's connections stands behind one that arrives later (`Site.KeepsOrder`), and only then unless a
connection is repeated.

The members of a union are numbered in the order of its connections, so that in the graph of the
result they are numbered as they arrive.
-/

open scoped List

namespace Provenance

namespace Splice

/-! ## Collecting in two orders -/

section

variable {α β γ : Type}

/-- Two contributions of each element may be collected apart if no second one stands before a first
one. -/
theorem flatMap_append_of_pairwise {l : List α} {f g : α → List β}
    (h : l.Pairwise (fun a b ↦ g a = [] ∨ f b = [])) :
    l.flatMap (fun a ↦ f a ++ g a) = l.flatMap f ++ l.flatMap g := by
  induction l with
  | nil => rfl
  | cons a rest ih =>
    obtain ⟨hfirst, hrest⟩ := List.pairwise_cons.1 h
    rw [List.flatMap_cons, List.flatMap_cons, List.flatMap_cons, ih hrest]
    by_cases ha : g a = []
    · simp [ha]
    · have hnone : rest.flatMap f = [] :=
        List.flatMap_eq_nil_iff.2 fun b hb ↦ (hfirst b hb).resolve_left ha
      simp [hnone]

theorem filterMap_cons_eq_append (f : α → Option β) (a : α) (l : List α) :
    (a :: l).filterMap f = (f a).toList ++ l.filterMap f := by
  cases h : f a <;> simp [h]

/-- What pairs give may be collected by the first or by the second element, if no two of them that
give something come in opposite orders. -/
theorem flatMap_filterMap_comm_of_pairwise {as : List α} {bs : List β} {f : β → α → Option γ}
    (h : as.Pairwise (fun a a' ↦ bs.Pairwise (fun b b' ↦ f b a' = none ∨ f b' a = none))) :
    as.flatMap (fun a ↦ bs.filterMap (f · a)) = bs.flatMap (fun b ↦ as.filterMap (f b)) := by
  induction as with
  | nil => simp
  | cons a rest ih =>
    obtain ⟨hfirst, hrest⟩ := List.pairwise_cons.1 h
    have happart : bs.Pairwise (fun b b' ↦ rest.filterMap (f b) = [] ∨ (f b' a).toList = []) := by
      apply List.pairwise_iff_forall_sublist.2
      intro b b' hsub
      by_cases hb : f b' a = none
      · simp [hb]
      · refine .inl (List.filterMap_eq_nil_iff.2 fun a' ha' ↦ ?_)
        exact (List.pairwise_iff_forall_sublist.1 (hfirst a' ha') hsub).resolve_right hb
    simp only [filterMap_cons_eq_append, List.flatMap_cons]
    rw [ih hrest, flatMap_append_of_pairwise happart, List.filterMap_eq_flatMap_toList]

theorem flatMap_filterMap_perm (as : List α) (bs : List β) (f : β → α → Option γ) :
    as.flatMap (fun a ↦ bs.filterMap (f · a)) ~ bs.flatMap (fun b ↦ as.filterMap (f b)) := by
  induction as with
  | nil => simp
  | cons a rest ih =>
    simp only [filterMap_cons_eq_append, List.flatMap_cons]
    calc bs.filterMap (f · a) ++ rest.flatMap (fun a ↦ bs.filterMap (f · a))
      _ ~ bs.flatMap (fun b ↦ (f b a).toList) ++ bs.flatMap (fun b ↦ rest.filterMap (f b)) := by
        rw [List.filterMap_eq_flatMap_toList]
        exact ih.append_left _
      _ ~ bs.flatMap (fun b ↦ (f b a).toList ++ rest.filterMap (f b)) :=
        List.flatMap_append_perm ..

theorem not_sublist_swap {l : List α} (h : l.Nodup) {x y : α} (hxy : [x, y] <+ l) :
    ¬[y, x] <+ l := by
  intro hyx
  induction l with
  | nil => cases hxy
  | cons z rest ih =>
    obtain ⟨hz, hrest⟩ := List.nodup_cons.1 h
    rw [List.sublist_cons_iff] at hxy hyx
    grind

theorem pair_sublist_flatMap {l : List α} {f : α → List β} {a a' : α} (h : [a, a'] <+ l) {x y : β}
    (hx : x ∈ f a) (hy : y ∈ f a') : [x, y] <+ l.flatMap f := by
  have hpair : [x, y] <+ f a ++ f a' :=
    (List.singleton_sublist.2 hx).append (List.singleton_sublist.2 hy)
  refine hpair.trans ?_
  simpa using h.flatMap f

end

namespace Site

/-- Whether a connection of the calling document feeds the boundary node that a connection of the
macro comes from. -/
def Supplies (s : Site) (p c : Connection) : Prop :=
  p.target.node = s.callSite ∧ s.inputNode? p.target.anchor = some c.source.node

instance (s : Site) (p c : Connection) : Decidable (s.Supplies p c) :=
  inferInstanceAs (Decidable (_ ∧ _))

/-- A connection of the macro inside the calling document, if it comes from an inner node. -/
def kept (s : Site) (c : Connection) : Option Connection :=
  if s.definition.onBoundary c.source.node = false then
    some ⟨s.placed c.source, s.placed c.target⟩
  else none

/-- What a connection of the macro becomes for one that feeds it. -/
def supplied (s : Site) (p c : Connection) : Option Connection :=
  if s.Supplies p c then some ⟨p.source, s.placed c.target⟩ else none

/-- The connections into an inner node, each replaced in its place: one from an inner node by
itself, and one from a boundary input by what feeds it, in the order of the calling document. -/
def inPlace (s : Site) (parent : Document) (id : String) : List Connection :=
  (s.definition.incoming id).flatMap (fun c ↦
    if s.definition.onBoundary c.source.node = false then
      [⟨s.placed c.source, s.placed c.target⟩]
    else parent.connections.filterMap (s.supplied · c))

/-- The connections into an inner node in the order in which a splice makes them. -/
def arriving (s : Site) (parent : Document) (id : String) : List Connection :=
  (s.definition.incoming id).filterMap s.kept ++
    parent.connections.flatMap (fun p ↦ (s.definition.incoming id).filterMap (s.supplied p))

/-- Nothing that enters an inner node stands behind something that arrives later. -/
structure KeepsOrder (s : Site) (parent : Document) (id : String) : Prop where
  insideFirst : (s.definition.incoming id).Pairwise (fun c c' ↦
    s.definition.onBoundary c'.source.node = false → ∀ p ∈ parent.connections, ¬s.Supplies p c)
  inTurn : (s.definition.incoming id).Pairwise (fun c c' ↦
    parent.connections.Pairwise (fun p p' ↦ ¬(s.Supplies p c' ∧ s.Supplies p' c)))

instance (s : Site) (parent : Document) (id : String) : Decidable (s.KeepsOrder parent id) :=
  decidable_of_iff (_ ∧ _) ⟨fun h ↦ ⟨h.1, h.2⟩, fun h ↦ ⟨h.insideFirst, h.inTurn⟩⟩

/-! ## What arrives -/

section

variable {s : Site} {id : String} (hid : s.definition.onBoundary id = false)

theorem placed_node_eq_iff {s : Site} {e : Endpoint} {id : String} :
    (s.placed e).node = inner s.callSite id ↔ e.node = id :=
  (inner_injective s.callSite).eq_iff

include hid

theorem filter_inside :
    s.inside.filter (fun c ↦ c.target.node = inner s.callSite id) =
      (s.definition.incoming id).filterMap s.kept := by
  rw [inside, Document.incoming, List.filter_filterMap, List.filterMap_filter]
  apply List.filterMap_congr
  intro c _
  by_cases htarget : c.target.node = id
  · by_cases hsource : s.definition.onBoundary c.source.node = false <;>
      simp [kept, htarget, hid, hsource, placed_node_eq_iff]
  · simp [htarget, Option.filter_eq_none_iff, placed_node_eq_iff]

theorem filter_entering (p : Connection) :
    (s.entering p).filter (fun c ↦ c.target.node = inner s.callSite id) =
      (s.definition.incoming id).filterMap (s.supplied p) := by
  have hentering : s.entering p = s.definition.connections.filterMap (fun c ↦
      if s.definition.onBoundary c.target.node = false then s.supplied p c else none) := by
    apply List.filterMap_congr
    intro c _
    by_cases hinner : s.definition.onBoundary c.target.node = false
    · rw [if_pos hinner]
      exact if_congr (by simp [hinner, Supplies]) rfl rfl
    · simp [hinner]
  rw [hentering, Document.incoming, List.filter_filterMap, List.filterMap_filter]
  apply List.filterMap_congr
  intro c _
  by_cases hsupplies : s.Supplies p c
  · by_cases htarget : c.target.node = id
    · simp [supplied, hsupplies, htarget, hid, placed_node_eq_iff]
    · by_cases hinner : s.definition.onBoundary c.target.node = false <;>
        simp [supplied, hsupplies, htarget, hinner, placed_node_eq_iff]
  · simp [supplied, hsupplies]

/-- A connection of the calling document brings the same to a node whether or not it is left as it
is, if it does not lead to that node itself. -/
theorem filter_rewire {parent : Document} (h : s.definition.IdsDistinct)
    (hnew : ∀ p ∈ parent.connections, p.target.node ≠ inner s.callSite id) {p : Connection}
    (hp : p ∈ parent.connections) :
    (s.rewire parent p).filter (fun c ↦ c.target.node = inner s.callSite id) =
      (s.definition.incoming id).filterMap (s.supplied p) := by
  have hself : (if p.source.node ≠ s.callSite && p.target.node ≠ s.callSite then [p] else []).filter
      (fun c ↦ c.target.node = inner s.callSite id) = [] := by
    split <;> simp [hnew p hp]
  have hleaving : (s.leaving p).filter (fun c ↦ c.target.node = inner s.callSite id) = [] := by
    apply List.filter_eq_nil_iff.2
    intro x hx
    obtain ⟨c, -, hc⟩ := List.mem_filterMap.1 hx
    split at hc
    · obtain rfl := Option.some.inj hc
      simpa using hnew p hp
    · cases hc
  have hpassing : (s.passing parent p).filter
      (fun c ↦ c.target.node = inner s.callSite id) = [] := by
    apply List.filter_eq_nil_iff.2
    intro x hx
    obtain ⟨c, -, hc⟩ := List.mem_flatMap.1 hx
    obtain ⟨q, -, hq⟩ := List.mem_filterMap.1 hc
    split at hq
    · obtain rfl := Option.some.inj hq
      simpa using hnew p hp
    · cases hq
  rw [rewire_eq h, List.filter_append, List.filter_append, List.filter_append, hself, hleaving,
    hpassing, filter_entering hid, List.nil_append, List.append_nil, List.append_nil]

/-- What enters an inner node after a splice, if the calling document did not know its
identifier. -/
theorem incoming_connections {parent : Document} (h : s.definition.IdsDistinct)
    (hnew : ∀ p ∈ parent.connections, p.target.node ≠ inner s.callSite id) :
    (s.connections parent).filter (fun c ↦ c.target.node = inner s.callSite id) =
      s.arriving parent id := by
  have hbefore : ∀ p ∈ parent.connections.takeWhile (fun p ↦ !s.touches p),
      (s.definition.incoming id).filterMap (s.supplied p) = [] := by
    intro p hp
    have htouches : s.touches p = false := by simpa using List.mem_takeWhile_imp hp
    simp only [touches, Bool.or_eq_false_iff, decide_eq_false_iff_not] at htouches
    simp [supplied, Supplies, htouches.1]
  have hskipped : (parent.connections.takeWhile (fun p ↦ !s.touches p)).filter
      (fun c ↦ c.target.node = inner s.callSite id) = [] := by
    apply List.filter_eq_nil_iff.2
    intro p hp
    simpa using hnew p ((List.takeWhile_sublist _).subset hp)
  have hrest : ((parent.connections.dropWhile (fun p ↦ !s.touches p)).flatMap
        (s.rewire parent)).filter (fun c ↦ c.target.node = inner s.callSite id) =
      (parent.connections.dropWhile (fun p ↦ !s.touches p)).flatMap
        (fun p ↦ (s.definition.incoming id).filterMap (s.supplied p)) := by
    rw [List.filter_flatMap]
    apply List.flatMap_congr
    intro p hp
    exact filter_rewire hid h hnew ((List.dropWhile_sublist _).subset hp)
  calc (s.connections parent).filter (fun c ↦ c.target.node = inner s.callSite id)
    _ = (s.definition.incoming id).filterMap s.kept ++
          (parent.connections.dropWhile (fun p ↦ !s.touches p)).flatMap
            (fun p ↦ (s.definition.incoming id).filterMap (s.supplied p)) := by
        rw [connections, List.filter_append, List.filter_append, hskipped, hrest,
          internal_eq_inside, filter_inside hid, List.nil_append]
    _ = (s.definition.incoming id).filterMap s.kept ++
          (parent.connections.takeWhile (fun p ↦ !s.touches p) ++
            parent.connections.dropWhile (fun p ↦ !s.touches p)).flatMap
            (fun p ↦ (s.definition.incoming id).filterMap (s.supplied p)) := by
        rw [List.flatMap_append, List.flatMap_eq_nil_iff.2 hbefore, List.nil_append]
    _ = s.arriving parent id := by rw [List.takeWhile_append_dropWhile, arriving]

end

/-! ## In place or not -/

section

variable {s : Site} (h : s.definition.IdsDistinct) (parent : Document) (id : String)

include h

theorem Supplies.onBoundary {p c : Connection} (hsupplies : s.Supplies p c) :
    s.definition.onBoundary c.source.node = true := by
  obtain ⟨i, -, hi⟩ := (inputNode?_eq_some_iff h).1 hsupplies.2
  rw [← isBoundary_eq, isBoundary, hi]
  rfl

theorem inPlace_eq :
    s.inPlace parent id = (s.definition.incoming id).flatMap (fun c ↦
      (s.kept c).toList ++ parent.connections.filterMap (s.supplied · c)) := by
  apply List.flatMap_congr
  intro c _
  by_cases hsource : s.definition.onBoundary c.source.node = false
  · have hnone : parent.connections.filterMap (s.supplied · c) = [] := by
      apply List.filterMap_eq_nil_iff.2
      intro p _
      refine if_neg fun hsupplies ↦ ?_
      rw [hsupplies.onBoundary h] at hsource
      cases hsource
    simp [kept, hsource, hnone]
  · simp [kept, hsource]

/-- What arrives is what is replaced in place, in some order. -/
theorem arriving_perm_inPlace : s.arriving parent id ~ s.inPlace parent id := by
  rw [inPlace_eq h, arriving, List.filterMap_eq_flatMap_toList]
  calc (s.definition.incoming id).flatMap (fun c ↦ (s.kept c).toList) ++
        parent.connections.flatMap (fun p ↦ (s.definition.incoming id).filterMap (s.supplied p))
    _ ~ (s.definition.incoming id).flatMap (fun c ↦ (s.kept c).toList) ++
        (s.definition.incoming id).flatMap (fun c ↦
          parent.connections.filterMap (s.supplied · c)) :=
      (flatMap_filterMap_perm _ _ s.supplied).symm.append_left _
    _ ~ (s.definition.incoming id).flatMap (fun c ↦
          (s.kept c).toList ++ parent.connections.filterMap (s.supplied · c)) :=
      List.flatMap_append_perm ..

variable {parent id}

/-- Where nothing stands behind something that arrives later, the order is kept. -/
theorem KeepsOrder.arriving_eq (hkeeps : s.KeepsOrder parent id) :
    s.arriving parent id = s.inPlace parent id := by
  have hinside : (s.definition.incoming id).Pairwise (fun c c' ↦
      parent.connections.filterMap (s.supplied · c) = [] ∨ (s.kept c').toList = []) := by
    refine hkeeps.insideFirst.imp fun {c c'} hfirst ↦ ?_
    by_cases hsource : s.definition.onBoundary c'.source.node = false
    · exact .inl (List.filterMap_eq_nil_iff.2 fun p hp ↦ if_neg (hfirst hsource p hp))
    · exact .inr (by simp [kept, hsource])
  have hturn : (s.definition.incoming id).Pairwise (fun c c' ↦ parent.connections.Pairwise
      (fun p p' ↦ s.supplied p c' = none ∨ s.supplied p' c = none)) := by
    refine hkeeps.inTurn.imp fun {c c'} hturn ↦ hturn.imp fun {p p'} hnot ↦ ?_
    exact (not_and_or.1 hnot).imp (if_neg ·) (if_neg ·)
  rw [inPlace_eq h, flatMap_append_of_pairwise hinside, flatMap_filterMap_comm_of_pairwise hturn,
    arriving, List.filterMap_eq_flatMap_toList]

/-- If no connection is repeated, the order is kept only where nothing stands behind something that
arrives later. -/
theorem keepsOrder_of_arriving_eq (hnodup : (s.arriving parent id).Nodup)
    (heq : s.arriving parent id = s.inPlace parent id) : s.KeepsOrder parent id := by
  have hsupplied {p c : Connection} (hp : p ∈ parent.connections) (hsupplies : s.Supplies p c) :
      (⟨p.source, s.placed c.target⟩ : Connection) ∈
        (s.kept c).toList ++ parent.connections.filterMap (s.supplied · c) :=
    List.mem_append_right _ (List.mem_filterMap.2 ⟨p, hp, if_pos hsupplies⟩)
  -- Two connections that arrive in the other order would both come first.
  have hswap {c c' x y : Connection} (hsub : [c, c'] <+ s.definition.incoming id)
      (hx : x ∈ (s.kept c).toList ++ parent.connections.filterMap (s.supplied · c))
      (hy : y ∈ (s.kept c').toList ++ parent.connections.filterMap (s.supplied · c'))
      (hyx : [y, x] <+ s.arriving parent id) : False := by
    have hxy : [x, y] <+ s.inPlace parent id := by
      rw [inPlace_eq h]
      exact pair_sublist_flatMap hsub hx hy
    rw [← heq] at hxy
    exact not_sublist_swap hnodup hxy hyx
  constructor
  · apply List.pairwise_iff_forall_sublist.2
    intro c c' hsub hsource p hp hsupplies
    have hc : c ∈ s.definition.incoming id := hsub.subset (by simp)
    have hc' : c' ∈ s.definition.incoming id := hsub.subset (by simp)
    have hkept : s.kept c' =
        some ⟨s.placed c'.source, s.placed c'.target⟩ := if_pos hsource
    refine hswap hsub (hsupplied hp hsupplies)
      (List.mem_append_left _ (Option.mem_toList.2 hkept)) ?_
    have hfirst : [_] <+ (s.definition.incoming id).filterMap s.kept :=
      List.singleton_sublist.2 (List.mem_filterMap.2 ⟨c', hc', hkept⟩)
    have hsecond : [_] <+ parent.connections.flatMap
        (fun p ↦ (s.definition.incoming id).filterMap (s.supplied p)) :=
      List.singleton_sublist.2 (List.mem_flatMap.2
        ⟨p, hp, List.mem_filterMap.2 ⟨c, hc, if_pos hsupplies⟩⟩)
    exact hfirst.append hsecond
  · apply List.pairwise_iff_forall_sublist.2
    intro c c' hsub
    apply List.pairwise_iff_forall_sublist.2
    rintro p p' hsub' ⟨hsupplies, hsupplies'⟩
    have hc : c ∈ s.definition.incoming id := hsub.subset (by simp)
    have hc' : c' ∈ s.definition.incoming id := hsub.subset (by simp)
    have hp : p ∈ parent.connections := hsub'.subset (by simp)
    have hp' : p' ∈ parent.connections := hsub'.subset (by simp)
    refine hswap hsub (hsupplied hp' hsupplies') (hsupplied hp hsupplies) ?_
    refine List.Sublist.trans ?_ (List.sublist_append_right ..)
    exact pair_sublist_flatMap hsub' (List.mem_filterMap.2 ⟨c', hc', if_pos hsupplies⟩)
      (List.mem_filterMap.2 ⟨c, hc, if_pos hsupplies'⟩)

end

end Site

end Splice

/-- The connection that an edge stands for. -/
def Edge.connection (e : Edge) : Connection :=
  ⟨⟨e.source, e.sourceAnchor⟩, ⟨e.target, e.targetAnchor⟩⟩

namespace Document

theorem connection_edgesAfter (d : Document) (before connections : List Connection) :
    (d.edgesAfter before connections).map Edge.connection = connections := by
  induction connections generalizing before with
  | nil => rfl
  | cons c rest ih =>
    rw [edgesAfter, List.map_cons, ih]
    rfl

/-- The edges into a node of a document's graph are its connections, in their order. -/
theorem incoming_graph {d : Document} {g : Graph} (h : d.graph = .ok g) (id : String) :
    (g.edges.filter (fun e ↦ e.target = id)).map Edge.connection = d.incoming id := by
  obtain ⟨hvalid, rfl⟩ := valid_of_graph_eq_ok h
  obtain ⟨-, -, hedges⟩ := indexed_flow hvalid.distinct
  have hmap : d.flow.edges.map Edge.connection = d.connections := by
    rw [hedges, connection_edgesAfter]
  rw [incoming, ← hmap, List.filter_map]
  rfl

/-- What enters an inner node of a macro after a splice, if its identifier was not in use before:
first what comes from inner nodes, and then what the calling document feeds, connection by
connection. These are the connections that replacement in place would give, and in the same order
where nothing stands behind something that arrives later; only there, if none of them is repeated.
In the graph of the result the members of a union are numbered as they arrive. -/
theorem splice_incoming {parent d result : Document} {callSite : String} {call n : Node}
    (hcall : parent.node? callSite = some call) (hids : d.IdsDistinct)
    (h : parent.splice callSite d = .ok result) (hn : n ∈ d.nodes) (hinner : n.isBoundary = false)
    (hnew : ∀ p ∈ parent.connections, p.target.node ≠ Splice.inner callSite n.id) :
    let site := Splice.Site.ofCall call d
    result.incoming (Splice.inner callSite n.id) = site.arriving parent n.id ∧
      site.arriving parent n.id ~ site.inPlace parent n.id ∧
      (site.KeepsOrder parent n.id → site.arriving parent n.id = site.inPlace parent n.id) ∧
      ((site.arriving parent n.id).Nodup →
        site.arriving parent n.id = site.inPlace parent n.id → site.KeepsOrder parent n.id) ∧
      ∀ g, result.graph = .ok g → n.category = .union →
        (g.edges.filter (fun e ↦ e.target = Splice.inner callSite n.id)).map Edge.connection =
            site.arriving parent n.id ∧
          (g.edges.filter (fun e ↦ e.target = Splice.inner callSite n.id)).map Edge.role =
            (List.range (site.arriving parent n.id).length).map .unionMember := by
  intro site
  have hid : d.onBoundary n.id = false := hids.onBoundary_eq_false hn hinner
  obtain ⟨before, after, -, rfl, hresult⟩ := splice_ok hcall h
  have hincoming : result.incoming (Splice.inner call.id n.id) = site.arriving parent n.id := by
    rw [hresult]
    exact Splice.Site.incoming_connections (s := site) hid hids hnew
  refine ⟨hincoming, Splice.Site.arriving_perm_inPlace hids parent n.id, ?_, ?_,
    fun g hg hunion ↦ ?_⟩
  · exact fun hkeeps ↦ hkeeps.arriving_eq hids
  · exact Splice.Site.keepsOrder_of_arriving_eq hids
  · have hmem : n.copyTo call.id d.name ∈ result.nodes := by
      rw [hresult]
      exact List.mem_append_left _
        (List.mem_append_right _ (Splice.Site.copyTo_mem_nodes (s := site) hn hid))
    have hshown : result.ShownBy g := by
      obtain ⟨hvalid, rfl⟩ := valid_of_graph_eq_ok hg
      exact shownBy_flow hvalid.distinct (dangling_eq_nil_iff.1 hvalid.linked)
    rw [incoming_graph hg, ← hincoming]
    exact ⟨rfl, hshown.members _ hmem hunion⟩

/-! ## Unions in macros -/

/-- A call of a macro with one input anchor. -/
def unionCall : Node :=
  { Node.call "M" (.named "Stack") with inputAnchors := ["Input"] }

/-- A workflow that feeds the call twice. -/
def unionCaller : Document where
  name := "caller"
  path := ⟨"caller.yxmd"⟩
  description := none
  nodes := [.plain "X" .input "x", .plain "Y" .input "y", unionCall]
  connections := [⟨⟨"X", "Output"⟩, ⟨"M", "Input"⟩⟩, ⟨⟨"Y", "Output"⟩, ⟨"M", "Input"⟩⟩]

/-- A macro that puts its input before a table of its own. -/
def unionMacro : Document where
  name := "Stack"
  path := ⟨"Stack.yxmc"⟩
  description := none
  nodes :=
    [.plain "1" .macroInput "in", .plain "T" .input "table", .plain "U" .union "union"]
  connections := [⟨⟨"1", "Output"⟩, ⟨"U", "Input"⟩⟩, ⟨⟨"T", "Output"⟩, ⟨"U", "Input"⟩⟩]

theorem splice_incoming_union :
    ∃ result, unionCaller.node? "M" = some unionCall ∧ unionMacro.IdsDistinct ∧
      unionCaller.splice "M" unionMacro = .ok result ∧
      Node.plain "U" .union "union" ∈ unionMacro.nodes ∧
      (Node.plain "U" .union "union").isBoundary = false ∧
      (∀ p ∈ unionCaller.connections, p.target.node ≠ Splice.inner "M" "U") ∧
      (result.incoming (Splice.inner "M" "U") =
          (Splice.Site.ofCall unionCall unionMacro).arriving unionCaller "U" ∧
        (Splice.Site.ofCall unionCall unionMacro).arriving unionCaller "U" ~
          (Splice.Site.ofCall unionCall unionMacro).inPlace unionCaller "U" ∧
        ((Splice.Site.ofCall unionCall unionMacro).KeepsOrder unionCaller "U" →
          (Splice.Site.ofCall unionCall unionMacro).arriving unionCaller "U" =
            (Splice.Site.ofCall unionCall unionMacro).inPlace unionCaller "U") ∧
        (((Splice.Site.ofCall unionCall unionMacro).arriving unionCaller "U").Nodup →
          (Splice.Site.ofCall unionCall unionMacro).arriving unionCaller "U" =
            (Splice.Site.ofCall unionCall unionMacro).inPlace unionCaller "U" →
          (Splice.Site.ofCall unionCall unionMacro).KeepsOrder unionCaller "U") ∧
        ∀ g, result.graph = .ok g → Category.union = .union →
          (g.edges.filter (fun e ↦ e.target = Splice.inner "M" "U")).map Edge.connection =
              (Splice.Site.ofCall unionCall unionMacro).arriving unionCaller "U" ∧
            (g.edges.filter (fun e ↦ e.target = Splice.inner "M" "U")).map Edge.role =
              (List.range ((Splice.Site.ofCall unionCall unionMacro).arriving
                unionCaller "U").length).map .unionMember) ∧
      ¬(Splice.Site.ofCall unionCall unionMacro).KeepsOrder unionCaller "U" ∧
      result.graph.toOption.map (fun g ↦ g.edges.map (fun e ↦ (e.source, e.role))) =
        some [("M/T", .unionMember 0), ("X", .unionMember 1), ("Y", .unionMember 2)] := by
  have hcall : unionCaller.node? "M" = some unionCall := rfl
  have hids : unionMacro.IdsDistinct := by
    unfold IdsDistinct
    decide
  have hsplice : unionCaller.splice "M" unionMacro = .ok _ := rfl
  have hn : Node.plain "U" .union "union" ∈ unionMacro.nodes :=
    List.mem_cons_of_mem _ (List.mem_cons_of_mem _ (List.mem_singleton_self _))
  have hnew : ∀ p ∈ unionCaller.connections, p.target.node ≠ Splice.inner "M" "U" := by
    decide
  exact ⟨_, hcall, hids, hsplice, hn, rfl, hnew,
    splice_incoming hcall hids hsplice hn rfl hnew, by decide, by decide +kernel⟩

/-- The same macro with a connection out of its output, along which no data flow. -/
def strayMacro : Document :=
  { unionMacro with
    nodes := unionMacro.nodes ++ [.plain "9" .macroOutput "out"]
    connections := [⟨⟨"9", "Output"⟩, ⟨"U", "Input"⟩⟩, ⟨⟨"T", "Output"⟩, ⟨"U", "Input"⟩⟩] }

/-- A call of it. -/
def strayCall : Node :=
  { Node.call "M" (.named "Stack") with inputAnchors := ["Input"], outputAnchors := ["Output"] }

/-- A workflow with that call, and with a node of the name that the union gets. -/
def strayCaller : Document :=
  { unionCaller with
    nodes := [.plain "X" .input "x", strayCall, .plain "M/U" .output "y"]
    connections := [⟨⟨"X", "Output"⟩, ⟨"M", "Input"⟩⟩, ⟨⟨"X", "Output"⟩, ⟨"M/U", "Input"⟩⟩,
      ⟨⟨"M", "Output"⟩, ⟨"M/U", "Input"⟩⟩] }

/-- The order is not kept where a connection from inside stands behind one from the boundary. What
comes out of a boundary output does not arrive, and what the calling document itself brings to the
identifier does. -/
theorem splice_incoming_misplaced :
    (∃ result, unionMacro.IdsDistinct ∧ unionMacro.dangling = [] ∧
      (∀ p ∈ unionCaller.connections, ¬(p.source.node = "M" ∧ p.target.node = "M")) ∧
      unionCaller.splice "M" unionMacro = .ok result ∧
      (Splice.Site.ofCall unionCall unionMacro).inPlace unionCaller "U" =
        [⟨⟨"X", "Output"⟩, ⟨"M/U", "Input"⟩⟩, ⟨⟨"Y", "Output"⟩, ⟨"M/U", "Input"⟩⟩,
         ⟨⟨"M/T", "Output"⟩, ⟨"M/U", "Input"⟩⟩] ∧
      result.incoming "M/U" =
        [⟨⟨"M/T", "Output"⟩, ⟨"M/U", "Input"⟩⟩, ⟨⟨"X", "Output"⟩, ⟨"M/U", "Input"⟩⟩,
         ⟨⟨"Y", "Output"⟩, ⟨"M/U", "Input"⟩⟩]) ∧
    ∃ result, strayMacro.IdsDistinct ∧ strayMacro.dangling = [] ∧
      (∀ p ∈ strayCaller.connections, ¬(p.source.node = "M" ∧ p.target.node = "M")) ∧
      strayCaller.splice "M" strayMacro = .ok result ∧
      strayMacro.incoming "U" =
        [⟨⟨"9", "Output"⟩, ⟨"U", "Input"⟩⟩, ⟨⟨"T", "Output"⟩, ⟨"U", "Input"⟩⟩] ∧
      result.incoming "M/U" =
        [⟨⟨"M/T", "Output"⟩, ⟨"M/U", "Input"⟩⟩, ⟨⟨"X", "Output"⟩, ⟨"M/U", "Input"⟩⟩] := by
  refine ⟨⟨_, ?_, rfl, by decide, rfl, by decide, by decide⟩,
    ⟨_, ?_, rfl, by decide, rfl, by decide, by decide⟩⟩ <;>
  · unfold IdsDistinct
    decide

end Document

end Provenance

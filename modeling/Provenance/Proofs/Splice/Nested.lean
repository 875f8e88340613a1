import Provenance.Document.Anchors
import Provenance.Proofs.Expansion.Settled
import Provenance.Proofs.Splice.Ends
import Provenance.Proofs.Splice.Nodes

/-!
# Nested splices

A call inside a macro may be replaced before the macro takes the place of its own call, or
afterwards, where it is a call of the outermost document (`Site.within`). Both ways give the same
nodes and, in some order, the same connections (`splice_nested`): an end of the innermost macro
stands for ends of the macro around it, and each of these stands for ends of the outermost document,
so that the substitutions compose (`ends_within`).

The identifier that the inner call gets must not be in use. A connection of the outermost document
that leads to it, and so leads nowhere, is taken for one of that call if the call is replaced last
(`splice_nested_stray`).
-/

open scoped List

namespace Provenance

namespace Splice

theorem inner_inner (callSite id id' : String) :
    inner callSite (inner id id') = inner (inner callSite id) id' := by
  simp only [inner, String.append_assoc]

namespace Site

/-- A call inside a macro, where the macro has taken the place of its own call. -/
def within (s t : Site) : Site :=
  { t with callSite := inner s.callSite t.callSite }

/-- A call of a macro whose own calls may have been replaced. -/
def withMacro (s : Site) (d : Document) : Site :=
  { s with definition := d }

section

variable {s t : Site} {side : Side} {cs : Multiset Connection}
  (hnew : ∀ c ∈ cs, c.source.node ≠ (s.within t).callSite ∧ c.target.node ≠ (s.within t).callSite)
  (hcall : s.definition.onBoundary t.callSite = false)

include hnew

theorem near_far_ne (side : Side) {c : Connection} (hc : c ∈ cs) :
    (side.near c).node ≠ (s.within t).callSite ∧ (side.far c).node ≠ (s.within t).callSite := by
  cases side with
  | input => exact (hnew c hc).symm
  | output => exact hnew c hc

/-- Only the ends at the inner call stand for ends at the call that it becomes. -/
theorem node_ne_of_mem_ends {e x : Endpoint} (he : e.node ≠ t.callSite)
    (hx : x ∈ s.ends side cs e) : x.node ≠ (s.within t).callSite := by
  obtain rfl | ⟨c, hc, -, rfl⟩ := mem_ends hx
  · exact fun heq ↦ he (inner_injective s.callSite heq)
  · exact (near_far_ne hnew side hc).2

theorem apart_within_apart : (s.within t).apart (s.apart cs) = s.apart cs := by
  apply Multiset.filter_eq_self.2
  intro c hc
  exact hnew c (Multiset.mem_of_le (Multiset.filter_le _ _) hc)

theorem across_within_apart (e : Endpoint) : (s.within t).across side (s.apart cs) e = 0 := by
  apply (Multiset.bind_congr fun c hc ↦ if_neg fun hmeets ↦ ?_).trans (Multiset.bind_zero _)
  have hmem : c ∈ cs := Multiset.mem_of_le (Multiset.filter_le _ _) hc
  exact (near_far_ne hnew side hmem).1 hmeets.1

include hcall

theorem filter_ends_within (e : Endpoint) :
    (s.ends side cs e).filter (fun x ↦ x.node ≠ (s.within t).callSite) =
      if e.node ≠ t.callSite then s.ends side cs e else 0 := by
  by_cases he : e.node = t.callSite
  · rw [ends_of_inner (he ▸ hcall), if_neg (not_not.2 he), Multiset.filter_eq_nil]
    intro x hx
    rw [Multiset.mem_singleton.1 hx, innerEnd, he]
    exact not_not.2 rfl
  · rw [if_pos he, Multiset.filter_eq_self]
    exact fun x hx ↦ node_ne_of_mem_ends hnew he hx

/-- What the inner call was connected to in the macro, it is connected to afterwards. -/
theorem bind_ends_within (n e : Endpoint) (new : Multiset Endpoint) :
    (s.ends side.other cs n).bind (fun x ↦ if (s.within t).Meets side x e then new else 0) =
      if t.Meets side n e then new else 0 := by
  by_cases hn : n.node = t.callSite
  · have hmeets : (s.within t).Meets side (innerEnd s.callSite n) e ↔ t.Meets side n e := by
      apply and_congr (inner_injective s.callSite).eq_iff
      cases side <;> rfl
    rw [ends_of_inner (hn ▸ hcall), Multiset.singleton_bind]
    exact if_congr hmeets rfl rfl
  · rw [if_neg (fun hmeets ↦ hn hmeets.1)]
    apply (Multiset.bind_congr fun x hx ↦ if_neg fun hmeets ↦ ?_).trans (Multiset.bind_zero _)
    exact node_ne_of_mem_ends hnew hn hx hmeets.1

theorem apart_within_substituted : (s.within t).apart (s.substituted cs) =
    s.apart cs + (t.apart s.definition.connections).bind (s.paths cs) := by
  rw [apart_substituted, apart_within_apart hnew, apart, apart, Multiset.bind_filter]
  congr 1
  apply Multiset.bind_congr
  intro c _
  rw [apart_paths, filter_ends_within hnew hcall, filter_ends_within hnew hcall]
  by_cases hsource : c.source.node = t.callSite <;>
    by_cases htarget : c.target.node = t.callSite <;> simp [hsource, htarget, paths]

/-- What an end of the innermost macro stands for: for what the ends stand for that it stands for in
the macro around it. -/
theorem ends_within (hinner : ∀ id, s.definition.onBoundary (inner t.callSite id) = false)
    (e : Endpoint) :
    (s.within t).ends side (s.substituted cs) e =
      (t.ends side s.definition.connections e).bind (s.ends side cs) := by
  have hplace : (s.within t).place e = (t.place e).bind (s.ends side cs) := by
    have hwithin : (s.within t).place e =
        if t.definition.onBoundary e.node = false then
          {innerEnd s.callSite (innerEnd t.callSite e)} else 0 := by
      simp only [innerEnd, inner_inner]
      rfl
    have hends : s.ends side cs (innerEnd t.callSite e) =
        {innerEnd s.callSite (innerEnd t.callSite e)} := ends_of_inner (hinner e.node)
    rw [hwithin, place]
    split
    · rw [Multiset.singleton_bind, hends]
    · rfl
  rw [ends, ends, Multiset.add_bind, hplace, across_substituted, across_within_apart hnew,
    zero_add]
  congr 1
  rw [across, Multiset.bind_assoc]
  apply Multiset.bind_congr
  intro c _
  rw [bind_ends_within hnew hcall]
  by_cases hmeets : t.Meets side (side.near c) e <;> simp [hmeets]

/-- Replacing the inner call first or last gives the same connections. -/
theorem substituted_within (hinner : ∀ id, s.definition.onBoundary (inner t.callSite id) = false)
    {d : Document} (hd : (d.connections : Multiset Connection) =
      t.substituted s.definition.connections)
    (hpaths : (s.withMacro d).paths cs = s.paths cs) :
    (s.withMacro d).substituted cs = (s.within t).substituted (s.substituted cs) := by
  have hends (side : Side) (e : Endpoint) : (s.within t).ends side (s.substituted cs) e =
      (t.ends side s.definition.connections e).bind (s.ends side cs) :=
    ends_within hnew hcall hinner e
  calc (s.withMacro d).substituted cs
    _ = s.apart cs + (t.substituted s.definition.connections).bind (s.paths cs) := by
        rw [substituted, hpaths, withMacro, hd]
        rfl
    _ = s.apart cs + (t.apart s.definition.connections).bind (s.paths cs) +
          (t.definition.connections : Multiset Connection).bind (fun c ↦
            (t.paths s.definition.connections c).bind (s.paths cs)) := by
        rw [substituted, Multiset.add_bind, Multiset.bind_assoc, add_assoc]
    _ = (s.within t).apart (s.substituted cs) +
          (t.definition.connections : Multiset Connection).bind
            ((s.within t).paths (s.substituted cs)) := by
        rw [apart_within_substituted hnew hcall]
        congr 1
        apply Multiset.bind_congr
        intro c _
        rw [paths, paths, hends, hends]
        exact links_bind_links ..

end

/-! ## A macro without the call inside -/

section

variable {s : Site} {d : Document} (hinputs : d.boundaryInputs = s.definition.boundaryInputs)
  (houtputs : d.boundaryOutputs = s.definition.boundaryOutputs)

include hinputs houtputs

theorem onBoundary_withMacro (id : String) : d.onBoundary id = s.definition.onBoundary id := by
  have hboundary : (s.withMacro d).isBoundary id = s.isBoundary id := by
    simp only [isBoundary, inputOf?, outputOf?, withMacro, hinputs, houtputs]
  rwa [isBoundary_eq, isBoundary_eq] at hboundary

/-- Only the boundary of a macro decides what its ends stand for. -/
theorem ends_withMacro (side : Side) (cs : Multiset Connection) (e : Endpoint) :
    (s.withMacro d).ends side cs e = s.ends side cs e := by
  have hmeets (n : Endpoint) : (s.withMacro d).Meets side n e ↔ s.Meets side n e := by
    cases side with
    | input => simp only [Meets, boundaryNode?, inputNode?, withMacro, hinputs]
    | output => simp only [Meets, boundaryNode?, outputNode?, withMacro, houtputs]
  have hplace : (s.withMacro d).place e = s.place e :=
    if_congr (by rw [withMacro, onBoundary_withMacro hinputs houtputs]) rfl rfl
  rw [ends, ends, hplace, across, across]
  congr 1
  exact Multiset.bind_congr fun c _ ↦ if_congr (hmeets _) rfl rfl

theorem paths_withMacro (cs : Multiset Connection) : (s.withMacro d).paths cs = s.paths cs := by
  funext c
  rw [paths, paths, ends_withMacro hinputs houtputs, ends_withMacro hinputs houtputs]

end

theorem isBoundary_of_mem_nodes {s : Site} {n : Node} (hn : n ∈ s.nodes) :
    n.isBoundary = false := by
  rw [nodes_eq] at hn
  obtain ⟨k, hk, rfl⟩ := List.mem_map.1 hn
  obtain ⟨hmem, hinner⟩ := List.mem_filter.1 hk
  apply Bool.eq_false_iff.2
  intro hboundary
  rw [Document.onBoundary_iff.2 ⟨k, hmem, hboundary, rfl⟩] at hinner
  cases hinner

end Site

end Splice

namespace Node

/-- What is copied twice is copied into the inner place. -/
theorem copyTo_copyTo (callSite callSite' name name' : String) (n : Node) :
    (n.copyTo callSite' name').copyTo callSite name =
      n.copyTo (Splice.inner callSite callSite') name' := by
  have horigin : name' ++ "#" ++ n.id ≠ "" := by
    intro h
    have hlength := congrArg String.length h
    have hsep : "#".length = 1 := rfl
    have hempty : "".length = 0 := rfl
    simp only [String.length_append] at hlength
    omega
  have hcontainer : (n.containerId.map (fun c ↦ callSite' ++ "/" ++ c)).map
      (fun c ↦ callSite ++ "/" ++ c) =
      n.containerId.map (fun c ↦ Splice.inner callSite callSite' ++ "/" ++ c) := by
    rw [Option.map_map]
    congr 1
    funext c
    exact Splice.inner_inner callSite callSite' c
  unfold copyTo
  rw [hcontainer, ← Splice.inner, ← Splice.inner, ← Splice.inner, Splice.inner_inner]
  by_cases h : n.origin = "" <;> simp [h, horigin]

/-- A filter does not see that nodes take the place of a node if it lets neither pass. -/
theorem filter_flatMap_replaceBy {p : Node → Bool} {id : String} {new ns : List Node}
    (hnew : ∀ n ∈ new, p n = false) (hns : ∀ n ∈ ns, n.id = id → p n = false) :
    (ns.flatMap (replaceBy id new)).filter p = ns.filter p := by
  have hnone : new.filter p = [] := List.filter_eq_nil_iff.2 fun n hn ↦ by simp [hnew n hn]
  induction ns with
  | nil => rfl
  | cons n rest ih =>
    have hrest := ih fun m hm ↦ hns m (List.mem_cons_of_mem n hm)
    rw [List.flatMap_cons, List.filter_append, hrest]
    by_cases hid : n.id = id
    · rw [replaceBy, if_pos hid, hnone, List.nil_append,
        List.filter_cons_of_neg (by simp [hns n (List.mem_cons_self ..) hid])]
    · rw [replaceBy, if_neg hid, ← List.filter_append, List.singleton_append]

/-- Some nodes and those that take the place of one may be copied together or apart. -/
theorem map_filter_flatMap_replaceBy {p : Node → Bool} {f : Node → Node} {id id' : String}
    {new ns : List Node} (hnew : ∀ n ∈ new, p n = true) (hid : ∀ n, (f n).id = id' ↔ n.id = id)
    (hns : ∀ n : Node, n.id = id → p n = true) :
    ((ns.flatMap (replaceBy id new)).filter p).map f =
      ((ns.filter p).map f).flatMap (replaceBy id' (new.map f)) := by
  induction ns with
  | nil => rfl
  | cons n rest ih =>
    rw [List.flatMap_cons, List.filter_append, List.map_append, ih]
    by_cases heq : n.id = id
    · rw [List.filter_cons_of_pos (hns n heq), List.map_cons, List.flatMap_cons, replaceBy,
        if_pos heq, List.filter_eq_self.2 hnew, replaceBy, if_pos ((hid n).2 heq)]
    · rw [replaceBy, if_neg heq]
      by_cases hp : p n = true
      · rw [List.filter_cons_of_pos hp, List.filter_cons_of_pos hp, List.filter_nil, List.map_cons,
          List.map_cons, List.flatMap_cons, replaceBy, if_neg (mt (hid n).1 heq), List.map_nil]
      · rw [List.filter_cons_of_neg hp, List.filter_cons_of_neg hp]
        rfl

/-- To replace one of the nodes that take the place of another is to let other nodes take it. -/
theorem flatMap_replaceBy_flatMap {ns new new' : List Node} {id id' : String}
    (hns : ∀ n ∈ ns, n.id ≠ id') :
    (ns.flatMap (replaceBy id new)).flatMap (replaceBy id' new') =
      ns.flatMap (replaceBy id (new.flatMap (replaceBy id' new'))) := by
  rw [List.flatMap_assoc]
  apply List.flatMap_congr
  intro n hn
  by_cases hid : n.id = id
  · rw [replaceBy, if_pos hid, replaceBy, if_pos hid]
  · rw [replaceBy, if_neg hid, replaceBy, if_neg hid, List.flatMap_singleton, replaceBy,
      if_neg (hns n hn)]

end Node

namespace Document

section

variable {P D E : Document} {M C : Node}

/-- The nodes of the inner macro arrive in the place of its call, whenever that is replaced. -/
theorem nodes_within (hcall : D.onBoundary C.id = false)
    (hinner : ∀ id, D.onBoundary (Splice.inner C.id id) = false) {F : Document}
    (hname : F.name = D.name)
    (hnodes : F.nodes = D.nodes.flatMap (Node.replaceBy C.id (Splice.Site.ofCall C E).nodes))
    (hboundary : ∀ id, F.onBoundary id = D.onBoundary id) :
    (Splice.Site.ofCall M F).nodes = (Splice.Site.ofCall M D).nodes.flatMap
      (Node.replaceBy (Splice.inner M.id C.id)
        (Splice.Site.ofCall (C.copyTo M.id D.name) E).nodes) := by
  have hcopies : (Splice.Site.ofCall (C.copyTo M.id D.name) E).nodes =
      (Splice.Site.ofCall C E).nodes.map (Node.copyTo M.id D.name) := by
    rw [Splice.Site.nodes_eq, Splice.Site.nodes_eq, List.map_map]
    apply List.map_congr_left
    intro n _
    exact (Node.copyTo_copyTo M.id C.id D.name E.name n).symm
  have hkept : ∀ n ∈ (Splice.Site.ofCall C E).nodes, (!D.onBoundary n.id) = true := by
    intro n hn
    obtain ⟨k, -, rfl⟩ := List.mem_map.1 hn
    have hid : D.onBoundary ((Splice.Site.ofCall C E).innerNode k).id = false := hinner k.id
    rw [hid]
    rfl
  calc (Splice.Site.ofCall M F).nodes
    _ = (F.nodes.filter (fun n ↦ !D.onBoundary n.id)).map (Node.copyTo M.id D.name) := by
        rw [Splice.Site.nodes_eq]
        simp only [Splice.Site.ofCall, hname, hboundary]
    _ = ((D.nodes.filter (fun n ↦ !D.onBoundary n.id)).map (Node.copyTo M.id D.name)).flatMap
          (Node.replaceBy (Splice.inner M.id C.id)
            ((Splice.Site.ofCall C E).nodes.map (Node.copyTo M.id D.name))) := by
        rw [hnodes]
        apply Node.map_filter_flatMap_replaceBy hkept
        · exact fun n ↦ (Splice.inner_injective M.id).eq_iff
        · exact fun n heq ↦ by rw [heq, hcall]; rfl
    _ = _ := by
        rw [hcopies, (Splice.Site.ofCall M D).nodes_eq]
        rfl

theorem PlainIds.onBoundary_inner (h : D.PlainIds) (callSite id : String) :
    D.onBoundary (Splice.inner callSite id) = false := by
  apply Bool.eq_false_iff.2
  intro hboundary
  obtain ⟨n, hn, -, hid⟩ := onBoundary_iff.1 hboundary
  exact Splice.ne_inner_of_plain (h.plain n hn) callSite id hid

theorem boundary_flatMap_replaceBy (hids : D.IdsDistinct) (hC : C ∈ D.nodes)
    (hcategory : C.category = .macroCall) {F : Document}
    (hnodes : F.nodes = D.nodes.flatMap (Node.replaceBy C.id (Splice.Site.ofCall C E).nodes)) :
    F.boundaryInputs = D.boundaryInputs ∧ F.boundaryOutputs = D.boundaryOutputs := by
  have hcall : ∀ n ∈ D.nodes, n.id = C.id → n.category = .macroCall := by
    intro n hn hid
    rw [hids.eq_of_mem hn hC hid, hcategory]
  have hnew : ∀ n ∈ (Splice.Site.ofCall C E).nodes,
      n.category ≠ .macroInput ∧ n.category ≠ .macroOutput := by
    intro n hn
    simpa [Node.isBoundary] using Splice.Site.isBoundary_of_mem_nodes hn
  unfold boundaryInputs boundaryOutputs
  rw [hnodes]
  constructor
  · apply Node.filter_flatMap_replaceBy
    · exact fun n hn ↦ decide_eq_false (hnew n hn).1
    · exact fun n hn hid ↦ by simp [hcall n hn hid]
  · apply Node.filter_flatMap_replaceBy
    · exact fun n hn ↦ decide_eq_false (hnew n hn).2
    · exact fun n hn hid ↦ by simp [hcall n hn hid]

/-- Where a macro has taken the place of its call, a call inside it is found at its new place. -/
theorem node?_copyTo {once : Document} (hids : once.IdsDistinct)
    (hnodes : once.nodes =
      P.nodes.flatMap (Node.replaceBy M.id (Splice.Site.ofCall M D).nodes))
    (hM : M ∈ P.nodes) (hC : C ∈ D.nodes) (hcall : D.onBoundary C.id = false) :
    once.node? (Splice.inner M.id C.id) = some (C.copyTo M.id D.name) := by
  have hcopy : C.copyTo M.id D.name ∈ once.nodes := by
    rw [hnodes, List.mem_flatMap]
    refine ⟨M, hM, ?_⟩
    rw [Node.replaceBy, if_pos rfl]
    exact Splice.Site.copyTo_mem_nodes hC hcall
  exact hids.node?_eq_some hcopy

/-- A call inside a macro may be replaced before or after the macro takes the place of its own call:
all splices succeed, and the results have the same nodes and the same connections. -/
theorem splice_nested {m c : String} (hP : P.PlainIds) (hD : D.PlainIds) (hE : E.IdsDistinct)
    (hM : P.node? m = some M) (hC : D.node? c = some C) (hcategory : C.category = .macroCall)
    (hcountM : (Splice.Site.ofCall M D).anchorCount = D.anchorCount)
    (hcountC : (Splice.Site.ofCall C E).anchorCount = E.anchorCount)
    (hnew : ∀ p ∈ P.connections,
      p.source.node ≠ Splice.inner m c ∧ p.target.node ≠ Splice.inner m c) :
    ∃ inside deepFirst once deepLast,
      D.splice c E = .ok inside ∧ P.splice m inside = .ok deepFirst ∧
      P.splice m D = .ok once ∧ once.splice (Splice.inner m c) E = .ok deepLast ∧
      deepFirst.nodes = deepLast.nodes ∧ deepFirst.connections ~ deepLast.connections := by
  have hMmem : M ∈ P.nodes := List.mem_of_find?_eq_some hM
  have hCmem : C ∈ D.nodes := List.mem_of_find?_eq_some hC
  obtain rfl : M.id = m := by simpa using List.find?_some hM
  obtain rfl : C.id = c := by simpa using List.find?_some hC
  have hcall : D.onBoundary C.id = false :=
    hD.distinct.onBoundary_eq_false hCmem (by simp [Node.isBoundary, hcategory])
  have hinner := hD.onBoundary_inner C.id
  obtain ⟨inside, hinside, hname, hnodes, hconnections⟩ :=
    exists_splice_substituted hD.distinct hE hC hcountC
  obtain ⟨once, honce, -, honceNodes, honceConnections⟩ :=
    exists_splice_substituted hP.distinct hD.distinct hM hcountM
  have hinsideIds : inside.IdsDistinct := hD.distinct_splice hE hC hinside
  have honceIds : once.IdsDistinct := hP.distinct_splice hD.distinct hM honce
  -- The boundary of the macro is the same before and after, so its anchors still match.
  obtain ⟨hinputs, houtputs⟩ := boundary_flatMap_replaceBy hD.distinct hCmem hcategory hnodes
  have hboundary : ∀ id, inside.onBoundary id = D.onBoundary id :=
    Splice.Site.onBoundary_withMacro (s := Splice.Site.ofCall M D) hinputs houtputs
  have hcountM' : (Splice.Site.ofCall M inside).anchorCount = inside.anchorCount := by
    rw [anchorCount, hinputs, houtputs]
    exact hcountM
  have hC' := node?_copyTo honceIds honceNodes hMmem hCmem hcall
  obtain ⟨deepFirst, hdeepFirst, -, hfirstNodes, hfirstConnections⟩ :=
    exists_splice_substituted hP.distinct hinsideIds hM hcountM'
  obtain ⟨deepLast, hdeepLast, -, hlastNodes, hlastConnections⟩ :=
    exists_splice_substituted honceIds hE hC' hcountC
  refine ⟨inside, deepFirst, once, deepLast, hinside, hdeepFirst, honce, hdeepLast, ?_, ?_⟩
  · rw [hfirstNodes, hlastNodes, honceNodes, nodes_within hcall hinner hname hnodes hboundary]
    apply Eq.symm
    apply Node.flatMap_replaceBy_flatMap
    exact fun n hn ↦ Splice.ne_inner_of_plain (hP.plain n hn) M.id C.id
  · apply Multiset.coe_eq_coe.1
    rw [hfirstConnections, hlastConnections, honceConnections]
    apply Splice.Site.substituted_within (s := Splice.Site.ofCall M D)
      (t := Splice.Site.ofCall C E) hnew hcall hinner hconnections
    exact Splice.Site.paths_withMacro (s := Splice.Site.ofCall M D) hinputs houtputs _

end

/-! ## A call inside a macro -/

/-- The call of the outer macro. -/
def wrapCall : Node :=
  { Node.call "m" (.named "Wrap") with inputAnchors := ["Input"], outputAnchors := ["Output"] }

/-- A workflow around it, in which it is fed twice. -/
def wrapCaller : Document where
  name := "caller"
  path := ⟨"caller.yxmd"⟩
  description := none
  nodes := [.plain "X" .input "x", wrapCall, .plain "Y" .output "y"]
  connections :=
    [⟨⟨"X", "Output"⟩, ⟨"m", "Input"⟩⟩, ⟨⟨"X", "Other"⟩, ⟨"m", "Input"⟩⟩,
     ⟨⟨"m", "Output"⟩, ⟨"Y", "Input"⟩⟩]

/-- The call of the inner macro. -/
def coreCall : Node :=
  { Node.call "c" (.named "Core") with inputAnchors := ["Input"], outputAnchors := ["Output"] }

/-- A macro that only calls another one, and passes its input through beside it. -/
def wrapMacro : Document where
  name := "Wrap"
  path := ⟨"Wrap.yxmc"⟩
  description := none
  nodes := [.plain "1" .macroInput "in", coreCall, .plain "9" .macroOutput "out"]
  connections :=
    [⟨⟨"1", "Output"⟩, ⟨"c", "Input"⟩⟩, ⟨⟨"c", "Output"⟩, ⟨"9", "Input"⟩⟩,
     ⟨⟨"1", "Output"⟩, ⟨"9", "Input"⟩⟩]

/-- A macro of one step that passes its input through as well. A connection out of its output
carries nothing. -/
def coreMacro : Document where
  name := "Core"
  path := ⟨"Core.yxmc"⟩
  description := none
  nodes := [.plain "1" .macroInput "in", .plain "T" .formula "trim", .plain "9" .macroOutput "out"]
  connections :=
    [⟨⟨"1", "Output"⟩, ⟨"T", "Input"⟩⟩, ⟨⟨"T", "Output"⟩, ⟨"9", "Input"⟩⟩,
     ⟨⟨"1", "Output"⟩, ⟨"9", "Input"⟩⟩, ⟨⟨"9", "Output"⟩, ⟨"T", "Other"⟩⟩]

theorem splice_nested_wrap :
    wrapCaller.PlainIds ∧ wrapMacro.PlainIds ∧ coreMacro.IdsDistinct ∧
      wrapCaller.node? "m" = some wrapCall ∧ wrapMacro.node? "c" = some coreCall ∧
      coreCall.category = .macroCall ∧
      (Splice.Site.ofCall wrapCall wrapMacro).anchorCount = wrapMacro.anchorCount ∧
      (Splice.Site.ofCall coreCall coreMacro).anchorCount = coreMacro.anchorCount ∧
      (∀ p ∈ wrapCaller.connections,
        p.source.node ≠ Splice.inner "m" "c" ∧ p.target.node ≠ Splice.inner "m" "c") ∧
      ∃ inside deepFirst once deepLast, wrapMacro.splice "c" coreMacro = .ok inside ∧
        wrapCaller.splice "m" inside = .ok deepFirst ∧ wrapCaller.splice "m" wrapMacro = .ok once ∧
        once.splice (Splice.inner "m" "c") coreMacro = .ok deepLast ∧
        deepFirst.nodes = deepLast.nodes ∧ deepFirst.connections ~ deepLast.connections := by
  have hP : wrapCaller.PlainIds := by decide +kernel
  have hD : wrapMacro.PlainIds := by decide +kernel
  have hE : coreMacro.IdsDistinct := by decide +kernel
  have hnew : ∀ p ∈ wrapCaller.connections,
      p.source.node ≠ Splice.inner "m" "c" ∧ p.target.node ≠ Splice.inner "m" "c" := by
    decide +kernel
  exact ⟨hP, hD, hE, rfl, rfl, rfl, rfl, rfl, hnew,
    splice_nested hP hD hE rfl rfl rfl rfl rfl hnew⟩

/-- A workflow with a call of that macro and a connection that leads nowhere. -/
def strayWrapCaller : Document :=
  { wrapCaller with
    nodes := [.plain "X" .input "x", .call "m" (.named "Wrap"), .plain "Y" .output "y"]
    connections :=
      [⟨⟨"X", "Output"⟩, ⟨"m", "Input"⟩⟩, ⟨⟨"m", "Output"⟩, ⟨"Y", "Input"⟩⟩,
       ⟨⟨"m/c", "Output"⟩, ⟨"Y", "Input"⟩⟩] }

/-- A macro of one step. -/
def stepMacro : Document :=
  { coreMacro with
    connections := [⟨⟨"1", "Output"⟩, ⟨"T", "Input"⟩⟩, ⟨⟨"T", "Output"⟩, ⟨"9", "Input"⟩⟩] }

/-- A macro that calls it. -/
def stepWrapMacro : Document :=
  { wrapMacro with
    nodes := [.plain "1" .macroInput "in", .call "c" (.named "Core"), .plain "9" .macroOutput "out"]
    connections := [⟨⟨"1", "Output"⟩, ⟨"c", "Input"⟩⟩, ⟨⟨"c", "Output"⟩, ⟨"9", "Input"⟩⟩] }

/-- A connection that leads to the identifier of the inner call stays as it is if that call is
replaced first, and becomes one of the inner macro if it is replaced last. -/
theorem splice_nested_stray :
    strayWrapCaller.deriveAnchors.PlainIds ∧ stepWrapMacro.deriveAnchors.PlainIds ∧
      stepMacro.deriveAnchors.PlainIds ∧
      (∀ p ∈ strayWrapCaller.connections, ¬(p.source.node = "m" ∧ p.target.node = "m")) ∧
      (∀ p ∈ stepWrapMacro.connections, ¬(p.source.node = "c" ∧ p.target.node = "c")) ∧
      ∃ deepFirst deepLast : List Connection,
        ((stepWrapMacro.deriveAnchors.splice "c" stepMacro.deriveAnchors).bind
          (strayWrapCaller.deriveAnchors.splice "m" ·)).toOption.map connections =
            some deepFirst ∧
        ((strayWrapCaller.deriveAnchors.splice "m" stepWrapMacro.deriveAnchors).bind
          (·.splice (Splice.inner "m" "c") stepMacro.deriveAnchors)).toOption.map connections =
            some deepLast ∧
        deepFirst =
          [⟨⟨"X", "Output"⟩, ⟨"m/c/T", "Input"⟩⟩, ⟨⟨"m/c/T", "Output"⟩, ⟨"Y", "Input"⟩⟩,
           ⟨⟨"m/c", "Output"⟩, ⟨"Y", "Input"⟩⟩] ∧
        ¬deepFirst ~ deepLast := by
  refine ⟨by decide +kernel, by decide +kernel, by decide +kernel, by decide, by decide, _,
    [⟨⟨"X", "Output"⟩, ⟨"m/c/T", "Input"⟩⟩, ⟨⟨"m/c/T", "Output"⟩, ⟨"Y", "Input"⟩⟩,
     ⟨⟨"m/c/T", "Output"⟩, ⟨"Y", "Input"⟩⟩], ?_, ?_, rfl, ?_⟩
  · decide +kernel
  · decide +kernel
  · decide

end Document

end Provenance

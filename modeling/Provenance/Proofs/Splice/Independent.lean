import Provenance.Proofs.Expansion.Settled
import Provenance.Proofs.Splice.Ends
import Provenance.Proofs.Splice.Valid

/-!
# Splices beside each other

Two calls of a document may be replaced in either order (`splice_comm`), whether they are connected
or not. Where one feeds the other, each of the two splices rewrites the ends that the other macro is
connected to; either way the connections between the calls become the paths that run through both
macros (`Site.through`). Since no data flow in a circle, the calls are connected in one direction at
most, and each end of such a path is what it was in the calling document.
-/

open scoped List

namespace Provenance

namespace Splice

namespace Site

/-- A call that is neither the call of another site nor a node that the other's macro brings
along. -/
structure Outside (s t : Site) : Prop where
  ne : s.callSite ≠ t.callSite
  not_inner : ∀ id, inner t.callSite id ≠ s.callSite

/-- The paths into one macro, along a connection between the calls, and out of the other macro. -/
def through (s t : Site) (cs : Multiset Connection) : Multiset Connection :=
  (s.definition.connections : Multiset Connection).bind (fun c ↦
    (t.definition.connections : Multiset Connection).bind (fun d ↦
      cs.bind (fun p ↦
        if s.Meets .output p.source c.target ∧ t.Meets .input p.target d.source then
          links (s.ends .input cs c.source) (t.ends .output cs d.target)
        else 0)))

theorem apart_apart (s t : Site) (cs : Multiset Connection) :
    s.apart (t.apart cs) = t.apart (s.apart cs) :=
  Multiset.filter_comm ..

section

variable {s t : Site} {side : Side} {cs : Multiset Connection} (h : s.Outside t)

include h

/-- What a macro's ends stand for beside a call: what they stand for if its connections are left
out. -/
theorem filter_ends (e : Endpoint) :
    (t.ends side cs e).filter (fun x ↦ x.node ≠ s.callSite) = t.ends side (s.apart cs) e := by
  have hplace : (t.place e).filter (fun x ↦ x.node ≠ s.callSite) = t.place e := by
    apply Multiset.filter_eq_self.2
    intro x hx
    unfold place at hx
    split at hx
    · rw [Multiset.mem_singleton.1 hx]
      exact h.not_inner e.node
    · cases hx
  have hacross : (t.across side cs e).filter (fun x ↦ x.node ≠ s.callSite) =
      t.across side (s.apart cs) e := by
    rw [across, across, apart, Multiset.filter_bind, Multiset.bind_filter]
    apply Multiset.bind_congr
    intro c _
    by_cases hmeets : t.Meets side (side.near c) e
    · have hnear : (side.near c).node ≠ s.callSite := fun heq ↦ h.ne (heq.symm.trans hmeets.1)
      cases side with
      | input =>
        by_cases hfar : c.source.node = s.callSite <;>
          simp_all [Side.near, Side.far, Multiset.filter_singleton]
      | output =>
        by_cases hfar : c.target.node = s.callSite <;>
          simp_all [Side.near, Side.far, Multiset.filter_singleton]
    · simp [hmeets]
  rw [ends, ends, Multiset.filter_add, hplace, hacross]

/-- The connections of a call may be left out before or after another one is replaced. -/
theorem apart_substituted_of_outside :
    s.apart (t.substituted cs) = t.substituted (s.apart cs) := by
  rw [apart_substituted, substituted, apart_apart]
  congr 1
  apply Multiset.bind_congr
  intro c _
  rw [apart_paths, filter_ends h, filter_ends h, paths]

theorem bind_ends (n e : Endpoint) (new : Multiset Endpoint) :
    (t.ends side.other cs n).bind (fun x ↦ if s.Meets side x e then new else 0) =
      cs.bind (fun p ↦
        if t.Meets side.other (side.far p) n ∧ s.Meets side (side.near p) e then new else 0) := by
  have hplace : (t.place n).bind (fun x ↦ if s.Meets side x e then new else 0) = 0 := by
    unfold place
    split
    · rw [Multiset.singleton_bind, if_neg fun hmeets ↦ h.not_inner n.node hmeets.1]
    · rfl
  rw [ends, Multiset.add_bind, hplace, zero_add, across, Multiset.bind_assoc]
  apply Multiset.bind_congr
  intro p _
  rw [side.near_other, side.far_other]
  by_cases hmeets : t.Meets side.other (side.far p) n <;> simp [hmeets]

/-- What a macro's ends stand for once another call is replaced. -/
theorem ends_substituted (e : Endpoint) :
    s.ends side (t.substituted cs) e = s.ends side (t.apart cs) e +
      (t.definition.connections : Multiset Connection).bind (fun c ↦ cs.bind (fun p ↦
        if t.Meets side.other (side.far p) (side.near c) ∧ s.Meets side (side.near p) e then
          t.ends side cs (side.far c)
        else 0)) := by
  rw [ends, ends, across_substituted, add_assoc]
  simp only [bind_ends h]

end

section

variable {s t : Site} {side : Side} {cs : Multiset Connection}
  (hjoin : ∀ p ∈ cs, ¬((side.near p).node = s.callSite ∧ (side.far p).node = t.callSite))

include hjoin

theorem ends_apart_of_not_joined (hne : s.callSite ≠ t.callSite) (e : Endpoint) :
    s.ends side (t.apart cs) e = s.ends side cs e := by
  rw [ends, ends, across, across, apart, Multiset.bind_filter]
  congr 1
  apply Multiset.bind_congr
  intro p hp
  by_cases hmeets : s.Meets side (side.near p) e
  · have hnear : (side.near p).node ≠ t.callSite := fun heq ↦ hne (hmeets.1.symm.trans heq)
    have hfar : (side.far p).node ≠ t.callSite := fun heq ↦ hjoin p hp ⟨hmeets.1, heq⟩
    cases side with
    | input => exact if_pos ⟨hfar, hnear⟩
    | output => exact if_pos ⟨hnear, hfar⟩
  · simp [hmeets]

/-- Where no connection leads from one call to another, replacing the other changes nothing. -/
theorem ends_substituted_of_not_joined (h : s.Outside t) (e : Endpoint) :
    s.ends side (t.substituted cs) e = s.ends side cs e := by
  rw [ends_substituted h, ends_apart_of_not_joined hjoin h.ne]
  have hnone (c : Connection) : cs.bind (fun p ↦
      if t.Meets side.other (side.far p) (side.near c) ∧ s.Meets side (side.near p) e then
        t.ends side cs (side.far c)
      else 0) = 0 := by
    apply (Multiset.bind_congr fun p hp ↦ if_neg fun hmeets ↦ ?_).trans (Multiset.bind_zero _)
    exact hjoin p hp ⟨hmeets.2.1, hmeets.1.1⟩
  simp only [hnone, Multiset.bind_zero, add_zero]

end

/-! ## Both calls replaced -/

section

variable {s t : Site} {cs : Multiset Connection} (hst : s.Outside t) (hts : t.Outside s)
  (hjoin : ∀ p ∈ cs, ¬(p.source.node = t.callSite ∧ p.target.node = s.callSite))

include hjoin

include hts in
/-- The call that is fed by the other one is replaced last. -/
theorem substituted_downstream :
    t.substituted (s.substituted cs) =
      s.substituted (t.apart cs) +
        ((t.definition.connections : Multiset Connection).bind (t.paths (s.apart cs)) +
          s.through t cs) := by
  have hoffer (e : Endpoint) : t.ends .output (s.substituted cs) e = t.ends .output cs e :=
    ends_substituted_of_not_joined hjoin hts e
  have hoffer' (e : Endpoint) : t.ends .output (s.apart cs) e = t.ends .output cs e :=
    ends_apart_of_not_joined hjoin hts.ne e
  have hpaths (d : Connection) : t.paths (s.substituted cs) d = t.paths (s.apart cs) d +
      (s.definition.connections : Multiset Connection).bind (fun c ↦ cs.bind (fun p ↦
        if s.Meets .output p.source c.target ∧ t.Meets .input p.target d.source then
          links (s.ends .input cs c.source) (t.ends .output cs d.target)
        else 0)) := by
    rw [paths, hoffer, ends_substituted hts, links_add_left, paths, hoffer', links_bind_left]
    simp only [links_bind_left, links_ite_left]
    rfl
  calc t.substituted (s.substituted cs)
    _ = s.substituted (t.apart cs) +
          (t.definition.connections : Multiset Connection).bind (t.paths (s.substituted cs)) := by
        rw [← apart_substituted_of_outside hts]
        rfl
    _ = _ := by
        rw [Multiset.bind_congr fun d _ ↦ hpaths d, Multiset.bind_add, Multiset.bind_bind]
        rfl

include hst in
/-- The call that is fed by the other one is replaced first. -/
theorem substituted_upstream :
    s.substituted (t.substituted cs) =
      t.substituted (s.apart cs) +
        ((s.definition.connections : Multiset Connection).bind (s.paths (t.apart cs)) +
          s.through t cs) := by
  have hjoin' : ∀ p ∈ cs, ¬(p.target.node = s.callSite ∧ p.source.node = t.callSite) :=
    fun p hp hends ↦ hjoin p hp hends.symm
  have hdemand (e : Endpoint) : s.ends .input (t.substituted cs) e = s.ends .input cs e :=
    ends_substituted_of_not_joined hjoin' hst e
  have hdemand' (e : Endpoint) : s.ends .input (t.apart cs) e = s.ends .input cs e :=
    ends_apart_of_not_joined hjoin' hst.ne e
  have hpaths (c : Connection) : s.paths (t.substituted cs) c = s.paths (t.apart cs) c +
      (t.definition.connections : Multiset Connection).bind (fun d ↦ cs.bind (fun p ↦
        if t.Meets .input p.target d.source ∧ s.Meets .output p.source c.target then
          links (s.ends .input cs c.source) (t.ends .output cs d.target)
        else 0)) := by
    rw [paths, hdemand, ends_substituted hst, links_add_right, paths, hdemand', links_bind_right]
    simp only [links_bind_right, links_ite_right]
    rfl
  calc s.substituted (t.substituted cs)
    _ = t.substituted (s.apart cs) +
          (s.definition.connections : Multiset Connection).bind (s.paths (t.substituted cs)) := by
        rw [← apart_substituted_of_outside hst]
        rfl
    _ = _ := by
        rw [Multiset.bind_congr fun c _ ↦ hpaths c, Multiset.bind_add, through]
        simp only [and_comm]

include hst hts in
theorem substituted_comm : t.substituted (s.substituted cs) = s.substituted (t.substituted cs) := by
  rw [substituted_downstream hts hjoin, substituted_upstream hst hjoin, substituted,
    substituted, apart_apart]
  abel

end

end Site

end Splice

namespace Document

/-- In a document without circles two calls do not feed each other. -/
theorem Acyclic.not_joined {P : Document} (h : P.Acyclic) (m n : String) :
    (∀ p ∈ P.connections, ¬(p.source.node = n ∧ p.target.node = m)) ∨
      ∀ p ∈ P.connections, ¬(p.source.node = m ∧ p.target.node = n) := by
  by_contra hboth
  simp only [not_or, not_forall, not_not] at hboth
  obtain ⟨⟨p, hp, hsource, htarget⟩, ⟨q, hq, hsource', htarget'⟩⟩ := hboth
  exact h m (.tail (.single ⟨q, hq, hsource', htarget'⟩) ⟨p, hp, hsource, htarget⟩)

theorem flatMap_replaceBy_comm {ns new new' : List Node} {id id' : String} (hne : id ≠ id')
    (hnew : ∀ n ∈ new, n.id ≠ id') (hnew' : ∀ n ∈ new', n.id ≠ id) :
    (ns.flatMap (Node.replaceBy id new)).flatMap (Node.replaceBy id' new') =
      (ns.flatMap (Node.replaceBy id' new')).flatMap (Node.replaceBy id new) := by
  rw [List.flatMap_assoc, List.flatMap_assoc]
  apply List.flatMap_congr
  intro n _
  unfold Node.replaceBy
  by_cases hid : n.id = id
  · have hid' : n.id ≠ id' := fun heq ↦ hne (hid.symm.trans heq)
    rw [if_pos hid, if_neg hid', List.flatMap_singleton, if_pos hid]
    exact Node.flatMap_replaceBy_of_ne hnew
  · rw [if_neg hid, List.flatMap_singleton]
    by_cases hid' : n.id = id'
    · rw [if_pos hid']
      exact (Node.flatMap_replaceBy_of_ne hnew').symm
    · rw [if_neg hid', List.flatMap_singleton, if_neg hid]

theorem id_ne_of_mem_site_nodes {call : Node} {d : Document} {id : String}
    (hid : '/' ∉ id.toList) {n : Node} (hn : n ∈ (Splice.Site.ofCall call d).nodes) :
    n.id ≠ id := by
  obtain ⟨k, -, rfl⟩ := List.mem_map.1 hn
  exact (Splice.ne_inner_of_plain hid call.id k.id).symm

/-- Two calls of a document without circles may be replaced in either order: all splices succeed,
and the results have the same nodes and the same connections. -/
theorem splice_comm {P D E : Document} {M N : Node} {m n : String} (hP : P.PlainIds)
    (hacyclic : P.Acyclic) (hD : D.IdsDistinct) (hE : E.IdsDistinct) (hne : m ≠ n)
    (hM : P.node? m = some M) (hN : P.node? n = some N)
    (hcountM : (Splice.Site.ofCall M D).anchorCount = D.anchorCount)
    (hcountN : (Splice.Site.ofCall N E).anchorCount = E.anchorCount) :
    ∃ left leftRight right rightLeft, P.splice m D = .ok left ∧ left.splice n E = .ok leftRight ∧
      P.splice n E = .ok right ∧ right.splice m D = .ok rightLeft ∧
      leftRight.nodes = rightLeft.nodes ∧ leftRight.connections ~ rightLeft.connections := by
  obtain rfl : M.id = m := by simpa using List.find?_some hM
  obtain rfl : N.id = n := by simpa using List.find?_some hN
  have hplainM : '/' ∉ M.id.toList := hP.plain M (List.mem_of_find?_eq_some hM)
  have hplainN : '/' ∉ N.id.toList := hP.plain N (List.mem_of_find?_eq_some hN)
  have hclearM (id : String) : Splice.inner N.id id ≠ M.id :=
    (Splice.ne_inner_of_plain hplainM N.id id).symm
  have hclearN (id : String) : Splice.inner M.id id ≠ N.id :=
    (Splice.ne_inner_of_plain hplainN M.id id).symm
  obtain ⟨left, hleft, -, hleftNodes, hleftConnections⟩ :=
    exists_splice_substituted hP.distinct hD hM hcountM
  obtain ⟨right, hright, -, hrightNodes, hrightConnections⟩ :=
    exists_splice_substituted hP.distinct hE hN hcountN
  -- Each call is still there, with its anchors, when the other has been replaced.
  have hN' : left.node? N.id = some N := (node?_splice_of_ne hM hleft hne.symm hclearN).trans hN
  have hM' : right.node? M.id = some M := (node?_splice_of_ne hN hright hne hclearM).trans hM
  obtain ⟨leftRight, hleftRight, -, hnodes, hconnections⟩ :=
    exists_splice_substituted (hP.distinct_splice hD hM hleft) hE hN' hcountN
  obtain ⟨rightLeft, hrightLeft, -, hnodes', hconnections'⟩ :=
    exists_splice_substituted (hP.distinct_splice hE hN hright) hD hM' hcountM
  refine ⟨left, leftRight, right, rightLeft, hleft, hleftRight, hright, hrightLeft, ?_, ?_⟩
  · rw [hnodes, hnodes', hleftNodes, hrightNodes]
    exact flatMap_replaceBy_comm hne (fun k ↦ id_ne_of_mem_site_nodes hplainN)
      (fun k ↦ id_ne_of_mem_site_nodes hplainM)
  · apply Multiset.coe_eq_coe.1
    rw [hconnections, hconnections', hleftConnections, hrightConnections]
    have hMN : (Splice.Site.ofCall M D).Outside (Splice.Site.ofCall N E) := ⟨hne, hclearM⟩
    have hNM : (Splice.Site.ofCall N E).Outside (Splice.Site.ofCall M D) := ⟨hne.symm, hclearN⟩
    obtain hjoin | hjoin := hacyclic.not_joined M.id N.id
    · exact Splice.Site.substituted_comm hMN hNM hjoin
    · exact (Splice.Site.substituted_comm hNM hMN hjoin).symm

/-- A workflow that calls one macro twice, the second call being fed by the first and by another
node. -/
def seriesCaller : Document where
  name := "caller"
  path := ⟨"caller.yxmd"⟩
  description := none
  nodes :=
    [.plain "A" .input "a", { mergeCall with id := "B" }, { mergeCall with id := "C" },
     .plain "D" .output "d"]
  connections :=
    [⟨⟨"A", "Output"⟩, ⟨"B", "Left"⟩⟩, ⟨⟨"A", "Output"⟩, ⟨"B", "Right"⟩⟩,
     ⟨⟨"B", "Raw"⟩, ⟨"C", "Left"⟩⟩, ⟨⟨"B", "Done"⟩, ⟨"C", "Left"⟩⟩,
     ⟨⟨"A", "Output"⟩, ⟨"C", "Right"⟩⟩, ⟨⟨"C", "Raw"⟩, ⟨"D", "Input"⟩⟩]

/-- The data of the first input of both macros pass through both. -/
theorem splice_comm_series :
    seriesCaller.PlainIds ∧ seriesCaller.Acyclic ∧ mergeMacro.IdsDistinct ∧ "B" ≠ "C" ∧
      seriesCaller.node? "B" = some { mergeCall with id := "B" } ∧
      seriesCaller.node? "C" = some { mergeCall with id := "C" } ∧
      ∃ left leftRight right rightLeft, seriesCaller.splice "B" mergeMacro = .ok left ∧
        left.splice "C" mergeMacro = .ok leftRight ∧
        seriesCaller.splice "C" mergeMacro = .ok right ∧
        right.splice "B" mergeMacro = .ok rightLeft ∧ leftRight.nodes = rightLeft.nodes ∧
        leftRight.connections ~ rightLeft.connections := by
  have hP : seriesCaller.PlainIds := by decide +kernel
  have hacyclic : seriesCaller.Acyclic := acyclic_of_lt (by decide)
  have hD : mergeMacro.IdsDistinct := by decide +kernel
  have hne : "B" ≠ "C" := by decide
  exact ⟨hP, hacyclic, hD, hne, rfl, rfl,
    splice_comm hP hacyclic hD hD hne (M := { mergeCall with id := "B" })
      (N := { mergeCall with id := "C" }) rfl rfl rfl rfl⟩

end Document

end Provenance

import Provenance.Proofs.Anchors.Order
import Provenance.Proofs.Splice.Rewiring

/-!
# Anchors and the order of connections

A file lists its connections in some order. If it lists them in another one, its nodes get the same
anchors in the same order, provided that different anchors of a node differ in the stem or in the
number that counts (`Anchor.ToldApart`), and only then (`deriveAnchors_rearranged`). Calls then bind to
the same boundary nodes, and what they are replaced by has the same connections (`Rearranges.splice`).

Anchors whose numbers are not too large and do not begin with a zero are told apart
(`toldApart_of_plain`). A number that is too large counts as zero, so that it comes before lower ones
and is not told apart from others of its kind (`deriveAnchors_wide`).
-/

open scoped List

namespace Provenance

namespace Anchor

/-! ## Anchors that are told apart -/

/-- Different anchors of a list differ in the stem or in the number that counts. -/
def ToldApart (anchors : List String) : Prop :=
  ∀ p ∈ anchors, ∀ q ∈ anchors, stem p = stem q → number p = number q → p = q

theorem le_and_le_iff {p q : String} :
    le p q ∧ le q p ↔ stem p = stem q ∧ number p = number q := by
  rw [le_iff, le_iff]
  constructor
  · rintro ⟨hpq | ⟨hstem, hpq⟩, hqp | ⟨hstem', hqp⟩⟩
    · exact absurd hqp (String.lt_asymm hpq)
    · exact absurd hpq (hstem' ▸ String.lt_irrefl _)
    · exact absurd hqp (hstem ▸ String.lt_irrefl _)
    · exact ⟨hstem, Nat.le_antisymm hpq hqp⟩
  · rintro ⟨hstem, hnumber⟩
    exact ⟨.inr ⟨hstem, Nat.le_of_eq hnumber⟩, .inr ⟨hstem.symm, Nat.le_of_eq hnumber.symm⟩⟩

/-- An anchor whose number, if it has one, is not too large and does not begin with a zero. -/
def Plain (anchor : String) : Prop :=
  (digits anchor).head? ≠ some '0' ∧ Digits.toNat 10 (digits anchor) ≤ maxNumber

instance : DecidablePred Plain := fun _ ↦ inferInstanceAs (Decidable (_ ∧ _))

theorem toldApart_of_plain {anchors : List String} (h : ∀ anchor ∈ anchors, Plain anchor) :
    ToldApart anchors := by
  intro p hp q hq hstem hnumber
  obtain ⟨hhead, hfits⟩ := h p hp
  obtain ⟨hhead', hfits'⟩ := h q hq
  have hdigits : digits p = digits q := by
    apply Digits.eq_of_toNat_eq isDigit_of_mem_digits isDigit_of_mem_digits hhead hhead'
    simpa [number, hfits, hfits'] using hnumber
  apply String.toList_inj.1
  rw [← stem_append_digits p, ← stem_append_digits q, hstem, hdigits]

/-- Anchors that are told apart are put in one order. -/
theorem complete_eq_of_perm {used used' : List String} (hperm : used' ~ used)
    (h : ToldApart used) : complete [] used' = complete [] used := by
  have hsorted (used : List String) : (complete [] used).Pairwise (fun p q ↦ le p q) :=
    List.pairwise_mergeSort le_trans le_total _
  have hmem {used : List String} {anchor : String} : anchor ∈ complete [] used ↔ anchor ∈ used := by
    simp [mem_complete]
  have hsame : complete [] used' ~ complete [] used := by
    apply (List.perm_ext_iff_of_nodup (nodup_complete .nil _) (nodup_complete .nil _)).2
    exact fun anchor ↦ hmem.trans (hperm.mem_iff.trans hmem.symm)
  apply List.Perm.eq_of_pairwise _ (hsorted used') (hsorted used) hsame
  intro p q hp hq hpq hqp
  obtain ⟨hstem, hnumber⟩ := le_and_le_iff.1 ⟨hpq, hqp⟩
  exact h p (hperm.mem_iff.1 (hmem.1 hp)) q (hmem.1 hq) hstem hnumber

/-- Anchors that are not told apart stay in the order of their use, so that they are equal if it does
not matter which of them is used first. -/
theorem eq_of_complete_cons_eq {p q : String} {ps qs : List String}
    (h : complete [] (p :: ps) = complete [] (q :: qs)) (hstem : stem p = stem q)
    (hnumber : number p = number q) : p = q := by
  by_contra hne
  obtain ⟨hpq, hqp⟩ := le_and_le_iff.2 ⟨hstem, hnumber⟩
  have hp : p ∈ complete [] (p :: ps) := by simp [mem_complete]
  have hq : q ∈ complete [] (p :: ps) := by simp [h, mem_complete]
  rcases pair_sublist_or hp hq hne with hsub | hsub
  · rw [h] at hsub
    have hlt := (List.pairwise_iff_forall_sublist.1 (pairwise_complete .nil _) hsub).2 hqp
    simp at hlt
  · have hlt := (List.pairwise_iff_forall_sublist.1 (pairwise_complete .nil _) hsub).2 hpq
    simp at hlt

/-- Of two anchors with one stem the one with the lower number comes first, if the other number is
not too large. -/
theorem Completes.sublist_of_lt {declared used anchors : List String}
    (h : Completes declared used anchors) {p q s : String} {m n : Nat} (hp : p ∈ anchors)
    (hq : q ∈ anchors) (hreads : Reads p s m) (hreads' : Reads q s n) (hlt : m < n)
    (hn : n ≤ maxNumber) : [p, q] <+ anchors := by
  have hne : p ≠ q := by
    rintro rfl
    have hmn : m = n := (reads_iff.1 hreads).2.symm.trans (reads_iff.1 hreads').2
    exact Nat.ne_of_lt hlt hmn
  apply (pair_sublist_or hp hq hne).resolve_right
  intro hsub
  have hm : m ≤ maxNumber := Nat.le_trans (Nat.le_of_lt hlt) hn
  rcases List.pairwise_iff_forall_sublist.1 h.ordered hsub s s n m hreads' hreads hn hm with
    hstem | ⟨-, hnumber | ⟨hnumber, -⟩⟩
  · exact String.lt_irrefl s hstem
  · exact Nat.lt_asymm hlt hnumber
  · exact Nat.ne_of_gt hlt hnumber

end Anchor

/-! ## Rearranged documents -/

/-- A call is replaced by the same connections in whatever order those of the calling document are. -/
theorem Splice.Site.connections_perm_of_perm (s : Splice.Site) {parent parent' : Document}
    (h : parent'.connections ~ parent.connections) :
    s.connections parent' ~ s.connections parent := by
  have hfeeders (i : Nat) : s.feeders parent' i ~ s.feeders parent i := (h.filter _).filterMap _
  have hrewire (c : Connection) : s.rewire parent' c ~ s.rewire parent c := by
    unfold rewire rewireOut
    split
    · apply List.Perm.append_left
      split
      · split
        · exact ((List.Perm.flatMap_left _ fun i _ ↦ hfeeders i).append_left _).map _
        · exact .refl _
      · exact .refl _
    · exact .refl _
  calc s.connections parent'
    _ ~ s.internal ++ parent'.connections.flatMap (s.rewire parent') := connections_perm parent'
    _ ~ s.internal ++ parent.connections.flatMap (s.rewire parent) :=
        (h.flatMap fun c _ ↦ hrewire c).append_left _
    _ ~ s.connections parent := (connections_perm parent).symm

/-- A node that declares no anchors. -/
def Node.IsBare (n : Node) : Prop :=
  n.inputAnchors = [] ∧ n.outputAnchors = []

namespace Document

/-- A document is another one with its connections listed in another order. -/
structure Rearranges (d d' : Document) : Prop where
  nodes : d'.nodes = d.nodes
  connections : d'.connections ~ d.connections

theorem Rearranges.anchorsAt {d d' : Document} (h : d.Rearranges d') (side : Connection → Endpoint)
    (id : String) : d'.anchorsAt side id ~ d.anchorsAt side id :=
  (h.connections.filter _).map _

/-- A document can be rearranged so that an anchor is used first. -/
theorem exists_rearranges_cons (d : Document) {side : Connection → Endpoint} {id anchor : String}
    (h : anchor ∈ d.anchorsAt side id) :
    ∃ d' rest, d.Rearranges d' ∧ d'.anchorsAt side id = anchor :: rest := by
  obtain ⟨c, hc, rfl⟩ := List.mem_map.1 h
  obtain ⟨hmem, hnode⟩ := List.mem_filter.1 hc
  refine ⟨{ d with connections := c :: d.connections.erase c },
    ((d.connections.erase c).filter (fun c ↦ (side c).node = id)).map (fun c ↦ (side c).anchor),
    ⟨rfl, (List.perm_cons_erase hmem).symm⟩, ?_⟩
  exact congrArg (List.map (fun c ↦ (side c).anchor)) (List.filter_cons_of_pos hnode)

theorem toldApart_of_rearranges {d : Document} {side : Connection → Endpoint} {id : String}
    (h : ∀ d', d.Rearranges d' →
      Anchor.complete [] (d'.anchorsAt side id) = Anchor.complete [] (d.anchorsAt side id)) :
    Anchor.ToldApart (d.anchorsAt side id) := by
  intro p hp q hq hstem hnumber
  obtain ⟨d₁, ps, hd₁, hfirst₁⟩ := d.exists_rearranges_cons hp
  obtain ⟨d₂, qs, hd₂, hfirst₂⟩ := d.exists_rearranges_cons hq
  have hsame : Anchor.complete [] (p :: ps) = Anchor.complete [] (q :: qs) := by
    rw [← hfirst₁, ← hfirst₂, h d₁ hd₁, h d₂ hd₂]
  exact Anchor.eq_of_complete_cons_eq hsame hstem hnumber

/-- The anchors that connections use at a node are told apart, on either side. -/
def TellsApart (d : Document) (n : Node) : Prop :=
  Anchor.ToldApart (d.anchorsAt Connection.target n.id) ∧
    Anchor.ToldApart (d.anchorsAt Connection.source n.id)

theorem withAnchors_eq (d : Document) (n : Node) :
    d.withAnchors n = { n with
      inputAnchors := Anchor.complete n.inputAnchors (d.anchorsAt Connection.target n.id)
      outputAnchors := Anchor.complete n.outputAnchors (d.anchorsAt Connection.source n.id) } :=
  rfl

/-- The anchors of a node do not depend on the order of the connections just if they are told
apart. -/
theorem withAnchors_eq_iff {d : Document} {n : Node} (hbare : n.IsBare) :
    (∀ d', d.Rearranges d' → d'.withAnchors n = d.withAnchors n) ↔ d.TellsApart n := by
  obtain ⟨hinputs, houtputs⟩ := hbare
  simp only [withAnchors_eq, hinputs, houtputs]
  constructor
  · intro h
    constructor
    · exact toldApart_of_rearranges fun d' hd' ↦ congrArg Node.inputAnchors (h d' hd')
    · exact toldApart_of_rearranges fun d' hd' ↦ congrArg Node.outputAnchors (h d' hd')
  · rintro ⟨htarget, hsource⟩ d' hd'
    rw [Anchor.complete_eq_of_perm (hd'.anchorsAt _ _) htarget,
      Anchor.complete_eq_of_perm (hd'.anchorsAt _ _) hsource]

theorem nodes_deriveAnchors_eq_iff {d : Document} (hbare : ∀ n ∈ d.nodes, n.IsBare) :
    (∀ d', d.Rearranges d' → d'.deriveAnchors.nodes = d.deriveAnchors.nodes) ↔
      ∀ n ∈ d.nodes, d.TellsApart n := by
  have hnodes {d' : Document} (hd' : d.Rearranges d') :
      d'.deriveAnchors.nodes = d.deriveAnchors.nodes ↔
        ∀ n ∈ d.nodes, d'.withAnchors n = d.withAnchors n := by
    rw [deriveAnchors, deriveAnchors, hd'.nodes]
    exact List.map_inj_left
  constructor
  · intro h n hn
    exact (withAnchors_eq_iff (hbare n hn)).1 fun d' hd' ↦ (hnodes hd').1 (h d' hd') n hn
  · intro h d' hd'
    exact (hnodes hd').2 fun n hn ↦ (withAnchors_eq_iff (hbare n hn)).2 (h n hn) d' hd'

/-- A call is replaced by the same nodes, and by the same connections in some order. -/
theorem Rearranges.splice {d d' : Document} (h : d.Rearranges d') {callSite : String}
    {definition result : Document} (hresult : d.splice callSite definition = .ok result) :
    ∃ result', d'.splice callSite definition = .ok result' ∧ result.Rearranges result' := by
  cases hcall : d.node? callSite with
  | none =>
    rw [node?] at hcall
    rw [Document.splice, hcall] at hresult
    cases hresult
  | some call =>
    obtain ⟨before, after, hnodes, hid, hbefore⟩ := node?_eq_some_iff.1 hcall
    have hnodes' : d'.nodes = before ++ call :: after := h.nodes.trans hnodes
    rw [splice_eq hnodes hid hbefore] at hresult
    rw [splice_eq hnodes' hid hbefore]
    split at hresult
    · rename_i hcount
      rw [if_pos hcount, ← Except.ok.inj hresult]
      exact ⟨_, rfl, rfl, Splice.Site.connections_perm_of_perm _ h.connections⟩
    · cases hresult

/-- In whatever order the connections of a document are listed, its nodes get the same anchors just if
those are told apart. Then every call is replaced by the same nodes and the same connections. Numbers
that are not too large put anchors of one stem in their order. -/
theorem deriveAnchors_rearranged (d : Document) (hbare : ∀ n ∈ d.nodes, n.IsBare) :
    ((∀ d', d.Rearranges d' → d'.deriveAnchors.nodes = d.deriveAnchors.nodes) ↔
      ∀ n ∈ d.nodes, d.TellsApart n) ∧
    ((∀ n ∈ d.nodes, d.TellsApart n) → ∀ d', d.Rearranges d' →
      ∀ callSite definition result, d.deriveAnchors.splice callSite definition = .ok result →
        ∃ result', d'.deriveAnchors.splice callSite definition = .ok result' ∧
          result.Rearranges result') ∧
    ∀ n ∈ d.deriveAnchors.nodes, ∀ anchors ∈ [n.inputAnchors, n.outputAnchors],
      ∀ p ∈ anchors, ∀ q ∈ anchors, ∀ stem i j, Anchor.Reads p stem i → Anchor.Reads q stem j →
        i < j → j ≤ Anchor.maxNumber → [p, q] <+ anchors := by
  refine ⟨nodes_deriveAnchors_eq_iff hbare, ?_, ?_⟩
  · intro htold d' hd' callSite definition result hresult
    have hderived : d.deriveAnchors.Rearranges d'.deriveAnchors :=
      ⟨(nodes_deriveAnchors_eq_iff hbare).2 htold d' hd', hd'.connections⟩
    exact hderived.splice hresult
  · intro n hn anchors hanchors p hp q hq stem i j hi hj hlt hfits
    obtain ⟨m, hm, rfl⟩ := List.mem_map.1 hn
    obtain ⟨hinputs, houtputs⟩ := hbare m hm
    have hcompletes : ∃ used, Anchor.Completes [] used anchors := by
      rw [withAnchors_eq, hinputs, houtputs] at hanchors
      rcases List.mem_pair.1 hanchors with rfl | rfl
      · exact ⟨_, Anchor.completes_complete .nil _⟩
      · exact ⟨_, Anchor.completes_complete .nil _⟩
    obtain ⟨used, h⟩ := hcompletes
    exact h.sublist_of_lt hp hq hi hj hlt hfits

/-! ## Calls whose anchors are numbered -/

/-- A call, and connections to its anchors in some order. -/
def numberedFlow (anchors : List String) : Document :=
  { Document.empty "caller" ⟨"caller.yxmd"⟩ with
    nodes := [.plain "1" .input "a", .call "2" (.named "M")]
    connections := anchors.map (fun anchor ↦ ⟨⟨"1", "Output"⟩, ⟨"2", anchor⟩⟩) }

theorem isBare_numberedFlow {anchors : List String} :
    ∀ n ∈ (numberedFlow anchors).nodes, n.IsBare := by
  intro n hn
  rcases List.mem_pair.1 hn with rfl | rfl <;> exact ⟨rfl, rfl⟩

theorem rearranges_numberedFlow {anchors anchors' : List String} (h : anchors' ~ anchors) :
    (numberedFlow anchors).Rearranges (numberedFlow anchors') :=
  ⟨rfl, h.map _⟩

theorem inputAnchors_numberedFlow (anchors : List String) :
    (numberedFlow anchors).deriveAnchors.nodes.map Node.inputAnchors =
      [[], Anchor.complete [] anchors] := by
  have hfirst : (numberedFlow anchors).anchorsAt Connection.target "1" = [] := by
    simp [anchorsAt, numberedFlow]
  have hsecond : (numberedFlow anchors).anchorsAt Connection.target "2" = anchors := by
    simp [anchorsAt, numberedFlow, List.filter_map, Function.comp_def]
  calc (numberedFlow anchors).deriveAnchors.nodes.map Node.inputAnchors
    _ = [Anchor.complete [] ((numberedFlow anchors).anchorsAt Connection.target "1"),
          Anchor.complete [] ((numberedFlow anchors).anchorsAt Connection.target "2")] := rfl
    _ = [[], Anchor.complete [] anchors] := by
        rw [hfirst, hsecond, (Anchor.complete_eq_iff .nil).2 ⟨.refl _, .nil⟩]
        rfl

theorem deriveAnchors_rearranged_numbered :
    (∀ n ∈ (numberedFlow ["Input10", "Input2"]).nodes, n.IsBare) ∧
      (numberedFlow ["Input2", "Input10"]).deriveAnchors.nodes =
        (numberedFlow ["Input10", "Input2"]).deriveAnchors.nodes ∧
      ∀ n ∈ (numberedFlow ["Input10", "Input2"]).deriveAnchors.nodes,
        "Input2" ∈ n.inputAnchors → "Input10" ∈ n.inputAnchors →
          ["Input2", "Input10"] <+ n.inputAnchors := by
  have hplain : ∀ n ∈ (numberedFlow ["Input10", "Input2"]).nodes,
      (∀ anchor ∈ (numberedFlow ["Input10", "Input2"]).anchorsAt Connection.target n.id,
        Anchor.Plain anchor) ∧
      ∀ anchor ∈ (numberedFlow ["Input10", "Input2"]).anchorsAt Connection.source n.id,
        Anchor.Plain anchor := by
    decide +kernel
  obtain ⟨hsame, -, hordered⟩ := deriveAnchors_rearranged _ isBare_numberedFlow
  refine ⟨isBare_numberedFlow, hsame.2 (fun n hn ↦ ?_) _ (rearranges_numberedFlow (.swap ..)), ?_⟩
  · exact ⟨Anchor.toldApart_of_plain (hplain n hn).1, Anchor.toldApart_of_plain (hplain n hn).2⟩
  · intro n hn hp hq
    exact hordered n hn _ List.mem_cons_self _ hp _ hq "Input" 2 10
      (Anchor.reads_iff.2 (by decide +kernel)) (Anchor.reads_iff.2 (by decide +kernel)) (by decide)
      (by decide)

/-- Numbers that are too large come before `Input2`, in the order in which the connections are. -/
theorem deriveAnchors_wide :
    let anchors := ["Input2", "Input18446744073709551616", "Input18446744073709551617"]
    (∀ n ∈ (numberedFlow anchors).nodes, n.IsBare) ∧
      (numberedFlow anchors).Rearranges (numberedFlow anchors.reverse) ∧
      Anchor.Reads "Input2" "Input" 2 ∧
      Anchor.Reads "Input18446744073709551616" "Input" 18446744073709551616 ∧
      (numberedFlow anchors).deriveAnchors.nodes.map Node.inputAnchors =
        [[], ["Input18446744073709551616", "Input18446744073709551617", "Input2"]] ∧
      (numberedFlow anchors.reverse).deriveAnchors.nodes.map Node.inputAnchors =
        [[], ["Input18446744073709551617", "Input18446744073709551616", "Input2"]] := by
  refine ⟨isBare_numberedFlow, rearranges_numberedFlow (List.reverse_perm _),
    Anchor.reads_iff.2 (by decide +kernel), Anchor.reads_iff.2 (by decide +kernel), ?_, ?_⟩
  · apply (inputAnchors_numberedFlow _).trans
    exact congrArg ([[], ·]) ((Anchor.complete_eq_iff .nil).2 (by decide +kernel))
  · apply (inputAnchors_numberedFlow _).trans
    exact congrArg ([[], ·]) ((Anchor.complete_eq_iff .nil).2 (by decide +kernel))

end Document

end Provenance

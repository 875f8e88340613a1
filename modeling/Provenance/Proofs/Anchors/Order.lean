import Mathlib.Data.List.Forall2
import Provenance.Document.Anchors
import Provenance.Proofs.Graph.Index
import Provenance.Proofs.Sorting
import Provenance.Proofs.Text.Digits
import Provenance.Proofs.Text.Trim

/-!
# The anchors of a node

The anchors that a node gets are those that are declared and those that connections use, each once,
in the order of their names (`Anchor.Completes`). Names are compared by what stands before the digits
at the end and then by the number that these digits write (`Anchor.Reads`), and anchors that do not
differ in either keep the order in which they come up, as sorting is stable (`filter_mergeSort`).

Completing the anchors of all nodes changes nothing else in a document, and completing them again
changes nothing at all (`deriveAnchors_completes`).
-/

namespace Provenance

namespace Anchor

/-! ## The order of names -/

/-- An anchor is a stem that does not end in a digit, with digits behind it that write a number. No
digits write zero. -/
def Reads (anchor stem : String) (n : Nat) : Prop :=
  ∃ digits : List Char, anchor.toList = stem.toList ++ digits ∧
    (∀ c ∈ stem.toList.getLast?, c.isDigit = false) ∧ (∀ c ∈ digits, c.isDigit) ∧
    Nat.ofDigitChars 10 digits 0 = n

theorem isDigit_of_mem_digits {anchor : String} : ∀ c ∈ digits anchor, c.isDigit := by
  intro c hc
  rw [digits, Text.afterLast, List.mem_reverse] at hc
  simpa using List.mem_takeWhile_imp hc

theorem stem_append_digits (anchor : String) :
    (stem anchor).toList ++ digits anchor = anchor.toList := by
  rw [stem, String.toList_ofList]
  exact Text.dropEndWhile_append_afterLast _

/-- An anchor can be read in one way. -/
theorem reads_iff {anchor s : String} {n : Nat} :
    Reads anchor s n ↔ stem anchor = s ∧ Digits.toNat 10 (digits anchor) = n := by
  constructor
  · rintro ⟨ds, hanchor, hstem, hds, rfl⟩
    rw [stem, digits, hanchor, Text.dropEndWhile_append hstem hds, Text.afterLast_append hstem hds,
      String.ofList_toList]
    exact ⟨rfl, Digits.toNat_eq_ofDigitChars hds⟩
  · rintro ⟨rfl, rfl⟩
    refine ⟨digits anchor, (stem_append_digits anchor).symm, ?_, isDigit_of_mem_digits,
      (Digits.toNat_eq_ofDigitChars isDigit_of_mem_digits).symm⟩
    rw [stem, String.toList_ofList]
    exact Text.getLast?_dropEndWhile _

/-- A number that is not too large counts as it is. -/
theorem number_of_reads {anchor s : String} {n : Nat} (h : Reads anchor s n) (hn : n ≤ maxNumber) :
    number anchor = n := by
  rw [number, (reads_iff.1 h).2]
  exact if_pos hn

theorem le_iff {p q : String} :
    le p q ↔ stem p < stem q ∨ stem p = stem q ∧ number p ≤ number q := by
  unfold le
  split
  · rename_i heq
    simp [heq]
  · rename_i hne
    simp [hne]

theorem le_total (p q : String) : le p q || le q p := by
  rw [Bool.or_eq_true, le_iff, le_iff]
  by_cases hpq : stem p < stem q
  · exact .inl (.inl hpq)
  by_cases hqp : stem q < stem p
  · exact .inr (.inl hqp)
  have heq : stem p = stem q := String.le_antisymm (String.not_lt.1 hqp) (String.not_lt.1 hpq)
  exact (Nat.le_total (number p) (number q)).imp (.inr ⟨heq, ·⟩) (.inr ⟨heq.symm, ·⟩)

theorem le_trans (p q r : String) (hpq : le p q) (hqr : le q r) : le p r := by
  rw [le_iff] at *
  rcases hpq with hpq | ⟨hpq, hle⟩ <;> rcases hqr with hqr | ⟨hqr, hle'⟩
  · exact .inl (String.lt_trans hpq hqr)
  · exact .inl (hqr ▸ hpq)
  · exact .inl (hpq ▸ hqr)
  · exact .inr ⟨hpq.trans hqr, Nat.le_trans hle hle'⟩

/-! ## Completed lists -/

theorem addMissing_concat (declared used : List String) (anchor : String) :
    addMissing declared (used ++ [anchor]) =
      if anchor ∈ addMissing declared used then addMissing declared used
      else addMissing declared used ++ [anchor] :=
  List.foldl_concat ..

theorem mem_addMissing {declared used : List String} {anchor : String} :
    anchor ∈ addMissing declared used ↔ anchor ∈ declared ∨ anchor ∈ used := by
  induction used using List.reverseRecOn with
  | nil => simp [addMissing]
  | append_singleton used last ih =>
    rw [addMissing_concat, List.mem_append, List.mem_singleton, ← or_assoc, ← ih]
    split
    · rename_i hknown
      exact ⟨.inl, fun h ↦ h.elim id (· ▸ hknown)⟩
    · rw [List.mem_append, List.mem_singleton]

/-- Anchors are listed in the order in which they first come up. -/
theorem pairwise_addMissing {declared : List String} (h : declared.Nodup) (used : List String) :
    (addMissing declared used).Pairwise (fun p q ↦
      (declared ++ used).idxOf p < (declared ++ used).idxOf q) := by
  induction used using List.reverseRecOn with
  | nil => simpa [addMissing] using Graph.pairwise_idxOf h
  | append_singleton used last ih =>
    have hknown {p : String} (hp : p ∈ addMissing declared used) : p ∈ declared ++ used :=
      List.mem_append.2 (mem_addMissing.1 hp)
    rw [addMissing_concat, ← List.append_assoc]
    have hearlier : (addMissing declared used).Pairwise (fun p q ↦
        (declared ++ used ++ [last]).idxOf p < (declared ++ used ++ [last]).idxOf q) := by
      apply ih.imp_of_mem
      intro p q hp hq hlt
      rwa [List.idxOf_append_of_mem (hknown hp), List.idxOf_append_of_mem (hknown hq)]
    split
    · exact hearlier
    rename_i hlast
    refine List.pairwise_append.2 ⟨hearlier, List.pairwise_singleton .., ?_⟩
    intro p hp q hq
    rw [List.mem_singleton.1 hq, List.idxOf_append_of_mem (hknown hp),
      List.idxOf_append_of_notMem fun hmem ↦ hlast (mem_addMissing.2 (List.mem_append.1 hmem)),
      List.idxOf_cons_self]
    exact List.idxOf_lt_length_of_mem (hknown hp)

theorem addMissing_of_subset {known used : List String} (h : ∀ anchor ∈ used, anchor ∈ known) :
    addMissing known used = known := by
  induction used with
  | nil => rfl
  | cons anchor rest ih =>
    rw [List.forall_mem_cons] at h
    rw [addMissing, List.foldl_cons, if_pos h.1]
    exact ih h.2

theorem complete_perm (declared used : List String) :
    (complete declared used).Perm (addMissing declared used) :=
  List.mergeSort_perm ..

theorem mem_complete {declared used : List String} {anchor : String} :
    anchor ∈ complete declared used ↔ anchor ∈ declared ∨ anchor ∈ used :=
  (complete_perm declared used).mem_iff.trans mem_addMissing

theorem pairwise_complete {declared : List String} (h : declared.Nodup) (used : List String) :
    (complete declared used).Pairwise (fun p q ↦
      le p q ∧ (le q p → (declared ++ used).idxOf p < (declared ++ used).idxOf q)) :=
  pairwise_mergeSort le_trans le_total (pairwise_addMissing h used)

theorem nodup_complete {declared : List String} (h : declared.Nodup) (used : List String) :
    (complete declared used).Nodup := by
  rw [(complete_perm declared used).nodup_iff]
  apply (pairwise_addMissing h used).imp
  rintro p _ hlt rfl
  exact Nat.lt_irrefl _ hlt

/-- There is one list of the anchors in this order. -/
theorem complete_eq_iff {declared : List String} (h : declared.Nodup) {used anchors : List String} :
    complete declared used = anchors ↔ anchors.Perm (addMissing declared used) ∧
      anchors.Pairwise (fun p q ↦
        le p q ∧ (le q p → (declared ++ used).idxOf p < (declared ++ used).idxOf q)) := by
  constructor
  · rintro rfl
    exact ⟨complete_perm declared used, pairwise_complete h used⟩
  · rintro ⟨hperm, hordered⟩
    apply List.Perm.eq_of_pairwise _ (pairwise_complete h used) hordered
      ((complete_perm declared used).trans hperm.symm)
    rintro p q - - ⟨hpq, htie⟩ ⟨hqp, htie'⟩
    exact absurd (htie hqp) (Nat.lt_asymm (htie' hpq))

/-- Completing a list again changes nothing. -/
theorem complete_complete (declared used : List String) :
    complete (complete declared used) used = complete declared used := by
  calc complete (complete declared used) used
    _ = (complete declared used).mergeSort le := by
        rw [complete, addMissing_of_subset fun anchor hused ↦ mem_complete.2 (.inr hused)]
    _ = complete declared used :=
        List.mergeSort_of_pairwise (List.pairwise_mergeSort le_trans le_total _)

/-- The anchors of a node are the declared ones and those that connections use, in order. Of two
anchors whose numbers are not too large, the one with the lower stem comes first, and of two with one
stem the one with the lower number. If the numbers are equal too, it is the one that is declared
first or, if it is not declared, used first. -/
structure Completes (declared used anchors : List String) : Prop where
  nodup : anchors.Nodup
  mem_iff : ∀ anchor, anchor ∈ anchors ↔ anchor ∈ declared ∨ anchor ∈ used
  ordered : anchors.Pairwise (fun p q ↦ ∀ s t m n, Reads p s m → Reads q t n →
    m ≤ maxNumber → n ≤ maxNumber →
      s < t ∨ s = t ∧ (m < n ∨ m = n ∧
        (declared ++ used).idxOf p < (declared ++ used).idxOf q))

theorem completes_complete {declared : List String} (h : declared.Nodup) (used : List String) :
    Completes declared used (complete declared used) where
  nodup := nodup_complete h used
  mem_iff _ := mem_complete
  ordered := by
    apply (pairwise_complete h used).imp
    rintro p q ⟨hle, htie⟩ s t m n hp hq hm hn
    rw [le_iff, (reads_iff.1 hp).1, (reads_iff.1 hq).1, number_of_reads hp hm,
      number_of_reads hq hn] at hle htie
    rcases hle with hlt | ⟨heq, hle⟩
    · exact .inl hlt
    refine .inr ⟨heq, (Nat.lt_or_eq_of_le hle).imp_right fun hmn ↦ ⟨hmn, ?_⟩⟩
    exact htie (.inr ⟨heq.symm, Nat.le_of_eq hmn.symm⟩)

end Anchor

/-! ## Nodes with their anchors -/

namespace Document

/-- The anchors of a node that connections use on one side, in the order of the connections. -/
def anchorsAt (d : Document) (side : Connection → Endpoint) (id : String) : List String :=
  (d.connections.filter (fun c ↦ (side c).node = id)).map (fun c ↦ (side c).anchor)

theorem withAnchors_withAnchors (d : Document) (n : Node) :
    d.deriveAnchors.withAnchors (d.withAnchors n) = d.withAnchors n := by
  have hinputs := Anchor.complete_complete n.inputAnchors (d.anchorsAt Connection.target n.id)
  have houtputs := Anchor.complete_complete n.outputAnchors (d.anchorsAt Connection.source n.id)
  exact congrArg₂ (fun inputs outputs ↦
    { n with inputAnchors := inputs, outputAnchors := outputs }) hinputs houtputs

theorem deriveAnchors_deriveAnchors (d : Document) :
    d.deriveAnchors.deriveAnchors = d.deriveAnchors := by
  have hnodes : d.deriveAnchors.nodes.map d.deriveAnchors.withAnchors = d.deriveAnchors.nodes := by
    rw [deriveAnchors, List.map_map]
    exact List.map_congr_left fun n _ ↦ d.withAnchors_withAnchors n
  exact congrArg (fun nodes ↦ { d with nodes := nodes }) hnodes

/-- If no node declares an anchor twice, every node gets just the anchors that it declares and that
connections use, in order. Nothing else changes, and nothing at all if it is done again. -/
theorem deriveAnchors_completes (d : Document)
    (h : ∀ n ∈ d.nodes, n.inputAnchors.Nodup ∧ n.outputAnchors.Nodup) :
    List.Forall₂ (fun n n' ↦
        n' = { n with inputAnchors := n'.inputAnchors, outputAnchors := n'.outputAnchors } ∧
        Anchor.Completes n.inputAnchors (d.anchorsAt Connection.target n.id) n'.inputAnchors ∧
        Anchor.Completes n.outputAnchors (d.anchorsAt Connection.source n.id) n'.outputAnchors)
      d.nodes d.deriveAnchors.nodes ∧
    d.deriveAnchors = { d with nodes := d.deriveAnchors.nodes } ∧
    d.deriveAnchors.deriveAnchors = d.deriveAnchors := by
  refine ⟨?_, rfl, d.deriveAnchors_deriveAnchors⟩
  apply List.forall₂_map_right_iff.2
  apply List.forall₂_same.2
  intro n hn
  obtain ⟨hinputs, houtputs⟩ := h n hn
  exact ⟨rfl, Anchor.completes_complete hinputs _, Anchor.completes_complete houtputs _⟩

/-- Three connections into a node that declares an anchor. -/
def unionFlow : Document :=
  { Document.empty "union" ⟨"union.yxmd"⟩ with
    nodes := [.plain "1" .input "a", { Node.plain "2" .union "u" with inputAnchors := ["Main"] }]
    connections := [
      ⟨⟨"1", "Output"⟩, ⟨"2", "Input10"⟩⟩,
      ⟨⟨"1", "Output"⟩, ⟨"2", "Input2"⟩⟩,
      ⟨⟨"1", "Output"⟩, ⟨"2", "Input"⟩⟩] }

theorem deriveAnchors_completes_union :
    (∀ n ∈ unionFlow.nodes, n.inputAnchors.Nodup ∧ n.outputAnchors.Nodup) ∧
      unionFlow.deriveAnchors.deriveAnchors = unionFlow.deriveAnchors ∧
      ∃ n ∈ unionFlow.deriveAnchors.nodes,
        Anchor.Completes ["Main"] ["Input10", "Input2", "Input"] n.inputAnchors ∧
          n.inputAnchors = ["Input", "Input2", "Input10", "Main"] := by
  have hdeclared : ∀ n ∈ unionFlow.nodes, n.inputAnchors.Nodup ∧ n.outputAnchors.Nodup := by
    decide
  obtain ⟨hnodes, -, hagain⟩ := unionFlow.deriveAnchors_completes hdeclared
  obtain ⟨-, hsecond⟩ := List.forall₂_cons.1 hnodes
  obtain ⟨⟨-, hinputs, -⟩, -⟩ := List.forall₂_cons.1 hsecond
  exact ⟨hdeclared, hagain, _, List.mem_cons_of_mem _ List.mem_cons_self, hinputs,
    (Anchor.complete_eq_iff (by decide)).2 (by decide +kernel)⟩

end Document

end Provenance

import Mathlib.Data.List.Pairwise

/-!
# Order in lists

Two elements of a list stand in one order or the other (`pair_sublist_or`). Sorting is stable: elements
of which none comes before the other stay in the order in which they were (`filter_mergeSort`), so
that a sorted list keeps any relation that holds between such elements (`pairwise_mergeSort`).
-/

namespace Provenance

open scoped List

/-- Two elements of a list stand in one order or the other. -/
theorem pair_sublist_or {α : Type} {l : List α} {x y : α} (hx : x ∈ l) (hy : y ∈ l) (hne : x ≠ y) :
    [x, y] <+ l ∨ [y, x] <+ l := by
  induction l with
  | nil => cases hx
  | cons z rest ih =>
    have hfirst {y : α} (hy : y ∈ rest) : [z, y] <+ z :: rest :=
      (List.singleton_sublist.2 hy).cons_cons z
    rcases List.mem_cons.1 hx with rfl | hx'
    · exact .inl (hfirst (List.mem_of_ne_of_mem hne.symm hy))
    rcases List.mem_cons.1 hy with rfl | hy'
    · exact .inr (hfirst hx')
    · exact (ih hx' hy').imp (.cons _) (.cons _)

section

variable {α : Type} {le : α → α → Bool} (trans : ∀ a b c, le a b → le b c → le a c)
  (total : ∀ a b, le a b || le b a)

include trans total

/-- Elements that none of which comes before the other stay in their order. -/
theorem filter_mergeSort {p : α → Bool} (h : ∀ a b, p a → p b → le a b) (l : List α) :
    (l.mergeSort le).filter p = l.filter p := by
  have hsorted : (l.filter p).Pairwise (fun a b ↦ le a b) :=
    List.pairwise_of_forall_mem_list fun a ha b hb ↦
      h a b (List.mem_filter.1 ha).2 (List.mem_filter.1 hb).2
  have hsub : l.filter p <+ l.mergeSort le :=
    List.sublist_mergeSort trans total hsorted List.filter_sublist
  have hkept : (l.filter p).filter p <+ (l.mergeSort le).filter p := hsub.filter p
  rw [List.filter_filter, List.filter_congr fun a _ ↦ Bool.and_self (p a)] at hkept
  exact (hkept.eq_of_length ((List.mergeSort_perm l le).filter p).length_eq.symm).symm

/-- A sorted list is in order, and keeps a relation between elements of which none comes before the
other. -/
theorem pairwise_mergeSort {R : α → α → Prop} {l : List α} (h : l.Pairwise R) :
    (l.mergeSort le).Pairwise (fun a b ↦ le a b ∧ (le b a → R a b)) := by
  apply List.pairwise_iff_forall_sublist.2
  intro a b hsub
  have hab : le a b :=
    List.pairwise_iff_forall_sublist.1 (List.pairwise_mergeSort trans total l) hsub
  refine ⟨hab, fun hba ↦ ?_⟩
  have haa : le a a := by simpa using total a a
  have hkept : [a, b] <+ l.filter (fun c ↦ le a c && le c a) := by
    rw [← filter_mergeSort trans total
      (p := fun c ↦ le a c && le c a) (fun c d hc hd ↦ trans c a d (by simp_all) (by simp_all))]
    simpa [haa, hab, hba] using hsub.filter (fun c ↦ le a c && le c a)
  exact List.pairwise_iff_forall_sublist.1 h (hkept.trans List.filter_sublist)

end

end Provenance

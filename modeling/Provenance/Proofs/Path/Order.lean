import Provenance.Path

/-!
# The order of paths

Components are ordered by their kind, and names by their characters (`compare_eq_compareLex`), which
is a total order. Paths are ordered as the lists of their components, so that two of them compare as
equal exactly if they name the same components (`compare_eq_eq_iff`).
-/

namespace Provenance

namespace Component

/-- The place of a component's kind among the kinds. -/
def rank : Component → Nat
  | .root => 0
  | .current => 1
  | .parent => 2
  | .normal _ => 3

/-- The name of a component, empty if it is not a name. -/
def label : Component → String
  | .normal name => name
  | _ => ""

theorem eq_of_rank_label {a b : Component} (hrank : a.rank = b.rank) (hlabel : a.label = b.label) :
    a = b := by
  cases a <;> cases b <;> first | rfl | exact congrArg normal hlabel | cases hrank

theorem compare_eq_compareLex : compare = compareLex (compareOn rank) (compareOn label) := by
  funext a b
  cases a <;> cases b <;> rfl

instance : Ord Component where
  compare := compare

instance : Std.TransOrd Component :=
  (compare_eq_compareLex ▸ inferInstance : Std.TransCmp compare)

instance : Std.LawfulEqOrd Component where
  compare_self := Std.ReflOrd.compare_self
  eq_of_compare {a b} h := by
    change a.compare b = .eq at h
    rw [compare_eq_compareLex, compareLex_eq_eq] at h
    exact eq_of_rank_label (Std.LawfulEqCmp.eq_of_compare h.1) (Std.LawfulEqCmp.eq_of_compare h.2)

end Component

namespace Path

variable {p q r : Path}

theorem compareComponents_eq_compare (xs ys : List Component) :
    compareComponents xs ys = Ord.compare xs ys := by
  induction xs generalizing ys with
  | nil => cases ys <;> rfl
  | cons x xs ih =>
    cases ys with
    | nil => rfl
    | cons y ys =>
      rw [compareComponents, ih, List.compare_cons_cons]
      rfl

theorem compare_eq (p q : Path) : p.compare q = Ord.compare p.components q.components :=
  compareComponents_eq_compare ..

instance : Std.TransCmp compare where
  eq_swap {p q} := by
    rw [compare_eq, compare_eq]
    exact Std.OrientedCmp.eq_swap
  isLE_trans {p q r} hpq hqr := by
    rw [compare_eq] at hpq hqr ⊢
    exact Std.TransCmp.isLE_trans hpq hqr

theorem compare_eq_eq_iff : p.compare q = .eq ↔ p == q := by
  rw [compare_eq, beq_iff]
  exact Std.LawfulEqCmp.compare_eq_iff_eq

theorem le_iff : p.le q ↔ (p.compare q).isLE := by
  cases h : p.compare q <;> simp [le, h]

theorem le_trans (hpq : p.le q) (hqr : q.le r) : p.le r :=
  le_iff.2 (Std.TransCmp.isLE_trans (le_iff.1 hpq) (le_iff.1 hqr))

theorem le_total (p q : Path) : p.le q || q.le p := by
  have hswap : q.compare p = (p.compare q).swap := Std.OrientedCmp.eq_swap
  rw [Bool.or_eq_true, le_iff, le_iff, hswap]
  cases p.compare q <;> simp

theorem pairwise_le_mergeSort (ps : List Path) :
    (ps.mergeSort le).Pairwise (fun p q ↦ p.le q) := by
  have hsorted := @List.pairwise_mergeSort Path le (fun _ _ _ ↦ le_trans) le_total
  exact hsorted ps

end Path

end Provenance

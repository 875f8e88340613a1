import Mathlib.Data.List.Basic
import Mathlib.Data.List.Induction
import Provenance.Digits

/-!
# Numbers that digits write

Digits that do not begin with a zero are determined by the number that they write
(`eq_of_toNat_eq`), so that numbers can be told apart by their digits and the other way round.
-/

namespace Provenance.Digits

theorem toNat_range_of_isDigit {c : Char} (h : c.isDigit) : 48 ≤ c.toNat ∧ c.toNat ≤ 57 := by
  simpa [Char.isDigit, UInt32.le_iff_toNat_le] using h

theorem value?_of_isDigit {c : Char} (h : c.isDigit) : value? 10 c = some (c.toNat - '0'.toNat) := by
  obtain ⟨hlow, hhigh⟩ := toNat_range_of_isDigit h
  have hrange : '0' ≤ c ∧ c ≤ '9' := ⟨hlow, hhigh⟩
  have hlt : c.toNat - 48 < 10 := by omega
  simp [value?, hrange, hlt]

/-- Digits write the number that the standard library reads. -/
theorem toNat_eq_ofDigitChars {digits : List Char} (h : ∀ c ∈ digits, c.isDigit) :
    toNat 10 digits = Nat.ofDigitChars 10 digits 0 := by
  rw [toNat, Nat.ofDigitChars_eq_foldl]
  refine List.foldl_ext _ _ 0 fun n c hc ↦ ?_
  rw [value?_of_isDigit (h c hc), Option.getD_some, Nat.mul_comm]

theorem toNat_concat (digits : List Char) {c : Char} (h : c.isDigit) :
    toNat 10 (digits ++ [c]) = toNat 10 digits * 10 + (c.toNat - 48) := by
  rw [toNat, List.foldl_concat, value?_of_isDigit h]
  rfl

/-- Only zeros write zero. -/
theorem eq_zero_of_toNat_eq_zero {digits : List Char} (h : ∀ c ∈ digits, c.isDigit)
    (hzero : toNat 10 digits = 0) : ∀ c ∈ digits, c = '0' := by
  induction digits using List.reverseRecOn with
  | nil => exact fun _ ↦ nofun
  | append_singleton digits d ih =>
    rw [List.forall_mem_append, List.forall_mem_singleton] at h ⊢
    rw [toNat_concat digits h.2] at hzero
    obtain ⟨hlow, -⟩ := toNat_range_of_isDigit h.2
    have hd : d.toNat = '0'.toNat := by
      have hval : '0'.toNat = 48 := rfl
      omega
    exact ⟨ih h.1 (by omega), Char.toNat_inj.1 hd⟩

/-- Digits that write zero begin with a zero, if there are any. -/
theorem eq_nil_of_toNat_eq_zero {digits : List Char} (h : ∀ c ∈ digits, c.isDigit)
    (hhead : digits.head? ≠ some '0') (hzero : toNat 10 digits = 0) : digits = [] := by
  cases digits with
  | nil => rfl
  | cons d rest =>
    have hd : d = '0' := eq_zero_of_toNat_eq_zero h hzero d List.mem_cons_self
    exact absurd (by rw [hd, List.head?_cons]) hhead

/-- Digits that do not begin with a zero are determined by their number. -/
theorem eq_of_toNat_eq {ds es : List Char} (hds : ∀ c ∈ ds, c.isDigit) (hes : ∀ c ∈ es, c.isDigit)
    (hds' : ds.head? ≠ some '0') (hes' : es.head? ≠ some '0') (h : toNat 10 ds = toNat 10 es) :
    ds = es := by
  have hhead {digits : List Char} {c : Char} (hne : (digits ++ [c]).head? ≠ some '0') :
      digits.head? ≠ some '0' := by
    cases digits with
    | nil => exact nofun
    | cons d rest => simpa using hne
  induction ds using List.reverseRecOn generalizing es with
  | nil => exact (eq_nil_of_toNat_eq_zero hes hes' h.symm).symm
  | append_singleton ds d ih =>
    rcases List.eq_nil_or_concat' es with rfl | ⟨es, e, rfl⟩
    · exact eq_nil_of_toNat_eq_zero hds hds' h
    rw [List.forall_mem_append, List.forall_mem_singleton] at hds hes
    rw [toNat_concat ds hds.2, toNat_concat es hes.2] at h
    obtain ⟨hd, hd'⟩ := toNat_range_of_isDigit hds.2
    obtain ⟨he, he'⟩ := toNat_range_of_isDigit hes.2
    have hlast : d = e := Char.toNat_inj.1 (by omega)
    have hrest : ds = es := ih hds.1 hes.1 (hhead hds') (hhead hes') (by omega)
    rw [hlast, hrest]

end Provenance.Digits

import Mathlib.Data.List.DropRight
import Provenance.Text

/-!
# Trimmed texts

What is left of a text when runs of characters are cut off its ends is told by how the text falls
into parts: `kept ++ dropped` for one end (`dropEndWhile_append`), and for both ends `Strips`, which
holds of exactly one middle part (`trimBy_eq_iff`).
-/

namespace Provenance.Text

variable {α : Type} {p : α → Bool}

theorem dropEndWhile_append_afterLast (l : List α) :
    dropEndWhile p l ++ afterLast (fun c ↦ !p c) l = l := by
  have hlast : afterLast (fun c ↦ !p c) l = l.rtakeWhile p := by
    simp [afterLast, List.rtakeWhile]
  rw [hlast]
  exact List.rdropWhile_append_rtakeWhile

theorem dropEndWhile_append {kept dropped : List α} (hkept : ∀ c ∈ kept.getLast?, p c = false)
    (hdropped : ∀ c ∈ dropped, p c) : dropEndWhile p (kept ++ dropped) = kept := by
  have hstop : kept.reverse.dropWhile p = kept.reverse := by
    rw [← List.head?_reverse] at hkept
    cases hrev : kept.reverse with
    | nil => rfl
    | cons c rest => exact List.dropWhile_cons_of_neg (by simp [hkept c (by simp [hrev])])
  rw [dropEndWhile, List.reverse_append,
    List.dropWhile_append_of_pos (fun c hc ↦ hdropped c (List.mem_reverse.1 hc)), hstop,
    List.reverse_reverse]

theorem afterLast_append {kept dropped : List α} (hkept : ∀ c ∈ kept.getLast?, p c = false)
    (hdropped : ∀ c ∈ dropped, p c) : afterLast (fun c ↦ !p c) (kept ++ dropped) = dropped := by
  have hwhole := dropEndWhile_append_afterLast (p := p) (kept ++ dropped)
  rw [dropEndWhile_append hkept hdropped] at hwhole
  exact List.append_cancel_left hwhole

theorem getLast?_dropEndWhile (l : List α) : ∀ c ∈ (dropEndWhile p l).getLast?, p c = false := by
  intro c hc
  have hne : dropEndWhile p l ≠ [] := by
    intro hnil
    simp [hnil] at hc
  rw [List.getLast?_eq_some_getLast hne, Option.mem_some_iff] at hc
  have hlast := List.rdropWhile_last_not p l hne
  rw [← hc]
  exact Bool.eq_false_iff.2 hlast

/-- A list has another one in its middle, which neither begins nor ends with an element that
satisfies `p`, and around it there are only such elements. -/
structure Strips (p : α → Bool) (whole middle : List α) : Prop where
  around : ∃ before after, whole = before ++ middle ++ after ∧ (∀ c ∈ before, p c) ∧
    ∀ c ∈ after, p c
  head : ∀ c ∈ middle.head?, p c = false
  last : ∀ c ∈ middle.getLast?, p c = false

theorem mem_afterLast {l : List α} : ∀ c ∈ afterLast (fun c ↦ !p c) l, p c := by
  intro c hc
  rw [afterLast, List.mem_reverse] at hc
  simpa using List.mem_takeWhile_imp hc

theorem head?_dropEndWhile (l : List α) : ∀ c ∈ (dropEndWhile p l).head?, c ∈ l.head? := by
  intro c hc
  have hwhole := dropEndWhile_append_afterLast (p := p) l
  cases hkept : dropEndWhile p l with
  | nil => simp [hkept] at hc
  | cons first rest =>
    rw [hkept] at hc hwhole
    rw [← hwhole]
    exact hc

theorem strips_trimBy (whole : List α) : Strips p whole (trimBy p whole) where
  around := by
    refine ⟨whole.takeWhile p, afterLast (fun c ↦ !p c) (whole.dropWhile p), ?_,
      fun c hc ↦ List.mem_takeWhile_imp hc, mem_afterLast⟩
    rw [trimBy, List.append_assoc, dropEndWhile_append_afterLast, List.takeWhile_append_dropWhile]
  head c hc := by
    have hfirst := head?_dropEndWhile (whole.dropWhile p) c hc
    have hstop := List.head?_dropWhile_not p whole
    rw [Option.mem_def.1 hfirst] at hstop
    simpa using hstop
  last := getLast?_dropEndWhile _

theorem Strips.trimBy_eq {whole middle : List α} (h : Strips p whole middle) :
    trimBy p whole = middle := by
  obtain ⟨before, after, rfl, hbefore, hafter⟩ := h.around
  rw [trimBy, List.append_assoc, List.dropWhile_append_of_pos hbefore]
  cases hmiddle : middle with
  | nil =>
    rw [List.nil_append, ← List.append_nil after, List.dropWhile_append_of_pos hafter]
    rfl
  | cons c rest =>
    have hc : p c = false := h.head c (by simp [hmiddle])
    rw [List.cons_append, List.dropWhile_cons_of_neg (by simp [hc]), ← List.cons_append, ← hmiddle]
    exact dropEndWhile_append h.last hafter

theorem trimBy_eq_iff {whole middle : List α} : trimBy p whole = middle ↔ Strips p whole middle :=
  ⟨fun h ↦ h ▸ strips_trimBy whole, Strips.trimBy_eq⟩

end Provenance.Text

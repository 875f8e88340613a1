import Provenance.Pattern

/-!
# What a pattern stands for

A pattern accepts exactly the texts that arise from it when every star is replaced by some text
(`accepts_iff_fill`). Matching never goes back: each part between two stars is taken where it first
occurs after the part before it. No match is lost by this, since what follows a later occurrence is
still there after the first one (`exists_afterFirst?`), and the next star takes in what lies between
(`Spread.prepend`).
-/

namespace Provenance.Pattern

/-- A pattern with its stars replaced by the given texts in order, and by nothing once these have
run out. -/
def fill : List Char → List (List Char) → List Char
  | [], _ => []
  | c :: pattern, fillers =>
    if c = '*' then fillers.headD [] ++ fill pattern fillers.tail else c :: fill pattern fillers

/-- A text consists of some parts in order, with any text before each of them. -/
inductive Spread : List (List Char) → List Char → Prop where
  | nil : Spread [] []
  | cons (gap part : List Char) {parts : List (List Char)} {rest : List Char}
      (h : Spread parts rest) : Spread (part :: parts) (gap ++ part ++ rest)

variable {part rest text : List Char} {parts : List (List Char)}

theorem spread_nil_iff : Spread [] text ↔ text = [] := by
  constructor
  · rintro ⟨⟩
    rfl
  · rintro rfl
    exact .nil

theorem spread_cons_iff :
    Spread (part :: parts) text ↔ ∃ gap rest, text = gap ++ part ++ rest ∧ Spread parts rest := by
  constructor
  · rintro ⟨⟩
    exact ⟨_, _, rfl, ‹_›⟩
  · rintro ⟨gap, rest, rfl, h⟩
    exact .cons gap part h

/-- There can be more text before the first part. -/
theorem Spread.prepend (h : Spread (part :: parts) text) (more : List Char) :
    Spread (part :: parts) (more ++ text) := by
  obtain ⟨gap, rest, rfl, hrest⟩ := spread_cons_iff.1 h
  simpa using Spread.cons (more ++ gap) part hrest

theorem exists_of_afterFirst? (h : afterFirst? part text = some rest) :
    ∃ gap, text = gap ++ part ++ rest := by
  induction text with
  | nil =>
    unfold afterFirst? at h
    split at h
    · rename_i hpart
      cases h
      exact ⟨[], by simp [hpart]⟩
    · cases h
  | cons c text ih =>
    unfold afterFirst? at h
    split at h
    · rename_i hfirst
      cases h
      obtain ⟨after, hafter⟩ := List.isPrefixOf_iff_prefix.1 hfirst
      exact ⟨[], by simp [← hafter]⟩
    · obtain ⟨gap, rfl⟩ := ih h
      exact ⟨c :: gap, rfl⟩

/-- A part that occurs is found, and what follows any occurrence of it also follows the first. -/
theorem exists_afterFirst? (gap part rest : List Char) :
    ∃ after, afterFirst? part (gap ++ part ++ rest) = some after ∧ rest <:+ after := by
  induction gap with
  | nil =>
    refine ⟨rest, ?_, List.suffix_rfl⟩
    cases htext : [] ++ part ++ rest with
    | nil => simp_all [afterFirst?]
    | cons c text =>
      have hfirst : part.isPrefixOf (c :: text) :=
        List.isPrefixOf_iff_prefix.2 (htext ▸ List.prefix_append part rest)
      rw [afterFirst?, if_pos hfirst, ← htext, List.nil_append, List.drop_left]
  | cons c gap ih =>
    rw [List.cons_append, List.cons_append, afterFirst?]
    split
    · refine ⟨_, rfl, ?_⟩
      apply List.suffix_of_suffix_length_le (List.suffix_append (c :: (gap ++ part)) rest)
        (List.drop_suffix ..)
      simp only [List.length_drop, List.length_cons, List.length_append]
      omega
    · exact ih

theorem matchParts_iff : matchParts parts text ↔ Spread parts text := by
  induction parts generalizing text with
  | nil => rw [spread_nil_iff, matchParts, List.isEmpty_iff]
  | cons part parts ih =>
    cases parts with
    | nil =>
      simp only [spread_cons_iff, spread_nil_iff, matchParts, List.isSuffixOf_iff_suffix]
      constructor
      · rintro ⟨gap, rfl⟩
        exact ⟨gap, [], by simp, rfl⟩
      · rintro ⟨gap, rest, rfl, rfl⟩
        exact ⟨gap, by simp⟩
    | cons next parts =>
      simp only [matchParts]
      constructor
      · intro h
        split at h
        · rename_i rest hrest
          obtain ⟨gap, rfl⟩ := exists_of_afterFirst? hrest
          exact .cons gap part (ih.1 h)
        · cases h
      · intro h
        obtain ⟨gap, rest, rfl, hrest⟩ := spread_cons_iff.1 h
        obtain ⟨after, hafter, more, rfl⟩ := exists_afterFirst? gap part rest
        rw [hafter]
        exact ih.2 (hrest.prepend more)

theorem fill_star (filler : List Char) (pattern : List Char) (fillers : List (List Char)) :
    fill ('*' :: pattern) (filler :: fillers) = filler ++ fill pattern fillers :=
  rfl

theorem fill_cons {c : Char} (hc : c ≠ '*') (pattern : List Char) (fillers : List (List Char)) :
    fill (c :: pattern) fillers = c :: fill pattern fillers := by
  rw [fill, if_neg hc]

/-- A filled pattern begins with the first part of the pattern, and has the others spread over the
rest, each behind the filler of its star. -/
theorem exists_fill_iff {pattern first : List Char}
    (hpieces : Text.pieces '*' pattern = first :: parts) :
    (∃ fillers : List (List Char),
        fillers.length = pattern.count '*' ∧ text = fill pattern fillers) ↔
      ∃ rest, text = first ++ rest ∧ Spread parts rest := by
  induction pattern generalizing text first parts with
  | nil =>
    obtain ⟨rfl, rfl⟩ := List.cons.inj hpieces
    simp [fill, spread_nil_iff]
  | cons c pattern ih =>
    obtain ⟨next, more, hnext⟩ := List.exists_cons_of_ne_nil (Text.pieces_ne_nil '*' pattern)
    rw [Text.pieces, hnext] at hpieces
    by_cases hc : c = '*'
    · rw [if_pos hc] at hpieces
      obtain ⟨rfl, rfl⟩ := List.cons.inj hpieces
      subst hc
      simp only [List.count_cons_self, List.nil_append, exists_eq_left', spread_cons_iff]
      constructor
      · rintro ⟨fillers, hlength, rfl⟩
        obtain ⟨gap, fillers, rfl⟩ := List.exists_cons_of_length_eq_add_one hlength
        obtain ⟨rest, hrest, hspread⟩ := (ih hnext).1 ⟨fillers, Nat.succ.inj hlength, rfl⟩
        exact ⟨gap, rest, by rw [fill_star, hrest, List.append_assoc], hspread⟩
      · rintro ⟨gap, rest, rfl, hspread⟩
        obtain ⟨fillers, hlength, hfill⟩ := (ih hnext).2 ⟨rest, rfl, hspread⟩
        exact ⟨gap :: fillers, by rw [List.length_cons, hlength],
          by rw [fill_star, ← hfill, List.append_assoc]⟩
    · rw [if_neg hc] at hpieces
      obtain ⟨rfl, rfl⟩ := List.cons.inj hpieces
      simp only [List.count_cons_of_ne hc, fill_cons hc]
      constructor
      · rintro ⟨fillers, hlength, rfl⟩
        obtain ⟨rest, hrest, hspread⟩ := (ih hnext).1 ⟨fillers, hlength, rfl⟩
        exact ⟨rest, by rw [hrest, List.cons_append], hspread⟩
      · rintro ⟨rest, rfl, hspread⟩
        obtain ⟨fillers, hlength, hfill⟩ := (ih hnext).2 ⟨rest, rfl, hspread⟩
        exact ⟨fillers, hlength, by rw [List.cons_append, hfill]⟩

theorem matchesChars_iff {pattern first : List Char}
    (hpieces : Text.pieces '*' pattern = first :: parts) :
    matchesChars pattern text ↔ ∃ rest, text = first ++ rest ∧ Spread parts rest := by
  unfold matchesChars
  rw [hpieces]
  cases parts with
  | nil => simp [spread_nil_iff, eq_comm]
  | cons next parts =>
    simp only [Bool.and_eq_true, List.isPrefixOf_iff_prefix, matchParts_iff]
    constructor
    · rintro ⟨⟨rest, rfl⟩, h⟩
      exact ⟨rest, rfl, by simpa using h⟩
    · rintro ⟨rest, rfl, h⟩
      exact ⟨List.prefix_append first rest, by simpa using h⟩

/-- A pattern accepts a text exactly if every star can be replaced by some text so that the pattern
becomes that text. Then the text begins with the part before the first star, and the other parts
stand behind it and behind each other in order, the last one at the end. -/
theorem accepts_iff_fill (pattern text : String) :
    (accepts pattern text ↔ ∃ fillers : List (List Char),
      fillers.length = pattern.toList.count '*' ∧ text.toList = fill pattern.toList fillers) ∧
    (accepts pattern text → ∃ first parts rest,
      Text.pieces '*' pattern.toList = first :: parts ∧ text.toList = first ++ rest ∧
        Spread parts rest) := by
  obtain ⟨first, parts, hpieces⟩ :=
    List.exists_cons_of_ne_nil (Text.pieces_ne_nil '*' pattern.toList)
  rw [accepts, matchesChars_iff hpieces]
  refine ⟨(exists_fill_iff hpieces).symm, fun ⟨rest, htext, hspread⟩ ↦ ?_⟩
  exact ⟨first, parts, rest, hpieces, htext, hspread⟩

/-- The parts on both sides of a star do not overlap. -/
example : accepts "ab*ba" "aba" = false := by
  decide

end Provenance.Pattern

/-!
# Text

The few operations on text that every other module shares: which characters are blank, how the
blank ends of a text are removed, and how a text falls into pieces at a separator.

`pieces` never returns the empty list, joining its result restores the text (`intercalate_pieces`),
and cutting joined pieces restores the pieces (`pieces_intercalate`).
-/

namespace Provenance.Text

/-- The characters with the Unicode property `White_Space`. -/
def isBlank (c : Char) : Bool :=
  let code := c.toNat
  (0x09 ≤ code && code ≤ 0x0D) || code == 0x20 || code == 0x85 || code == 0xA0 || code == 0x1680 ||
    (0x2000 ≤ code && code ≤ 0x200A) || code == 0x2028 || code == 0x2029 || code == 0x202F ||
    code == 0x205F || code == 0x3000

/-- Removes from the end of a list the longest run that satisfies `p`. -/
def dropEndWhile {α : Type} (p : α → Bool) (xs : List α) : List α :=
  (xs.reverse.dropWhile p).reverse

/-- Removes from both ends of a list the longest runs that satisfy `p`. -/
def trimBy {α : Type} (p : α → Bool) (xs : List α) : List α :=
  dropEndWhile p (xs.dropWhile p)

/-- A text without the blanks at its ends. -/
def trim (text : String) : String :=
  String.ofList (trimBy isBlank text.toList)

/-- A trimmed text, if anything is left of it. -/
def trim? (text : String) : Option String :=
  let trimmed := trim text
  if trimmed = "" then none else some trimmed

/-- The pieces of a list between the occurrences of `sep`, of which there is always one more than
there are occurrences. -/
def pieces {α : Type} [DecidableEq α] (sep : α) : List α → List (List α)
  | [] => [[]]
  | x :: rest =>
    if x = sep then [] :: pieces sep rest
    else
      match pieces sep rest with
      | [] => [[x]]
      | first :: more => (x :: first) :: more

theorem pieces_ne_nil {α : Type} [DecidableEq α] (sep : α) (xs : List α) : pieces sep xs ≠ [] := by
  cases xs with
  | nil => simp [pieces]
  | cons x rest =>
    unfold pieces
    split
    · simp
    · split <;> simp

theorem intercalate_pieces {α : Type} [DecidableEq α] (sep : α) (xs : List α) :
    [sep].intercalate (pieces sep xs) = xs := by
  induction xs with
  | nil => simp [pieces]
  | cons x rest ih =>
    have hne := pieces_ne_nil sep rest
    unfold pieces
    split
    · rename_i h
      cases hp : pieces sep rest with
      | nil => exact absurd hp hne
      | cons first more => simp_all [List.intercalate, List.intersperse]
    · cases hp : pieces sep rest with
      | nil => exact absurd hp hne
      | cons first more => cases more <;> simp_all [List.intercalate, List.intersperse]

theorem not_mem_of_mem_pieces {α : Type} [DecidableEq α] {sep : α} {xs piece : List α}
    (h : piece ∈ pieces sep xs) : sep ∉ piece := by
  induction xs generalizing piece with
  | nil => simp_all [pieces]
  | cons x rest ih =>
    unfold pieces at h
    split at h
    · rcases List.mem_cons.1 h with rfl | h
      · exact List.not_mem_nil
      · exact ih h
    · rename_i hx
      split at h
      · simp_all [Ne.symm hx]
      · rename_i first more hp
        rcases List.mem_cons.1 h with rfl | h
        · have hfirst : sep ∉ first := ih (by simp [hp])
          simp [Ne.symm hx, hfirst]
        · exact ih (by simp [hp, h])

theorem pieces_of_not_mem {α : Type} [DecidableEq α] {sep : α} {xs : List α} (h : sep ∉ xs) :
    pieces sep xs = [xs] := by
  induction xs with
  | nil => rfl
  | cons x rest ih =>
    have hx : x ≠ sep := fun hx ↦ h (by simp [hx])
    have hrest : sep ∉ rest := fun hrest ↦ h (List.mem_cons_of_mem _ hrest)
    simp [pieces, hx, ih hrest]

theorem pieces_append_cons {α : Type} [DecidableEq α] {sep : α} {xs : List α} (h : sep ∉ xs)
    (rest : List α) : pieces sep (xs ++ sep :: rest) = xs :: pieces sep rest := by
  induction xs with
  | nil => simp [pieces]
  | cons x xs ih =>
    have hx : x ≠ sep := fun hx ↦ h (by simp [hx])
    have hxs : sep ∉ xs := fun hxs ↦ h (List.mem_cons_of_mem _ hxs)
    simp [pieces, hx, ih hxs]

theorem pieces_intercalate {α : Type} [DecidableEq α] {sep : α} {xss : List (List α)}
    (hne : xss ≠ []) (h : ∀ xs ∈ xss, sep ∉ xs) : pieces sep ([sep].intercalate xss) = xss := by
  induction xss with
  | nil => exact absurd rfl hne
  | cons xs rest ih =>
    have hxs : sep ∉ xs := h xs (by simp)
    cases rest with
    | nil => simpa using pieces_of_not_mem hxs
    | cons next more =>
      have hrest := ih (by simp) (fun ys hys ↦ h ys (List.mem_cons_of_mem _ hys))
      have hsplit : [sep].intercalate (xs :: next :: more) =
          xs ++ sep :: [sep].intercalate (next :: more) := by
        simp [List.intercalate, List.intersperse]
      rw [hsplit, pieces_append_cons hxs, hrest]

/-- The pieces of a text between the occurrences of a character. -/
def split (sep : Char) (text : String) : List String :=
  (pieces sep text.toList).map String.ofList

/-- The part of a list after the last occurrence of an element that satisfies `p`; the whole list
when there is none. -/
def afterLast {α : Type} (p : α → Bool) (xs : List α) : List α :=
  (xs.reverse.takeWhile (fun x ↦ !p x)).reverse

/-- The parts of a list before and after its last occurrence of `sep`. -/
def splitLast? {α : Type} [DecidableEq α] (sep : α) (xs : List α) : Option (List α × List α) :=
  match xs.reverse.dropWhile (· ≠ sep) with
  | [] => none
  | _ :: before => some (before.reverse, afterLast (· = sep) xs)

/-- Lower case for the Latin letters of ASCII; every other character stays as it is. -/
def lowercase (text : String) : String :=
  String.ofList (text.toList.map Char.toLower)

end Provenance.Text

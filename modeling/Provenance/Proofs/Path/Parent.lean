import Provenance.Path

/-!
# The path above a path

A path says where it starts and which steps it takes: the segments that name a component (`steps`).
The path above it starts alike and takes all of its steps but the last (`isAbsolute_of_parent?`,
`steps_of_parent?`), and is a beginning of its text (`isPrefix_of_parent?`).
-/

namespace Provenance

namespace Text

variable {α : Type}

theorem pieces_append [DecidableEq α] (sep : α) (xs ys : List α) :
    pieces sep (xs ++ sep :: ys) = pieces sep xs ++ pieces sep ys := by
  induction xs with
  | nil => simp [pieces]
  | cons x xs ih =>
    simp only [List.cons_append, pieces]
    split
    · rw [ih, List.cons_append]
    · rw [ih]
      cases hpieces : pieces sep xs with
      | nil => exact absurd hpieces (pieces_ne_nil sep xs)
      | cons first more => rfl

theorem intercalate_isPrefix {sep : List α} {xss yss : List (List α)} (h : xss <+: yss) :
    sep.intercalate xss <+: sep.intercalate yss := by
  obtain ⟨more, rfl⟩ := h
  induction xss with
  | nil => simp
  | cons xs rest ih =>
    cases rest with
    | nil =>
      cases more with
      | nil => exact List.prefix_rfl
      | cons ys more =>
        simp [List.intercalate_cons_cons]
    | cons next rest =>
      simp only [List.cons_append, List.intercalate_cons_cons] at ih ⊢
      exact (List.prefix_append_right_inj _).2 ih

end Text

namespace Path

variable {p d : Path}

/-- The segments that name a component. -/
def active (segments : List (List Char)) : List (List Char) :=
  segments.filter (fun segment ↦ !isIdle segment)

theorem active_append (before after : List (List Char)) :
    active (before ++ after) = active before ++ active after :=
  List.filter_append ..

theorem active_reverse (segments : List (List Char)) :
    active segments.reverse = (active segments).reverse :=
  List.filter_reverse

theorem active_cons_of_isIdle {segment : List Char} (h : isIdle segment)
    (rest : List (List Char)) : active (segment :: rest) = active rest :=
  List.filter_cons_of_neg (by simp [h])

theorem active_cons {segment : List Char} (h : isIdle segment = false)
    (rest : List (List Char)) : active (segment :: rest) = segment :: active rest :=
  List.filter_cons_of_pos (by simp [h])

theorem active_dropWhile (segments : List (List Char)) :
    active (segments.dropWhile isIdle) = active segments := by
  induction segments with
  | nil => rfl
  | cons segment rest ih =>
    cases hidle : isIdle segment with
    | true => rw [List.dropWhile_cons_of_pos hidle, ih, active_cons_of_isIdle hidle]
    | false => rw [List.dropWhile_cons_of_neg (by simp [hidle])]

/-- The steps that a path takes. -/
def steps (p : Path) : List (List Char) :=
  active (Text.pieces '/' p.text.toList)

theorem text_eq (p : Path) : p.text.toList = p.headAndBody.1.chars ++ p.headAndBody.2 := by
  unfold headAndBody
  split <;> simp_all [Head.chars]

theorem isAbsolute_iff (p : Path) : p.isAbsolute ↔ p.text.toList.head? = some '/' := by
  unfold isAbsolute headAndBody
  split
  · simp_all
  · simp_all
  · simp_all
  · rename_i hroot _ _
    cases htext : p.text.toList with
    | nil => simp
    | cons c rest =>
      have hc : c ≠ '/' := fun hc ↦ hroot rest (by rw [htext, hc])
      simp [hc]

/-- What a path starts with is no step. -/
theorem steps_eq_active_body (p : Path) :
    p.steps = active (Text.pieces '/' p.headAndBody.2) := by
  have hdot : isIdle ['.'] := rfl
  have hempty : isIdle [] := rfl
  unfold steps headAndBody
  split
  · rename_i body htext
    simp [htext, Text.pieces, active_cons_of_isIdle, hempty]
  · rename_i htext
    simp [htext, Text.pieces, active_cons_of_isIdle, hempty, hdot]
  · rename_i body htext
    simp [htext, Text.pieces, active_cons_of_isIdle, hempty, hdot]
  · rfl

/-- The body of a path that starts with `.` starts with a separator, if it is not empty. -/
theorem pieces_body_of_current (h : p.headAndBody.1 = .current) :
    ∃ rest, Text.pieces '/' p.headAndBody.2 = [] :: rest := by
  unfold headAndBody at h ⊢
  split at h
  · cases h
  · exact ⟨[], rfl⟩
  · rename_i body _
    exact ⟨Text.pieces '/' body, by simp [Text.pieces]⟩
  · cases h

theorem steps_eq_reverse (p : Path) : p.steps = (active p.reverseSegments).reverse := by
  rw [steps_eq_active_body, reverseSegments, active_dropWhile, active_reverse, List.reverse_reverse]

/-- The last segment that is left names a component. -/
theorem isIdle_of_reverseSegments {segment : List Char} {before : List (List Char)}
    (h : p.reverseSegments = segment :: before) : isIdle segment = false := by
  have hhead := List.head?_dropWhile_not isIdle (Text.pieces '/' p.headAndBody.2).reverse
  rw [← reverseSegments, h] at hhead
  exact hhead

theorem steps_of_reverseSegments {segment : List Char} {before : List (List Char)}
    (h : p.reverseSegments = segment :: before) :
    p.steps = (active before).reverse ++ [segment] := by
  rw [steps_eq_reverse, h, active_cons (isIdle_of_reverseSegments h), List.reverse_cons]

/-- The segments of the path above are the first of the path's own. -/
theorem isPrefix_of_reverseSegments {segment : List Char} {before : List (List Char)}
    (h : p.reverseSegments = segment :: before) :
    (before.dropWhile isIdle).reverse <+: Text.pieces '/' p.headAndBody.2 := by
  have hsuffix : before.dropWhile isIdle <:+ (Text.pieces '/' p.headAndBody.2).reverse := by
    refine (List.dropWhile_suffix _).trans ?_
    refine (List.suffix_cons segment before).trans ?_
    exact h ▸ List.dropWhile_suffix _
  exact List.reverse_suffix.1 (by simpa using hsuffix)

/-- How the path above is written. -/
theorem parent?_eq_some (h : p.parent? = some d) :
    (p.steps = [] ∧ p.headAndBody.1 = .current ∧ d.text.toList = []) ∨
      ∃ kept, kept <+: Text.pieces '/' p.headAndBody.2 ∧
        d.text.toList = p.headAndBody.1.chars ++ ['/'].intercalate kept ∧
        p.steps.dropLast = active kept := by
  unfold parent? at h
  dsimp only at h
  split at h
  · rename_i hsegments
    split at h
    · rename_i hcurrent
      cases h
      exact .inl ⟨by rw [steps_eq_reverse, hsegments]; rfl, hcurrent, rfl⟩
    · cases h
  · rename_i segment before hsegments
    cases h
    have hkept := isPrefix_of_reverseSegments hsegments
    refine .inr ⟨(before.dropWhile isIdle).reverse, hkept, String.toList_ofList .., ?_⟩
    rw [steps_of_reverseSegments hsegments, List.dropLast_concat, active_reverse, active_dropWhile]

theorem isPrefix_of_parent? (h : p.parent? = some d) : d.text.toList <+: p.text.toList := by
  rcases parent?_eq_some h with ⟨-, -, hd⟩ | ⟨kept, hkept, hd, -⟩
  · exact hd ▸ List.nil_prefix
  · have hbody : ['/'].intercalate kept <+: ['/'].intercalate (Text.pieces '/' p.headAndBody.2) :=
      Text.intercalate_isPrefix hkept
    rw [Text.intercalate_pieces] at hbody
    rw [hd, text_eq p, List.prefix_append_right_inj]
    exact hbody

theorem isAbsolute_of_parent? (h : p.parent? = some d) : d.isAbsolute = p.isAbsolute := by
  rw [Bool.eq_iff_iff]
  constructor
  · intro hd
    obtain ⟨rest, hrest⟩ := isPrefix_of_parent? h
    rw [isAbsolute_iff] at hd ⊢
    rw [← hrest, List.head?_append, hd]
    rfl
  · intro hp
    have hroot : p.headAndBody.1 = .root := of_decide_eq_true hp
    rcases parent?_eq_some h with ⟨-, hcurrent, -⟩ | ⟨kept, -, hd, -⟩
    · rw [hroot] at hcurrent
      cases hcurrent
    · rw [isAbsolute_iff, hd, hroot]
      rfl

theorem active_pieces_intercalate {segments : List (List Char)}
    (h : ∀ segment ∈ segments, '/' ∉ segment) :
    active (Text.pieces '/' (['/'].intercalate segments)) = active segments := by
  cases segments with
  | nil => rfl
  | cons segment rest => rw [Text.pieces_intercalate (List.cons_ne_nil _ _) h]

theorem steps_of_parent? (h : p.parent? = some d) : d.steps = p.steps.dropLast := by
  rcases parent?_eq_some h with ⟨hsteps, -, hd⟩ | ⟨kept, hkept, hd, hsteps⟩
  · rw [hsteps, steps, hd]
    rfl
  · have hsep : ∀ segment ∈ kept, '/' ∉ segment :=
      fun segment hmem ↦ Text.not_mem_of_mem_pieces (hkept.subset hmem)
    rw [hsteps, steps, hd]
    cases hhead : p.headAndBody.1 with
    | none => exact active_pieces_intercalate hsep
    | root =>
      change active (Text.pieces '/' ('/' :: _)) = _
      rw [Text.pieces, if_pos rfl, active_cons_of_isIdle rfl]
      exact active_pieces_intercalate hsep
    | current =>
      -- the first segment of the body is empty, so that the `.` stays a segment of its own
      obtain ⟨more, hmore⟩ := pieces_body_of_current hhead
      cases kept with
      | nil => rfl
      | cons first rest =>
        rw [hmore, List.cons_prefix_cons] at hkept
        obtain rfl := hkept.1
        cases rest with
        | nil => rfl
        | cons next rest =>
          rw [List.intercalate_cons_cons]
          change active (Text.pieces '/' (['.'] ++ '/' :: ['/'].intercalate (next :: rest))) = _
          rw [Text.pieces_append]
          exact active_pieces_intercalate (List.forall_mem_cons.1 hsep).2

theorem exists_parent? (h : p.steps ≠ []) : ∃ d, p.parent? = some d := by
  cases hsegments : p.reverseSegments with
  | nil => exact absurd (by rw [steps_eq_reverse, hsegments]; rfl) h
  | cons segment before => exact ⟨_, by simp only [parent?, hsegments]; rfl⟩

/-- A path with a file name takes a last step, by that name. -/
theorem steps_of_fileName? {name : String} (h : p.fileName? = some name) :
    ∃ before segment, p.steps = before ++ [segment] ∧
      Component.ofSegment? segment = some (.normal name) := by
  unfold fileName? at h
  split at h
  · rename_i segment before hsegments
    refine ⟨_, segment, steps_of_reverseSegments hsegments, ?_⟩
    split at h
    · rename_i hname
      cases h
      exact hname
    · cases h
  · cases h

end Path

end Provenance

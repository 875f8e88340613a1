import Mathlib.Data.List.TakeWhile
import Mathlib.Data.Set.List
import Provenance.Proofs.Path.Parent

/-!
# The components of paths

The components of a path are those that it starts with and those of its steps (`components_eq`). A
path with a relative path behind it takes the steps of both (`steps_join`), and with the name of an
entry behind it has this name as one more component (`components_join`). The file name is the last
component (`fileName?_eq_some_iff`), and the extension is what follows its last point
(`hasExtension_iff`).
-/

namespace Provenance

theorem Path.isAbsolute_eq_false {p : Path} (h : '/' ∉ p.text.toList) : p.isAbsolute = false := by
  rw [← Bool.not_eq_true, isAbsolute_iff]
  exact fun hhead ↦ h (List.mem_of_head? hhead)

theorem IsName.isAbsolute_eq_false {name : String} (h : IsName name) :
    (Path.mk name).isAbsolute = false :=
  Path.isAbsolute_eq_false h.2.2.2

theorem IsName.child_eq_join {name : String} (h : IsName name) (p : Path) :
    p.child name = p.join ⟨name⟩ :=
  (Path.join_eq_child h.isAbsolute_eq_false).symm

/-- A segment that names a component goes up or names an entry. -/
theorem Component.eq_of_ofSegment? {segment : List Char} {c : Component}
    (h : ofSegment? segment = some c) : c = .parent ∨ c = .normal (String.ofList segment) := by
  unfold ofSegment? at h
  split at h
  · cases h
  · split at h <;> cases h
    · exact .inl rfl
    · exact .inr rfl

namespace Path

variable {p q : Path} {name : String}

/-- What the paths of a folder's entries begin with. -/
def opening (p : Path) : List Char :=
  if p.text = "" ∨ p.text.toList.getLast? = some '/' then p.text.toList else p.text.toList ++ ['/']

theorem toList_join (h : q.isAbsolute = false) (p : Path) :
    (p.join q).text.toList = p.opening ++ q.text.toList := by
  rw [join_eq_child h, child, opening]
  split <;> simp

theorem opening_eq (p : Path) : p.opening = [] ∨ ∃ before, p.opening = before ++ ['/'] := by
  unfold opening
  split
  · rename_i hend
    rcases hend with hempty | hslash
    · exact .inl (by simp [hempty])
    · exact .inr (List.getLast?_eq_some_iff.1 hslash)
  · exact .inr ⟨_, rfl⟩

/-! ## Components -/

theorem filterMap_active (segments : List (List Char)) :
    (active segments).filterMap Component.ofSegment? = segments.filterMap Component.ofSegment? := by
  induction segments with
  | nil => rfl
  | cons segment rest ih =>
    cases hidle : isIdle segment with
    | true =>
      have hnone : Component.ofSegment? segment = none := Option.isNone_iff_eq_none.1 hidle
      rw [active_cons_of_isIdle hidle, ih, List.filterMap_cons_none hnone]
    | false => rw [active_cons hidle, List.filterMap_cons, List.filterMap_cons, ih]

theorem components_eq (p : Path) :
    p.components = p.headAndBody.1.components ++ p.steps.filterMap Component.ofSegment? := by
  rw [steps_eq_active_body, filterMap_active]
  rfl

/-- A path that takes no detour: it does not start with `.` and goes up nowhere. -/
def IsDirect (p : Path) : Prop :=
  .current ∉ p.components ∧ .parent ∉ p.components

/-- A path without detours is the root, if it starts there, and then names. -/
theorem IsDirect.exists_names (h : p.IsDirect) : ∃ names : List String,
    p.components = (if p.isAbsolute then [.root] else []) ++ names.map .normal := by
  obtain ⟨hcurrent, hparent⟩ := h
  rw [components_eq] at hcurrent hparent ⊢
  have hsteps : p.steps.filterMap Component.ofSegment? ∈ Set.range (List.map .normal) := by
    rw [Set.range_list_map]
    intro c hc
    obtain ⟨segment, -, hsegment⟩ := List.mem_filterMap.1 hc
    rcases Component.eq_of_ofSegment? hsegment with rfl | rfl
    · exact absurd (List.mem_append_right _ hc) hparent
    · exact ⟨_, rfl⟩
  obtain ⟨names, hnames⟩ := hsteps
  refine ⟨names, ?_⟩
  rw [hnames, isAbsolute]
  cases hhead : p.headAndBody.1 with
  | current => simp [hhead, Head.components] at hcurrent
  | _ => rfl

/-- The separator that a path gets before a name makes no step. -/
theorem steps_eq_active_opening (p : Path) : p.steps = active (Text.pieces '/' p.opening) := by
  unfold opening
  split
  · rfl
  · rw [Text.pieces_append, active_append]
    exact (List.append_nil _).symm

theorem steps_join (h : q.isAbsolute = false) (p : Path) : (p.join q).steps = p.steps ++ q.steps := by
  rw [steps, toList_join h, steps_eq_active_opening p]
  rcases p.opening_eq with hopening | ⟨before, hopening⟩
  · rw [hopening]
    rfl
  · have hslash : active (Text.pieces '/' []) = [] := rfl
    rw [hopening, List.append_assoc, List.singleton_append, Text.pieces_append, Text.pieces_append,
      active_append, active_append, hslash, List.append_nil]
    rfl

/-- What a path starts with does not depend on what is put behind it. -/
theorem head_join (hp : p.text ≠ "") (hq : q.isAbsolute = false) :
    (p.join q).headAndBody.1 = p.headAndBody.1 := by
  obtain ⟨more, hmore, hsep⟩ : ∃ more, (p.join q).text.toList = p.text.toList ++ more ∧
      (p.text.toList.getLast? = some '/' ∨ ∃ name, more = '/' :: name) := by
    rw [toList_join hq, opening]
    split
    · rename_i hend
      exact ⟨_, rfl, .inl (hend.resolve_left hp)⟩
    · exact ⟨_, List.append_assoc .., .inr ⟨_, rfl⟩⟩
  obtain ⟨c, rest, htext⟩ : ∃ c rest, p.text.toList = c :: rest :=
    List.exists_cons_of_ne_nil fun hnil ↦ hp (String.toList_inj.1 hnil)
  unfold headAndBody
  rw [hmore, htext]
  rw [htext] at hsep
  by_cases hroot : c = '/'
  · simp [hroot]
  by_cases hdot : c = '.'
  · subst hdot
    -- a `.` alone does not end in a separator, so that one follows
    cases rest with
    | nil =>
      obtain ⟨name, rfl⟩ := hsep.resolve_left (by simp)
      rfl
    | cons d rest => by_cases hslash : d = '/' <;> simp [hslash]
  · simp [hroot, hdot]

/-- The name of an entry is a path of one step. -/
theorem components_name (h : IsName name) : (Path.mk name).components = [.normal name] := by
  have hhead : (Path.mk name).headAndBody = (.none, name.toList) := by
    obtain ⟨-, hdot, -, hsep⟩ := h
    unfold headAndBody
    split
    · rename_i htext
      exact absurd (htext ▸ List.mem_cons_self) hsep
    · rename_i htext
      exact absurd (String.toList_inj.1 htext) hdot
    · rename_i htext
      exact absurd (htext ▸ List.mem_cons_of_mem _ List.mem_cons_self) hsep
    · rfl
  simp [components, hhead, Text.pieces_of_not_mem h.2.2.2, Component.ofSegment?_toList h,
    Head.components]

/-- The name of an entry is one more component. -/
theorem components_join (h : IsName name) (p : Path) :
    (p.join ⟨name⟩).components = p.components ++ [.normal name] := by
  have hrelative := h.isAbsolute_eq_false
  by_cases hp : p.text = ""
  · obtain ⟨text⟩ := p
    obtain rfl : text = "" := hp
    rw [show (Path.mk "").join ⟨name⟩ = ⟨name⟩ by simp [join, child, hrelative], components_name h]
    rfl
  · have hsteps : (Path.mk name).steps = [name.toList] := by
      simp [steps, Text.pieces_of_not_mem h.2.2.2, active, isIdle, Component.ofSegment?_toList h]
    rw [components_eq, components_eq, head_join hp hrelative, steps_join hrelative, hsteps,
      List.filterMap_append, List.append_assoc]
    simp [Component.ofSegment?_toList h]

/-- The file name is the last component, if that is a name. -/
theorem fileName?_eq_some_iff : p.fileName? = some name ↔
    p.components.getLast? = some (.normal name) := by
  cases hsegments : p.reverseSegments with
  | nil =>
    have hsteps : p.steps = [] := by
      rw [steps_eq_reverse, hsegments]
      rfl
    rw [components_eq, hsteps]
    cases p.headAndBody.1 <;> simp [fileName?, hsegments, Head.components]
  | cons segment before =>
    obtain ⟨c, hc⟩ : ∃ c, Component.ofSegment? segment = some c := by
      have hidle := isIdle_of_reverseSegments hsegments
      exact Option.isSome_iff_exists.1 (by simpa [isIdle] using hidle)
    rw [components_eq, steps_of_reverseSegments hsegments, List.filterMap_append, ← List.append_assoc]
    cases c <;> simp [fileName?, hsegments, hc]

/-! ## Extensions -/

theorem splitLast?_eq_some_iff {α : Type} [DecidableEq α] {sep : α} {xs before after : List α} :
    Text.splitLast? sep xs = some (before, after) ↔ xs = before ++ sep :: after ∧ sep ∉ after := by
  have hlast : Text.afterLast (· = sep) xs = (xs.reverse.takeWhile (· ≠ sep)).reverse := by
    simp [Text.afterLast]
  have hsplit : xs.reverse.takeWhile (· ≠ sep) ++ xs.reverse.dropWhile (· ≠ sep) = xs.reverse :=
    List.takeWhile_append_dropWhile
  constructor
  · intro h
    unfold Text.splitLast? at h
    split at h
    · cases h
    · rename_i c rest hdrop
      cases h
      have hc : c = sep := by
        have hhead := List.head?_dropWhile_not (· ≠ sep) xs.reverse
        rw [hdrop] at hhead
        simpa using hhead
      rw [hdrop, hc] at hsplit
      refine ⟨?_, ?_⟩
      · rw [← List.reverse_inj, ← hsplit, hlast]
        simp
      · rw [hlast, List.mem_reverse]
        intro hmem
        simpa using List.mem_takeWhile_imp hmem
  · rintro ⟨rfl, hafter⟩
    have hne : ∀ c ∈ after.reverse, decide (c ≠ sep) = true := fun c hc ↦
      decide_eq_true fun heq ↦ hafter (heq ▸ List.mem_reverse.1 hc)
    have hreverse : (before ++ sep :: after).reverse = after.reverse ++ sep :: before.reverse := by
      simp
    have hdrop : (before ++ sep :: after).reverse.dropWhile (· ≠ sep) = sep :: before.reverse := by
      rw [hreverse, List.dropWhile_append_of_pos hne]
      simp
    rw [hreverse, List.takeWhile_append_of_pos hne] at hlast
    rw [Text.splitLast?, hdrop, hlast]
    simp

/-- What follows the last point of a name, if anything comes before that point. -/
theorem splitName_eq_some_iff {name extension : String} : (splitName name).2 = some extension ↔
    ∃ stem, stem ≠ "" ∧ name = stem ++ "." ++ extension ∧ '.' ∉ extension.toList := by
  have hpoint : ".".toList = ['.'] := rfl
  constructor
  · intro h
    unfold splitName at h
    split at h
    · rename_i c stem after hsplit
      obtain ⟨hname, hafter⟩ := splitLast?_eq_some_iff.1 hsplit
      cases h
      refine ⟨String.ofList (c :: stem), by simp, ?_, by simpa using hafter⟩
      rw [← String.toList_inj, hname]
      simp [hpoint]
    · cases h
  · rintro ⟨stem, hstem, rfl, hextension⟩
    obtain ⟨c, rest, hcons⟩ : ∃ c rest, stem.toList = c :: rest :=
      List.exists_cons_of_ne_nil fun hnil ↦ hstem (String.toList_inj.1 hnil)
    have hsplit : Text.splitLast? '.' (stem ++ "." ++ extension).toList =
        some (c :: rest, extension.toList) :=
      splitLast?_eq_some_iff.2 ⟨by simp [hpoint, hcons], hextension⟩
    rw [splitName, hsplit]
    simp

theorem hasExtension_iff {extensions : List String} (hempty : "" ∉ extensions) :
    p.hasExtension extensions ↔ ∃ name extension, p.fileName? = some name ∧
      (splitName name).2 = some extension ∧ Text.lowercase extension ∈ extensions := by
  have hnone : Text.lowercase "" ∉ extensions := hempty
  unfold hasExtension extension?
  cases p.fileName? with
  | none => simpa using hnone
  | some name =>
    cases hname : (splitName name).2 with
    | none => simpa [hname] using hnone
    | some extension => simp [hname]

end Path

end Provenance

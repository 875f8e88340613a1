import Provenance.FileSystem
import Provenance.Proofs.Path.Parent

/-!
# Where paths lead

`lead` is the place in the tree that a path leads to, however long the path is; the empty path leads
to the folder that relative paths start from. A joined path leads on from where its left side leads
(`lead_join`). A folder is reached by the steps of a path alone (`lead_eq_ok_iff`), so the path
above leads to the folder above wherever the last step is by a name: above a file
(`lead_directory`), and above a folder whose path ends in a name (`exists_lead_parent?`).
-/

namespace Provenance.FileSystem

variable {fs : FileSystem} {p q d : Path} {names after : List String}

/-- Where a path leads in the tree. -/
def lead (fs : FileSystem) (p : Path) : Except FileError (List String) :=
  fs.walk (Text.pieces '/' p.text.toList) (fs.start p)

/-- Whether names lead to a folder. -/
def IsFolderAt (fs : FileSystem) (names : List String) : Prop :=
  ∃ entries, fs.entry? names = some (.folder entries)

theorem unusable?_eq_none_iff (p : Path) : unusable? p = none ↔
    '\x00' ∉ p.text.toList ∧ p.text ≠ "" ∧ p.text.utf8ByteSize ≤ maxPathBytes := by
  unfold unusable?
  split
  · simp_all
  · split
    · simp_all
    · split <;> simp_all

theorem lookup_eq_ok_iff {entry : Entry} : fs.lookup p = .ok entry ↔
    unusable? p = none ∧ ∃ names, fs.lead p = .ok names ∧ fs.entry? names = some entry := by
  unfold lookup locate
  rw [← lead]
  cases unusable? p with
  | some e => simp
  | none =>
    cases fs.lead p with
    | error e => simp
    | ok names => cases hentry : fs.entry? names <;> simp [hentry]

theorem isFolder_iff_lookup : fs.isFolder p ↔ ∃ entries, fs.lookup p = .ok (.folder entries) := by
  unfold isFolder
  split <;> simp_all

theorem isFile_iff_lookup : fs.isFile p ↔ ∃ content, fs.lookup p = .ok (.file content) := by
  unfold isFile
  split <;> simp_all

/-- A file is where its path leads, if the path can be used. -/
theorem isFile_iff : fs.isFile p ↔ unusable? p = none ∧
    ∃ names content, fs.lead p = .ok names ∧ fs.entry? names = some (.file content) := by
  simp only [isFile_iff_lookup, lookup_eq_ok_iff]
  constructor
  · rintro ⟨content, husable, names, hlead, hentry⟩
    exact ⟨husable, names, content, hlead, hentry⟩
  · rintro ⟨husable, names, content, hlead, hentry⟩
    exact ⟨content, husable, names, hlead, hentry⟩

theorem locate_of_lead (hfile : fs.isFile p) (hlead : fs.lead p = .ok names) :
    fs.locate p = .ok names := by
  rw [locate, (isFile_iff.1 hfile).1]
  exact hlead

theorem canonical_of_lead (hfile : fs.isFile p) (hlead : fs.lead p = .ok names) :
    fs.canonical p = absolute names := by
  obtain ⟨-, names', content, hlead', hentry⟩ := isFile_iff.1 hfile
  obtain rfl : names' = names := by simpa [hlead'] using hlead
  simp [canonical, canonical?, locate_of_lead hfile hlead, hentry]

/-! ## Walks -/

theorem walk_append (xs ys : List (List Char)) (names : List String) :
    fs.walk (xs ++ ys) names = (fs.walk xs names).bind (fs.walk ys) := by
  induction xs generalizing names with
  | nil => rfl
  | cons segment rest ih =>
    simp only [List.cons_append, walk]
    cases fs.step names segment with
    | error e => rfl
    | ok next => exact ih next

theorem exists_of_walk_concat {before : List (List Char)} {segment : List Char}
    (h : fs.walk (before ++ [segment]) names = .ok after) :
    ∃ place, fs.walk before names = .ok place ∧ fs.step place segment = .ok after := by
  rw [walk_append] at h
  cases hbefore : fs.walk before names with
  | error e => simp [hbefore, Except.bind] at h
  | ok place =>
    refine ⟨place, rfl, ?_⟩
    cases hstep : fs.step place segment with
    | error e => simp [hbefore, Except.bind, walk, hstep] at h
    | ok next => simpa [hbefore, Except.bind, walk, hstep] using h

theorem isFolderAt_of_step {segment : List Char} (h : fs.step names segment = .ok after) :
    fs.IsFolderAt names := by
  unfold step at h
  split at h
  · cases h
  · cases h
  · rename_i entries hentry
    exact ⟨entries, hentry⟩

/-- A segment that names no component leads nowhere else, and only folders can be left by it. -/
theorem step_of_isIdle {segment : List Char} (h : Path.isIdle segment)
    (hfolder : fs.IsFolderAt names) : fs.step names segment = .ok names := by
  obtain ⟨entries, hentry⟩ := hfolder
  have hnone : Component.ofSegment? segment = none := Option.isNone_iff_eq_none.1 h
  simp [step, hentry, hnone]

theorem eq_of_step_of_isIdle {segment : List Char} (h : Path.isIdle segment)
    (hstep : fs.step names segment = .ok after) : after = names := by
  rw [step_of_isIdle h (isFolderAt_of_step hstep)] at hstep
  exact (Except.ok.inj hstep).symm

theorem isFolderAt_of_walk {segments : List (List Char)} (h : fs.walk segments names = .ok after)
    (hafter : fs.IsFolderAt after) : fs.IsFolderAt names := by
  cases segments with
  | nil =>
    cases h
    exact hafter
  | cons segment rest =>
    unfold walk at h
    split at h
    · cases h
    · exact isFolderAt_of_step ‹_›

/-- A folder is reached by the segments that name a component alone. -/
theorem walk_active_iff {segments : List (List Char)} (hafter : fs.IsFolderAt after) :
    fs.walk (Path.active segments) names = .ok after ↔ fs.walk segments names = .ok after := by
  induction segments generalizing names with
  | nil => rfl
  | cons segment rest ih =>
    cases hidle : Path.isIdle segment with
    | true =>
      rw [Path.active_cons_of_isIdle hidle, ih, walk]
      constructor
      · intro hrest
        rw [step_of_isIdle hidle (isFolderAt_of_walk hrest hafter)]
        exact hrest
      · intro h
        cases hstep : fs.step names segment with
        | error e => simp [hstep] at h
        | ok next =>
          obtain rfl := eq_of_step_of_isIdle hidle hstep
          simpa [hstep] using h
    | false =>
      rw [Path.active_cons hidle, walk, walk]
      cases fs.step names segment with
      | error e => rfl
      | ok next => exact ih

theorem lead_eq_ok_iff (hafter : fs.IsFolderAt after) :
    fs.lead p = .ok after ↔ fs.walk p.steps (fs.start p) = .ok after :=
  (walk_active_iff hafter).symm

/-- An empty segment before others changes nothing, not even what goes wrong. -/
theorem walk_nil_cons {segments : List (List Char)} (h : segments ≠ []) (names : List String) :
    fs.walk ([] :: segments) names = fs.walk segments names := by
  obtain ⟨segment, rest, rfl⟩ := List.exists_cons_of_ne_nil h
  cases hentry : fs.entry? names with
  | none => simp [walk, step, hentry]
  | some entry =>
    cases entry with
    | file content => simp [walk, step, hentry]
    | folder entries =>
      rw [walk, step_of_isIdle rfl ⟨entries, hentry⟩]

/-! ## Joined paths -/

theorem isAbsolute_join (h : q.isAbsolute = false) (p : Path) :
    (p.join q).isAbsolute = p.isAbsolute := by
  rw [Path.join_eq_child h, Path.child, Bool.eq_iff_iff]
  by_cases hempty : p.text = ""
  · obtain ⟨text⟩ := p
    obtain rfl : text = "" := hempty
    simpa [h] using show (Path.mk "").isAbsolute = false from rfl
  · obtain ⟨c, rest, hp⟩ : ∃ c rest, p.text.toList = c :: rest := by
      cases hp : p.text.toList with
      | nil => exact absurd (String.toList_inj.1 hp) hempty
      | cons c rest => exact ⟨c, rest, rfl⟩
    split <;> simp [Path.isAbsolute_iff, hp]

/-- A joined path leads on from where its left side leads. -/
theorem lead_join (h : q.isAbsolute = false) (p : Path) :
    fs.lead (p.join q) = (fs.lead p).bind (fs.walk (Text.pieces '/' q.text.toList)) := by
  have hstart : fs.start (p.join q) = fs.start p := by
    rw [start, start, isAbsolute_join h]
  rw [lead, hstart, lead, ← walk_append, Path.join_eq_child h, Path.child]
  have hne := Text.pieces_ne_nil '/' q.text.toList
  split
  · rename_i hend
    rcases hend with hempty | hslash
    · rw [hempty]
      simpa [Text.pieces] using (walk_nil_cons hne _).symm
    · obtain ⟨front, hfront⟩ := List.getLast?_eq_some_iff.1 hslash
      simp only [String.toList_append, hfront, List.append_assoc, List.singleton_append,
        Text.pieces_append]
      rw [walk_append, walk_append]
      congr 1
      funext names
      exact (walk_nil_cons hne names).symm
  · have hslash : "/".toList = ['/'] := rfl
    simp only [String.toList_append, hslash, List.append_assoc, List.singleton_append,
      Text.pieces_append]

/-! ## The folder above -/

theorem find?_append (xs ys : List String) (entry : Entry) :
    entry.find? (xs ++ ys) = (entry.find? xs).bind (Entry.find? ys) := by
  induction xs generalizing entry with
  | nil => rfl
  | cons name rest ih =>
    cases entry with
    | file content => rfl
    | folder entries =>
      simp only [List.cons_append, Entry.find?]
      cases Table.find? name entries with
      | none => rfl
      | some inner => exact ih inner

theorem isFolderAt_dropLast (h : fs.IsFolderAt names) : fs.IsFolderAt names.dropLast := by
  obtain ⟨entries, hentry⟩ := h
  rcases List.eq_nil_or_concat names with rfl | ⟨above, name, rfl⟩
  · exact ⟨entries, hentry⟩
  · rw [ entry?, List.concat_eq_append, find?_append] at hentry
    obtain ⟨entry, habove, hinner⟩ := Option.bind_eq_some_iff.1 hentry
    rw [List.concat_eq_append, List.dropLast_concat]
    cases entry with
    | file content => cases hinner
    | folder entries => exact ⟨entries, habove⟩

/-- A step by a name leads to an entry of the folder that it starts from. -/
theorem eq_concat_of_step {segment : List Char} {name : String}
    (hname : Component.ofSegment? segment = some (.normal name))
    (h : fs.step names segment = .ok after) : after = names ++ [name] := by
  unfold step at h
  rw [hname] at h
  dsimp only at h
  split at h
  · cases h
  · cases h
  · split at h
    · cases h
    · split at h
      · exact (Except.ok.inj h).symm
      · cases h

/-- Only a step by a name leads to a file. -/
theorem exists_name_of_step {segment : List Char} {content : ByteArray}
    (h : fs.step names segment = .ok after) (hafter : fs.entry? after = some (.file content)) :
    ∃ name, Component.ofSegment? segment = some (.normal name) := by
  have hfolder := isFolderAt_of_step h
  have hne {place : List String} (hplace : fs.IsFolderAt place) : after ≠ place := by
    rintro rfl
    obtain ⟨entries, hentry⟩ := hplace
    rw [hafter] at hentry
    cases hentry
  obtain ⟨entries, hentry⟩ := hfolder
  unfold step at h
  rw [hentry] at h
  dsimp only at h
  split at h
  · exact absurd (Except.ok.inj h).symm (hne ⟨entries, hentry⟩)
  · exact ⟨_, ‹_›⟩
  · exact absurd (Except.ok.inj h).symm (hne (isFolderAt_dropLast ⟨entries, hentry⟩))

/-- The empty path leads to no file. -/
theorem text_ne_of_lead {names : List String} {content : ByteArray} (hlead : fs.lead p = .ok names)
    (hentry : fs.entry? names = some (.file content)) : p.text ≠ "" := by
  intro hempty
  have hsegments : Text.pieces '/' p.text.toList = [] ++ [[]] := by rw [hempty]; rfl
  rw [lead, hsegments] at hlead
  obtain ⟨place, -, hstep⟩ := exists_of_walk_concat hlead
  obtain ⟨name, hname⟩ := exists_name_of_step hstep hentry
  cases hname

/-- A file is where its path leads, unless the path is too long or has a NUL. -/
theorem isFile_iff_of_le (hlength : p.text.utf8ByteSize ≤ maxPathBytes) :
    fs.isFile p ↔ '\x00' ∉ p.text.toList ∧
      ∃ names content, fs.lead p = .ok names ∧ fs.entry? names = some (.file content) := by
  rw [isFile_iff, unusable?_eq_none_iff]
  constructor
  · rintro ⟨⟨hnul, -, -⟩, hfile⟩
    exact ⟨hnul, hfile⟩
  · rintro ⟨hnul, names, content, hlead, hentry⟩
    exact ⟨⟨hnul, text_ne_of_lead hlead hentry, hlength⟩, names, content, hlead, hentry⟩

theorem start_of_parent? (h : p.parent? = some d) : fs.start d = fs.start p := by
  rw [start, start, Path.isAbsolute_of_parent? h]

/-- Where a path's last step starts is where the path above leads. -/
theorem lead_of_parent? {before : List (List Char)} {segment : List Char}
    (hparent : p.parent? = some d) (hsteps : p.steps = before ++ [segment])
    (hbefore : fs.walk before (fs.start p) = .ok after) (hafter : fs.IsFolderAt after) :
    fs.lead d = .ok after := by
  rw [lead_eq_ok_iff hafter, Path.steps_of_parent? hparent, hsteps, List.dropLast_concat,
    start_of_parent? hparent]
  exact hbefore

/-- The directory of a file leads to the folder that the file lies in. -/
theorem lead_directory (hfile : fs.isFile p) (hlead : fs.lead p = .ok names) :
    fs.lead p.directory = .ok names.dropLast ∧ fs.IsFolderAt names.dropLast ∧
      ∃ d, p.parent? = some d := by
  obtain ⟨-, names', content, hlead', hentry⟩ := isFile_iff.1 hfile
  obtain rfl : names' = names := by simpa [hlead'] using hlead
  -- the last segment of the path is the last step, by the name of the file
  obtain ⟨before, segment, hpieces⟩ : ∃ before segment,
      Text.pieces '/' p.text.toList = before ++ [segment] :=
    ⟨_, _, (List.dropLast_concat_getLast (Text.pieces_ne_nil '/' _)).symm⟩
  rw [lead, hpieces] at hlead
  obtain ⟨place, hbefore, hlast⟩ := exists_of_walk_concat hlead
  obtain ⟨name, hname⟩ := exists_name_of_step hlast hentry
  have hfolder := isFolderAt_of_step hlast
  have hsteps : p.steps = Path.active before ++ [segment] := by
    rw [Path.steps, hpieces, Path.active_append, Path.active_cons (by simp [Path.isIdle, hname])]
    rfl
  obtain ⟨d, hd⟩ := Path.exists_parent? (p := p) (by simp [hsteps])
  rw [eq_concat_of_step hname hlast, List.dropLast_concat, Path.directory, hd, Option.getD_some]
  exact ⟨lead_of_parent? hd hsteps ((walk_active_iff hfolder).2 hbefore) hfolder, hfolder, d, rfl⟩

/-- Where the path of a folder ends in a name, the path above leads to the folder above. -/
theorem exists_lead_parent? {name : String} (hname : d.fileName? = some name)
    (hlead : fs.lead d = .ok names) (hfolder : fs.IsFolderAt names) :
    ∃ above, d.parent? = some above ∧ fs.lead above = .ok names.dropLast := by
  obtain ⟨before, segment, hsteps, hsegment⟩ := Path.steps_of_fileName? hname
  obtain ⟨above, habove⟩ := Path.exists_parent? (p := d) (by simp [hsteps])
  rw [lead_eq_ok_iff hfolder, hsteps] at hlead
  obtain ⟨place, hbefore, hlast⟩ := exists_of_walk_concat hlead
  rw [eq_concat_of_step hsegment hlast, List.dropLast_concat]
  exact ⟨above, habove, lead_of_parent? habove hsteps hbefore (isFolderAt_of_step hlast)⟩

end Provenance.FileSystem

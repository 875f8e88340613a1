import Provenance.Proofs.FileSystem.Leading
import Provenance.Proofs.FileSystem.Listing
import Provenance.Proofs.Path.Components

/-!
# Paths below folders

Where a path leads, if it leads anywhere, can be read off its components (`eq_follow_of_lead`), so
that paths with the same components do not lead to different places (`eq_of_lead_of_beq`). A path
with names behind it leads on by these names (`lead_below`), which come behind its components
(`components_below`). The files that are listed below a folder are those to which names lead from its
place (`mem_filesBelow_iff_isFileAt`), and where all names are such as entries can have, these names
behind the path of the folder denote them (`WellNamed.denotes_below`).
-/

namespace Provenance

/-- Where a component leads to, if nothing but names is looked at. -/
def Component.follow : List String → Component → List String
  | _, .root => []
  | names, .current => names
  | names, .parent => names.dropLast
  | names, .normal name => names ++ [name]

theorem Component.foldl_follow_normal (rest names : List String) :
    (rest.map normal).foldl follow names = names ++ rest := by
  induction rest generalizing names with
  | nil => simp
  | cons name rest ih => simp [follow, ih]

namespace FileSystem

variable {fs : FileSystem} {p q : Path} {names after rest : List String}

/-- Whether names lead to a file. -/
def IsFileAt (fs : FileSystem) (names : List String) : Prop :=
  ∃ content, fs.entry? names = some (.file content)

/-- A path leads to the file at a place, however long the path is. -/
structure Denotes (fs : FileSystem) (p : Path) (place : List String) : Prop where
  lead : fs.lead p = .ok place
  isFileAt : fs.IsFileAt place

/-- A name that an entry of a folder can have. -/
structure IsEntryName (name : String) : Prop where
  isName : IsName name
  nul : '\x00' ∉ name.toList
  short : name.utf8ByteSize ≤ maxNameBytes

instance : DecidablePred IsEntryName := fun name ↦
  decidable_of_iff (IsName name ∧ '\x00' ∉ name.toList ∧ name.utf8ByteSize ≤ maxNameBytes)
    ⟨fun h ↦ ⟨h.1, h.2.1, h.2.2⟩, fun h ↦ ⟨h.isName, h.nul, h.short⟩⟩

/-- Files are only where names lead to that the entries of folders can have. -/
def WellNamed (fs : FileSystem) : Prop :=
  ∀ names ∈ fs.root.files, ∀ name ∈ names, IsEntryName name

instance (fs : FileSystem) : Decidable fs.WellNamed :=
  inferInstanceAs (Decidable (∀ names ∈ fs.root.files, ∀ name ∈ names, IsEntryName name))

/-! ## Where components lead -/

theorem eq_follow_of_step {segment : List Char} (h : fs.step names segment = .ok after) :
    after = (Component.ofSegment? segment).toList.foldl Component.follow names := by
  cases hsegment : Component.ofSegment? segment with
  | none => exact eq_of_step_of_isIdle (by simp [Path.isIdle, hsegment]) h
  | some component =>
    rcases Component.eq_of_ofSegment? hsegment with rfl | rfl
    · obtain ⟨entries, hentry⟩ := isFolderAt_of_step h
      simpa [step, hentry, hsegment, Component.follow] using h.symm
    · exact eq_concat_of_step hsegment h

theorem eq_follow_of_walk {segments : List (List Char)} (h : fs.walk segments names = .ok after) :
    after = (segments.filterMap Component.ofSegment?).foldl Component.follow names := by
  induction segments generalizing names with
  | nil => exact (Except.ok.inj h).symm
  | cons segment segments ih =>
    unfold walk at h
    split at h
    · cases h
    · rename_i next hstep
      rw [ih h, eq_follow_of_step hstep, List.filterMap_cons]
      cases Component.ofSegment? segment <;> rfl

theorem start_eq_follow (fs : FileSystem) (p : Path) :
    fs.start p = p.headAndBody.1.components.foldl Component.follow fs.workingFolder := by
  unfold start Path.isAbsolute
  cases p.headAndBody.1 <;> rfl

/-- A path that leads somewhere leads where its components do. -/
theorem eq_follow_of_lead (h : fs.lead p = .ok names) :
    names = p.components.foldl Component.follow fs.workingFolder := by
  rw [Path.components_eq, List.foldl_append, ← start_eq_follow, Path.steps, Path.filterMap_active]
  exact eq_follow_of_walk h

/-- Paths that name the same components do not lead to different places. -/
theorem eq_of_lead_of_beq (h : p == q) (hp : fs.lead p = .ok names) (hq : fs.lead q = .ok after) :
    names = after := by
  rw [eq_follow_of_lead hp, eq_follow_of_lead hq, (Path.beq_iff p q).1 h]

/-! ## Names behind a path -/

theorem below_cons {name : String} (h : IsName name) (p : Path) (rest : List String) :
    below p (name :: rest) = below (p.join ⟨name⟩) rest := by
  rw [below, List.foldl_cons, h.child_eq_join, below]

theorem components_below (h : ∀ name ∈ rest, IsName name) (p : Path) :
    (below p rest).components = p.components ++ rest.map .normal := by
  induction rest generalizing p with
  | nil => simp [below]
  | cons name rest ih =>
    obtain ⟨hname, hrest⟩ := List.forall_mem_cons.1 h
    rw [below_cons hname, ih hrest, Path.components_join hname, List.append_assoc]
    rfl

/-- The file name of a path with names behind it is the last of them. -/
theorem fileName?_below {name : String} (h : ∀ name ∈ rest, IsName name)
    (hlast : rest.getLast? = some name) (p : Path) : (below p rest).fileName? = some name := by
  rw [Path.fileName?_eq_some_iff, components_below h, List.getLast?_append, List.getLast?_map, hlast]
  rfl

theorem not_nul_mem_below (h : ∀ name ∈ rest, IsEntryName name) (hp : '\x00' ∉ p.text.toList) :
    '\x00' ∉ (below p rest).text.toList := by
  induction rest generalizing p with
  | nil => exact hp
  | cons name rest ih =>
    obtain ⟨hname, hrest⟩ := List.forall_mem_cons.1 h
    rw [below_cons hname.isName]
    refine ih hrest ?_
    rw [Path.toList_join hname.isName.isAbsolute_eq_false, Path.opening]
    split <;> simp [hp, hname.nul]

theorem lead_below (h : ∀ name ∈ rest, IsName name) (p : Path) :
    fs.lead (below p rest) = (fs.lead p).bind (fs.walk (rest.map String.toList)) := by
  induction rest generalizing p with
  | nil => cases hp : fs.lead p <;> simp [below, hp, walk, Except.bind]
  | cons name rest ih =>
    obtain ⟨hname, hrest⟩ := List.forall_mem_cons.1 h
    rw [below_cons hname, ih hrest, lead_join hname.isAbsolute_eq_false,
      Text.pieces_of_not_mem hname.2.2.2]
    cases fs.lead p with
    | error e => rfl
    | ok names => exact (walk_append [name.toList] _ names).symm

/-- The names that lead to an entry are steps that lead there. -/
theorem step_name {name : String} {entry : Entry} (hname : IsEntryName name)
    (h : fs.entry? (names ++ name :: rest) = some entry) :
    fs.step names name.toList = .ok (names ++ [name]) := by
  rw [ entry?, find?_append] at h
  obtain ⟨inner, hinner, hrest⟩ := Option.bind_eq_some_iff.1 h
  cases inner with
  | file content => cases hrest
  | folder entries =>
    obtain ⟨next, hnext, -⟩ := Option.bind_eq_some_iff.1 hrest
    have hentry : fs.entry? names = some (.folder entries) := hinner
    simp [step, hentry, Component.ofSegment?_toList hname.isName, hnext,
      Nat.not_lt.2 hname.short]

theorem walk_names {entry : Entry} (hrest : ∀ name ∈ rest, IsEntryName name)
    (h : fs.entry? (names ++ rest) = some entry) :
    fs.walk (rest.map String.toList) names = .ok (names ++ rest) := by
  induction rest generalizing names with
  | nil => simp [walk]
  | cons name rest ih =>
    obtain ⟨hname, hrest⟩ := List.forall_mem_cons.1 hrest
    have happend : names ++ name :: rest = names ++ [name] ++ rest := by simp
    rw [List.map_cons, walk, step_name hname h, happend]
    exact ih hrest (happend ▸ h)

theorem WellNamed.of_isFileAt (h : fs.WellNamed) (hfile : fs.IsFileAt names) :
    ∀ name ∈ names, IsEntryName name := by
  obtain ⟨content, hentry⟩ := hfile
  exact h names (Entry.mem_files_of_find? hentry)

theorem isFileAt_of_isFile (h : fs.isFile p) (hlead : fs.lead p = .ok names) : fs.IsFileAt names := by
  obtain ⟨-, names', content, hlead', hentry⟩ := isFile_iff.1 h
  obtain rfl : names' = names := by simpa [hlead'] using hlead
  exact ⟨content, hentry⟩

theorem not_isFolder_of_isFile (h : fs.isFile p) : ¬fs.isFolder p := by
  intro hfolder
  obtain ⟨content, hfile⟩ := isFile_iff_lookup.1 h
  obtain ⟨entries, hentries⟩ := isFolder_iff_lookup.1 hfolder
  rw [hfile] at hentries
  cases hentries

/-- The files below a folder are those to which names lead from its place, unless the path of the
folder that a file is in is too long. -/
theorem mem_filesBelow_iff_isFileAt (hfolder : fs.isFolder p) (hlead : fs.lead p = .ok names) :
    rest ∈ fs.filesBelow p ↔
      fs.IsFileAt (names ++ rest) ∧ (below p rest.dropLast).text.utf8ByteSize ≤ maxPathBytes := by
  obtain ⟨entries, hlookup⟩ := isFolder_iff_lookup.1 hfolder
  obtain ⟨-, names', hlead', hentry⟩ := lookup_eq_ok_iff.1 hlookup
  obtain rfl : names' = names := by simpa [hlead'] using hlead
  have hinner : fs.entry? (names' ++ rest) = Entry.find? rest (.folder entries) := by
    rw [ entry?, find?_append, ← entry?, hentry]
    rfl
  rw [mem_filesBelow_iff, IsFileAt, hinner]
  simp [hlookup]

/-- Names that lead from a path's place to a file lead there from the path. -/
theorem WellNamed.denotes_below (h : fs.WellNamed) (hp : fs.lead p = .ok names)
    (hfile : fs.IsFileAt (names ++ rest)) : fs.Denotes (below p rest) (names ++ rest) := by
  have hnames := h.of_isFileAt hfile
  have hrest : ∀ name ∈ rest, IsEntryName name :=
    fun name hname ↦ hnames name (List.mem_append_right _ hname)
  refine ⟨?_, hfile⟩
  obtain ⟨content, hentry⟩ := hfile
  rw [lead_below (fun name hname ↦ (hrest name hname).isName), hp]
  exact walk_names hrest hentry

/-- A path that leads to a file opens that file, unless it is too long or has a NUL. -/
theorem Denotes.isFile (h : fs.Denotes p names) (hnul : '\x00' ∉ p.text.toList)
    (hlength : p.text.utf8ByteSize ≤ maxPathBytes) :
    fs.isFile p ∧ fs.canonical p = absolute names := by
  obtain ⟨content, hentry⟩ := h.isFileAt
  have hfile : fs.isFile p := (isFile_iff_of_le hlength).2 ⟨hnul, names, content, h.lead, hentry⟩
  exact ⟨hfile, canonical_of_lead hfile h.lead⟩

theorem Denotes.eq_of_beq (hp : fs.Denotes p names) (hq : fs.Denotes q after) (h : p == q) :
    names = after :=
  eq_of_lead_of_beq h hp.lead hq.lead

end FileSystem

end Provenance

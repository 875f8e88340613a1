import Mathlib.Data.List.Forall2
import Provenance.Expansion.Lookup
import Provenance.Proofs.FileSystem.Leading

/-!
# Spellings of a document's path

One file has many paths. The search for a macro starts from the directory in the path of the calling
document, and where that directory leads does not depend on the spelling (`alike_directory`). So the
search finds the same file for every spelling, except above that directory: the path above it is
made from the text alone, and need not lead to the folder above if the directory does not end in a
name (`search?_eq_of_canonical_eq`). For `flows/sub/..` it is `flows/sub`, which is not above that
folder (`search?_differs_by_spelling`).
-/

namespace Provenance

namespace FileSystem

variable {fs : FileSystem} {p q : Path}

/-- The file that a path denotes, by its canonical path. -/
def file? (fs : FileSystem) (p : Path) : Option Path :=
  if fs.isFile p then some (fs.canonical p) else none

/-- Two paths lead to the same place, or fail in the same way. -/
structure Alike (fs : FileSystem) (p q : Path) : Prop where
  lead : fs.lead p = fs.lead q
  nul : '\x00' ∈ p.text.toList ↔ '\x00' ∈ q.text.toList

theorem Alike.join (h : fs.Alike p q) (x : Path) : fs.Alike (p.join x) (q.join x) := by
  by_cases hx : x.isAbsolute
  · rw [Path.join_of_isAbsolute hx, Path.join_of_isAbsolute hx]
    exact ⟨rfl, Iff.rfl⟩
  · have hx : x.isAbsolute = false := by simpa using hx
    refine ⟨by rw [lead_join hx, lead_join hx, h.lead], ?_⟩
    have hjoin (p : Path) : '\x00' ∈ (p.join x).text.toList ↔
        '\x00' ∈ p.text.toList ∨ '\x00' ∈ x.text.toList := by
      rw [Path.join_eq_child hx, Path.child]
      split <;> simp
    rw [hjoin, hjoin, h.nul]

theorem Alike.file?_eq (h : fs.Alike p q) (hp : p.text.utf8ByteSize ≤ maxPathBytes)
    (hq : q.text.utf8ByteSize ≤ maxPathBytes) : fs.file? p = fs.file? q := by
  have hfile : fs.isFile p ↔ fs.isFile q := by
    rw [isFile_iff_of_le hp, isFile_iff_of_le hq, h.lead, h.nul]
  unfold file?
  by_cases hisfile : fs.isFile p
  · obtain ⟨-, names, content, hlead, -⟩ := isFile_iff.1 hisfile
    rw [if_pos hisfile, if_pos (hfile.1 hisfile), canonical_of_lead hisfile hlead,
      canonical_of_lead (hfile.1 hisfile) (h.lead ▸ hlead)]
  · rw [if_neg hisfile, if_neg (mt hfile.2 hisfile)]

theorem map_canonical_find? (fs : FileSystem) (paths : List Path) :
    (paths.find? fs.isFile).map fs.canonical = paths.findSome? fs.file? := by
  induction paths with
  | nil => rfl
  | cons path rest ih =>
    cases hfile : fs.isFile path with
    | true => simp [file?, hfile]
    | false => simpa [file?, hfile] using ih

/-- A file's directory leads to the same folder, however the file's path is spelled. -/
theorem alike_directory (hp : fs.isFile p) (hq : fs.isFile q)
    (hsame : fs.canonical p = fs.canonical q) : fs.Alike p.directory q.directory ∧
      '\x00' ∉ p.directory.text.toList ∧
      ∃ names, fs.lead p.directory = .ok names ∧ fs.IsFolderAt names := by
  obtain ⟨hpusable, names, -, hplead, -⟩ := isFile_iff.1 hp
  obtain ⟨hqusable, names', -, hqlead, -⟩ := isFile_iff.1 hq
  obtain rfl : names = names' := by
    rw [canonical_of_lead hp hplead, canonical_of_lead hq hqlead] at hsame
    exact (absolute_inj (isName_of_locate (locate_of_lead hp hplead))
      (isName_of_locate (locate_of_lead hq hqlead))).1 (hsame ▸ BEq.rfl)
  have hclear {p d : Path} (husable : unusable? p = none) (hd : p.parent? = some d) :
      '\x00' ∉ p.directory.text.toList := by
    rw [Path.directory, hd]
    exact fun h ↦ ((unusable?_eq_none_iff p).1 husable).1 ((Path.isPrefix_of_parent? hd).subset h)
  obtain ⟨hpfolder, hfolder, d, hd⟩ := lead_directory hp hplead
  obtain ⟨hqfolder, -, d', hd'⟩ := lead_directory hq hqlead
  have hpclear := hclear hpusable hd
  exact ⟨⟨hpfolder.trans hqfolder.symm, iff_of_false hpclear (hclear hqusable hd')⟩, hpclear, _,
    hpfolder, hfolder⟩

end FileSystem

namespace Search

open FileSystem

variable {fs : FileSystem} {options : SearchOptions} {d d' : Path}

/-- The places of a search that depend on the folder of the calling document. -/
def nearby (options : SearchOptions) (r : Reference) (folder : Path) : List Path :=
  declared r folder ++ beside ⟨r.fileName⟩ folder ++ above options ⟨r.fileName⟩ folder

/-- Two paths both end in a name, or what is left of them without their last component leads to the
same place, if anything is left of either. -/
def AboveAlike (fs : FileSystem) (p q : Path) : Prop :=
  p.fileName?.isSome ∧ q.fileName?.isSome ∨ p.parent?.map fs.lead = q.parent?.map fs.lead

theorem forall₂_declared (h : fs.Alike d d') (r : Reference) :
    List.Forall₂ fs.Alike (declared r d) (declared r d') := by
  unfold declared
  cases r.declared? with
  | none => exact .nil
  | some path => exact .cons (h.join path) .nil

theorem forall₂_beside (h : fs.Alike d d') (file : Path) :
    List.Forall₂ fs.Alike (beside file d) (beside file d') :=
  .cons (h.join file) (.cons ((h.join macroFolder).join file)
    (.cons ((h.join capitalMacroFolder).join file) .nil))

/-- The folder above one folder is reached from all paths of it that end in a name. -/
theorem AboveAlike.map_lead {names : List String} (h : AboveAlike fs d d')
    (hlead : fs.lead d = .ok names) (hlead' : fs.lead d' = .ok names)
    (hfolder : fs.IsFolderAt names) : d.parent?.map fs.lead = d'.parent?.map fs.lead := by
  rcases h with ⟨hd, hd'⟩ | h
  · obtain ⟨name, hname⟩ := Option.isSome_iff_exists.1 hd
    obtain ⟨name', hname'⟩ := Option.isSome_iff_exists.1 hd'
    obtain ⟨p, hp, hplead⟩ := exists_lead_parent? hname hlead hfolder
    obtain ⟨q, hq, hqlead⟩ := exists_lead_parent? hname' hlead' hfolder
    rw [hp, hq, Option.map_some, Option.map_some, hplead, hqlead]
  · exact h

theorem forall₂_above (hnul : '\x00' ∉ d.text.toList) (hnul' : '\x00' ∉ d'.text.toList)
    (h : options.includeParent = true → d.parent?.map fs.lead = d'.parent?.map fs.lead)
    (file : Path) : List.Forall₂ fs.Alike (above options file d) (above options file d') := by
  unfold above
  cases hoption : options.includeParent with
  | false => exact .nil
  | true =>
    have hlead := h hoption
    cases hp : d.parent? with
    | none =>
      rw [hp, Option.map_none, eq_comm, Option.map_eq_none_iff] at hlead
      rw [hlead]
      exact .nil
    | some p =>
      rw [hp, Option.map_some, eq_comm, Option.map_eq_some_iff] at hlead
      obtain ⟨q, hq, hlead⟩ := hlead
      rw [hq]
      have habove : fs.Alike p q :=
        ⟨hlead.symm, iff_of_false (mt (fun h ↦ (Path.isPrefix_of_parent? hp).subset h) hnul)
          (mt (fun h ↦ (Path.isPrefix_of_parent? hq).subset h) hnul')⟩
      exact .cons (habove.join file) (.cons ((habove.join macroFolder).join file) .nil)

theorem findSome?_file?_eq {xs ys : List Path} (h : List.Forall₂ fs.Alike xs ys)
    (hxs : ∀ p ∈ xs, p.text.utf8ByteSize ≤ maxPathBytes)
    (hys : ∀ p ∈ ys, p.text.utf8ByteSize ≤ maxPathBytes) :
    xs.findSome? fs.file? = ys.findSome? fs.file? := by
  induction h with
  | nil => rfl
  | cons hhead _ ih =>
    obtain ⟨hx, hxs⟩ := List.forall_mem_cons.1 hxs
    obtain ⟨hy, hys⟩ := List.forall_mem_cons.1 hys
    rw [List.findSome?_cons, List.findSome?_cons, hhead.file?_eq hx hy, ih hxs hys]

theorem map_canonical_find?_eq (fs : FileSystem) (options : SearchOptions) (r : Reference)
    (folder : Path) (searchFolders : List Path) :
    (find? fs options r folder searchFolders).map fs.canonical =
      ((declared r folder).findSome? fs.file?).or
        (((beside ⟨r.fileName⟩ folder).findSome? fs.file?).or
          (((searchFolders.map (·.join ⟨r.fileName⟩)).findSome? fs.file?).or
            (((deep? fs options r.fileName searchFolders).map fs.canonical).or
              ((above options ⟨r.fileName⟩ folder).findSome? fs.file?)))) := by
  simp only [find?_eq, near, Option.map_or, map_canonical_find?, List.findSome?_append,
    Option.or_assoc]

end Search

namespace Resolver

open FileSystem Search

variable {σ : Type}

/-- However the path of a document is spelled, its macros are found in the same files, if none of
the places that are looked at has too long a path, and if what lies above the directories is reached
alike where it is looked into. -/
theorem search?_eq_of_canonical_eq (r : Resolver σ) (reference : Reference)
    (searchFolders : List Path) {p q : Path} (hp : r.files.isFile p) (hq : r.files.isFile q)
    (hsame : r.files.canonical p = r.files.canonical q)
    (habove : r.options.search.includeParent = true →
      AboveAlike r.files p.directory q.directory)
    (hplength : ∀ place ∈ nearby r.options.search reference p.directory,
      place.text.utf8ByteSize ≤ maxPathBytes)
    (hqlength : ∀ place ∈ nearby r.options.search reference q.directory,
      place.text.utf8ByteSize ≤ maxPathBytes) :
    (r.search? reference p searchFolders).map r.files.canonical =
      (r.search? reference q searchFolders).map r.files.canonical := by
  obtain ⟨halike, hnul, names, hlead, hfolder⟩ := alike_directory hp hq hsame
  have hlead' : r.files.lead q.directory = .ok names := halike.lead ▸ hlead
  have hparents (hoption) := (habove hoption).map_lead hlead hlead' hfolder
  simp only [nearby, List.forall_mem_append] at hplength hqlength
  obtain ⟨⟨hpdeclared, hpbeside⟩, hpabove⟩ := hplength
  obtain ⟨⟨hqdeclared, hqbeside⟩, hqabove⟩ := hqlength
  have hdeclared := findSome?_file?_eq (forall₂_declared halike reference) hpdeclared hqdeclared
  have hbeside := findSome?_file?_eq (forall₂_beside halike _) hpbeside hqbeside
  have hfolders :=
    findSome?_file?_eq (forall₂_above hnul (mt halike.nul.2 hnul) hparents _) hpabove hqabove
  simp only [search?, map_canonical_find?_eq, hdeclared, hbeside, hfolders]

/-- A working folder `w` with a workflow in `flows` and a macro in `macros`, beside `flows`. -/
def spelledFiles : FileSystem :=
  (((FileSystem.empty ["w"]).put ["w", "flows", "D.yxmd"] (.file ⟨#[]⟩) trivial).put
    ["w", "flows", "sub"] (.folder []) Entry.ordered_folder_nil).put
    ["w", "macros", "M.yxmc"] (.file ⟨#[]⟩) trivial

/-- A resolver that looks everywhere and asks nobody. -/
def spelledResolver : Resolver Unit where
  files := spelledFiles
  load := Document.load spelledFiles
  options := ⟨.everywhere, 0⟩
  operator := .absent

/-- A relative path and an absolute one, with `.`, `..` and a doubled separator. -/
theorem search?_eq_of_canonical_eq_spelled :
    spelledFiles.isFile ⟨"flows/D.yxmd"⟩ ∧
      spelledFiles.isFile ⟨"/w/./flows/sub/..//../flows/D.yxmd"⟩ ∧
      ((spelledResolver.search? (.named "M") ⟨"flows/D.yxmd"⟩ []).map spelledFiles.canonical).map
        Path.text = some "/w/macros/M.yxmc" ∧
      (spelledResolver.search? (.named "M") ⟨"flows/D.yxmd"⟩ []).map spelledFiles.canonical =
        (spelledResolver.search? (.named "M") ⟨"/w/./flows/sub/..//../flows/D.yxmd"⟩ []).map
          spelledFiles.canonical := by
  have hp : spelledFiles.isFile ⟨"flows/D.yxmd"⟩ := by decide +kernel
  have hq : spelledFiles.isFile ⟨"/w/./flows/sub/..//../flows/D.yxmd"⟩ := by decide +kernel
  have hsame : spelledFiles.canonical ⟨"flows/D.yxmd"⟩ =
      spelledFiles.canonical ⟨"/w/./flows/sub/..//../flows/D.yxmd"⟩ :=
    congrArg Path.mk (by decide +kernel)
  refine ⟨hp, hq, by decide +kernel, ?_⟩
  exact search?_eq_of_canonical_eq spelledResolver _ _ hp hq hsame
    (fun _ ↦ .inl (by decide +kernel)) (by decide +kernel) (by decide +kernel)

/-- Two paths of one workflow: from one of them the macro is found, from the other it is not. -/
theorem search?_differs_by_spelling :
    spelledFiles.isFile ⟨"flows/D.yxmd"⟩ ∧ spelledFiles.isFile ⟨"flows/sub/../D.yxmd"⟩ ∧
      spelledFiles.canonical ⟨"flows/D.yxmd"⟩ = spelledFiles.canonical ⟨"flows/sub/../D.yxmd"⟩ ∧
      ((spelledResolver.search? (.named "M") ⟨"flows/D.yxmd"⟩ []).map spelledFiles.canonical).map
        Path.text = some "/w/macros/M.yxmc" ∧
      spelledResolver.search? (.named "M") ⟨"flows/sub/../D.yxmd"⟩ [] = none := by
  refine ⟨by decide +kernel, by decide +kernel, congrArg Path.mk (by decide +kernel),
    by decide +kernel, Option.map_eq_none_iff.1 (?_ : Option.map Path.text _ = none)⟩
  decide +kernel

end Resolver

end Provenance

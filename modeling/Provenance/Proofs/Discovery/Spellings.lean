import Provenance.Discovery
import Provenance.Proofs.FileSystem.Below
import Provenance.Proofs.Path.Order
import Provenance.Proofs.Sorting

/-!
# The files that are found

The search goes through the paths that it is given, sorts the files that they stand for and drops
paths that equal the one before them. So each file is found, and nothing else, in strictly ascending
order (`discover_files`). Paths are compared by their components and not by where they lead: a file
is found more than once exactly if two of the given paths stand for it with different components, as
`flows` and `./flows/D.yxmd` do (`discover_twice`). This does not happen to paths that take no detour
and all start from the same place (`discover_once`).
-/

namespace Provenance.Discovery

open FileSystem
open scoped List

variable {fs : FileSystem} {paths found : List Path} {path p q : Path} {rest place : List String}

/-- A name that ends in the extension of a workflow file, in any letter case. What is nothing but a
point and letters has no extension. -/
def IsWorkflowName (name : String) : Prop :=
  ∃ stem extension, stem ≠ "" ∧ name = stem ++ "." ++ extension ∧ '.' ∉ extension.toList ∧
    Text.lowercase extension ∈ extensions

/-- A given path stands for the file at a place, to which some names lead from where the path leads:
the path of a file for this file, the path of a folder for the workflow files below it, where folders
are not looked into whose path is too long for the operating system. -/
inductive StandsFor (fs : FileSystem) (path : Path) : List String → List String → Prop where
  | file {place : List String} (hfile : fs.isFile path) (hlead : fs.lead path = .ok place) :
      StandsFor fs path [] place
  | folder {above rest : List String} {name : String} (hfolder : fs.isFolder path)
      (hlead : fs.lead path = .ok above) (hfile : fs.IsFileAt (above ++ rest))
      (hlast : rest.getLast? = some name) (hname : IsWorkflowName name)
      (hlength : (below path rest.dropLast).text.utf8ByteSize ≤ maxPathBytes) :
      StandsFor fs path rest (above ++ rest)

/-! ## Dropping repeats -/

theorem dropRepeats_sublist (ps : List Path) : dropRepeats ps <+ ps := by
  fun_induction dropRepeats ps with
  | case1 p q rest heq ih => exact ih.trans ((List.sublist_cons_self q rest).cons_cons p)
  | case2 p q rest hne ih => exact ih.cons_cons p
  | case3 ps hshort => exact List.Sublist.refl ps

/-- Of equal paths the first stays. -/
theorem exists_mem_dropRepeats {ps : List Path} (h : p ∈ ps) : ∃ q ∈ dropRepeats ps, q == p := by
  fun_induction dropRepeats ps generalizing p with
  | case1 a b rest heq ih =>
    by_cases hb : p = b
    · obtain ⟨q, hq, hqa⟩ := ih List.mem_cons_self
      exact ⟨q, hq, hb ▸ BEq.trans hqa heq⟩
    · exact ih (by simpa [hb] using h)
  | case2 a b rest hne ih =>
    rcases List.mem_cons.1 h with rfl | hmem
    · exact ⟨_, List.mem_cons_self, BEq.rfl⟩
    · obtain ⟨q, hq, hqp⟩ := ih hmem
      exact ⟨q, List.mem_cons_of_mem _ hq, hqp⟩
  | case3 ps hshort => exact ⟨p, h, BEq.rfl⟩

/-- A sorted list without its repeats is strictly ascending. -/
theorem pairwise_dropRepeats {ps : List Path} (h : ps.Pairwise (fun p q ↦ p.le q)) :
    (dropRepeats ps).Pairwise (fun p q ↦ p.compare q = .lt) := by
  fun_induction dropRepeats ps with
  | case1 a b rest heq ih => exact ih (h.sublist ((List.sublist_cons_self b rest).cons_cons a))
  | case2 a b rest hne ih =>
    obtain ⟨ha, hrest⟩ := List.pairwise_cons.1 h
    have hab : a.compare b = .lt := by
      have hle := Path.le_iff.1 (ha b List.mem_cons_self)
      have heq : a.compare b ≠ .eq := fun heq ↦ hne (Path.compare_eq_eq_iff.1 heq)
      cases hcompare : a.compare b <;> simp_all
    refine List.pairwise_cons.2 ⟨fun c hc ↦ ?_, ih hrest⟩
    rcases List.mem_cons.1 ((dropRepeats_sublist _).subset hc) with rfl | hc
    · exact hab
    · have hbc := (List.pairwise_cons.1 hrest).1 c hc
      exact Std.TransCmp.lt_of_lt_of_isLE hab (Path.le_iff.1 hbc)
  | case3 ps hshort =>
    rcases ps with _ | ⟨a, _ | ⟨b, rest⟩⟩
    · exact List.Pairwise.nil
    · exact List.pairwise_singleton ..
    · exact absurd rfl (hshort a b rest)

/-- No two paths in a strictly ascending list name the same components. -/
theorem eq_of_beq_of_ascending {ps : List Path}
    (h : ps.Pairwise (fun p q ↦ p.compare q = .lt)) (hp : p ∈ ps) (hq : q ∈ ps) (heq : p == q) :
    p = q := by
  have hdiffer {a b : Path} (hpair : [a, b] <+ ps) : ¬a == b := fun hab ↦ by
    have hlt := List.pairwise_iff_forall_sublist.1 h hpair
    rw [Path.compare_eq_eq_iff.2 hab] at hlt
    cases hlt
  by_contra hne
  rcases pair_sublist_or hp hq hne with hpair | hpair
  · exact hdiffer hpair heq
  · exact hdiffer hpair (BEq.symm heq)

/-! ## Files that paths stand for -/

theorem hasExtension_iff :
    p.hasExtension extensions ↔ ∃ name, p.fileName? = some name ∧ IsWorkflowName name := by
  rw [Path.hasExtension_iff (by decide)]
  constructor
  · rintro ⟨name, extension, hfile, hname, hextension⟩
    obtain ⟨stem, hstem, heq, hpoint⟩ := Path.splitName_eq_some_iff.1 hname
    exact ⟨name, hfile, stem, extension, hstem, heq, hpoint, hextension⟩
  · rintro ⟨name, hfile, stem, extension, hstem, heq, hpoint, hextension⟩
    exact ⟨name, extension, hfile, Path.splitName_eq_some_iff.2 ⟨stem, hstem, heq, hpoint⟩,
      hextension⟩

namespace StandsFor

variable (hnamed : fs.WellNamed) (h : StandsFor fs path rest place)

include hnamed h

theorem denotes : fs.Denotes (below path rest) place := by
  cases h with
  | file hfile hlead => exact ⟨hlead, isFileAt_of_isFile hfile hlead⟩
  | folder hfolder hlead hfile hlast hname hlength => exact hnamed.denotes_below hlead hfile

theorem isEntryName : ∀ name ∈ rest, IsEntryName name := by
  cases h with
  | file hfile hlead => exact List.forall_mem_nil _
  | folder hfolder hlead hfile hlast hname hlength =>
    exact fun name hmem ↦ hnamed.of_isFileAt hfile name (List.mem_append_right _ hmem)

theorem components_below :
    (below path rest).components = path.components ++ rest.map .normal :=
  FileSystem.components_below (fun name hname ↦ (h.isEntryName hnamed name hname).isName) path

theorem not_nul_mem_below : '\x00' ∉ (below path rest).text.toList := by
  refine FileSystem.not_nul_mem_below (h.isEntryName hnamed) ?_
  have husable : unusable? path = none := by
    cases h with
    | file hfile hlead => exact (isFile_iff.1 hfile).1
    | folder hfolder hlead hfile hlast hname hlength =>
      obtain ⟨entries, hlookup⟩ := isFolder_iff_lookup.1 hfolder
      exact (lookup_eq_ok_iff.1 hlookup).1
  exact ((unusable?_eq_none_iff path).1 husable).1

end StandsFor

/-- The workflow files below a folder are those that it stands for. -/
theorem standsFor_of_mem_filesBelow (hnamed : fs.WellNamed) (hfolder : fs.isFolder path)
    (hrest : rest ∈ fs.filesBelow path) (hextension : (below path rest).hasExtension extensions) :
    ∃ place, StandsFor fs path rest place := by
  obtain ⟨entries, hlookup⟩ := isFolder_iff_lookup.1 hfolder
  obtain ⟨-, above, hlead, hentry⟩ := lookup_eq_ok_iff.1 hlookup
  obtain ⟨hfile, hlength⟩ := (mem_filesBelow_iff_isFileAt hfolder hlead).1 hrest
  have hname : ∀ name ∈ rest, IsName name := fun name hmem ↦
    (hnamed.of_isFileAt hfile name (List.mem_append_right _ hmem)).isName
  obtain ⟨last, hlast⟩ : ∃ last, rest.getLast? = some last := by
    cases hempty : rest.getLast? with
    | some last => exact ⟨last, rfl⟩
    | none =>
      obtain ⟨content, hcontent⟩ := hfile
      rw [List.getLast?_eq_none_iff.1 hempty, List.append_nil, hentry] at hcontent
      cases hcontent
  obtain ⟨name, hfileName, hworkflow⟩ := hasExtension_iff.1 hextension
  obtain rfl : last = name := by simpa [fileName?_below hname hlast] using hfileName
  exact ⟨_, .folder hfolder hlead hfile hlast hworkflow hlength⟩

/-- What a path expands to are the paths of the files that it stands for. -/
theorem exists_mem_expand_iff (hnamed : fs.WellNamed) :
    (∃ ps, expand fs path = .ok ps ∧ p ∈ ps) ↔
      ∃ rest place, StandsFor fs path rest place ∧ p = below path rest := by
  constructor
  · rintro ⟨ps, hps, hp⟩
    unfold expand at hps
    split at hps
    · rename_i hfile
      cases hps
      obtain ⟨-, place, -, hlead, -⟩ := isFile_iff.1 hfile
      exact ⟨[], place, .file hfile hlead, List.mem_singleton.1 hp⟩
    · split at hps
      · rename_i hfolder
        cases hps
        obtain ⟨hmem, hextension⟩ := List.mem_filter.1 hp
        obtain ⟨rest, hrest, rfl⟩ := List.mem_map.1 hmem
        obtain ⟨place, hstands⟩ := standsFor_of_mem_filesBelow hnamed hfolder hrest hextension
        exact ⟨rest, place, hstands, rfl⟩
      · cases hps
  · rintro ⟨rest, place, hstands, rfl⟩
    have hnames := fun name hname ↦ (hstands.isEntryName hnamed name hname).isName
    cases hstands with
    | file hfile hlead => exact ⟨_, if_pos hfile, List.mem_singleton_self path⟩
    | folder hfolder hlead hfile hlast hname hlength =>
      have hnofile : ¬fs.isFile path := fun hfile ↦ not_isFolder_of_isFile hfile hfolder
      refine ⟨_, by rw [expand, if_neg hnofile, if_pos hfolder], List.mem_filter.2 ⟨?_, ?_⟩⟩
      · exact List.mem_map_of_mem ((mem_filesBelow_iff_isFileAt hfolder hlead).2 ⟨hfile, hlength⟩)
      · exact hasExtension_iff.2 ⟨_, fileName?_below hnames hlast path, hname⟩

theorem mem_flatten_of_mapM {α β ε : Type} {f : α → Except ε (List β)} {xs : List α}
    {yss : List (List β)} (h : xs.mapM f = .ok yss) (y : β) :
    y ∈ yss.flatten ↔ ∃ x ∈ xs, ∃ ys, f x = .ok ys ∧ y ∈ ys := by
  induction xs generalizing yss with
  | nil =>
    cases h
    simp
  | cons x xs ih =>
    rw [List.mapM_cons] at h
    cases hx : f x with
    | error e => simp [hx, bind, Except.bind] at h
    | ok ys =>
      cases hxs : xs.mapM f with
      | error e => simp [hx, hxs, bind, Except.bind] at h
      | ok rest =>
        obtain rfl : ys :: rest = yss := by simpa [hx, hxs, bind, Except.bind, pure, Except.pure] using h
        simp [ih hxs, hx]

/-- Some paths are found in ascending order: paths of the files that given paths stand for, and for
each of these files a path with the components of each of its paths. -/
structure Collects (fs : FileSystem) (paths found : List Path) : Prop where
  ascending : found.Pairwise (fun p q ↦ p.compare q = .lt)
  standsFor : ∀ p ∈ found,
    ∃ path ∈ paths, ∃ rest place, StandsFor fs path rest place ∧ p = below path rest
  complete : ∀ path ∈ paths, ∀ rest place, StandsFor fs path rest place →
    ∃ p ∈ found, p == below path rest

theorem collects_discover (hnamed : fs.WellNamed) (h : discover fs paths = .ok found) :
    Collects fs paths found := by
  unfold discover at h
  split at h
  · cases h
  · rename_i expansions hexpansions
    cases h
    have hcandidates (p : Path) : p ∈ expansions.flatten.mergeSort Path.le ↔
        ∃ path ∈ paths, ∃ rest place, StandsFor fs path rest place ∧ p = below path rest := by
      simp only [List.mem_mergeSort, mem_flatten_of_mapM hexpansions, exists_mem_expand_iff hnamed]
    refine ⟨pairwise_dropRepeats (Path.pairwise_le_mergeSort _), fun p hp ↦ ?_, ?_⟩
    · exact (hcandidates p).1 ((dropRepeats_sublist _).subset hp)
    · intro path hpath rest place hstands
      exact exists_mem_dropRepeats ((hcandidates _).2 ⟨path, hpath, rest, place, hstands, rfl⟩)

namespace Collects

variable (h : Collects fs paths found) (hnamed : fs.WellNamed)

include h hnamed

/-- A path that is found denotes a file that a given path stands for. -/
theorem exists_standsFor (hp : p ∈ found) (hplace : fs.Denotes p place) :
    ∃ path ∈ paths, ∃ rest, StandsFor fs path rest place ∧ p = below path rest := by
  obtain ⟨path, hpath, rest, place', hstands, rfl⟩ := h.standsFor p hp
  obtain rfl := (hstands.denotes hnamed).eq_of_beq hplace BEq.rfl
  exact ⟨path, hpath, rest, hstands, rfl⟩

/-- For each file that a given path stands for, a path with the same components is found. -/
theorem exists_denotes (hpath : path ∈ paths) (hstands : StandsFor fs path rest place) :
    ∃ p ∈ found, fs.Denotes p place ∧ p.components = path.components ++ rest.map .normal := by
  obtain ⟨p, hp, heq⟩ := h.complete path hpath rest place hstands
  obtain ⟨path', -, rest', place', hstands', rfl⟩ := h.standsFor p hp
  have hdenotes := hstands'.denotes hnamed
  obtain rfl := hdenotes.eq_of_beq (hstands.denotes hnamed) heq
  exact ⟨_, hp, hdenotes, ((Path.beq_iff _ _).1 heq).trans (hstands.components_below hnamed)⟩

theorem exists_denotes_iff : (∃ p ∈ found, fs.Denotes p place) ↔
    ∃ path ∈ paths, ∃ rest, StandsFor fs path rest place := by
  constructor
  · rintro ⟨p, hp, hplace⟩
    obtain ⟨path, hpath, rest, hstands, -⟩ := h.exists_standsFor hnamed hp hplace
    exact ⟨path, hpath, rest, hstands⟩
  · rintro ⟨path, hpath, rest, hstands⟩
    obtain ⟨p, hp, hplace, -⟩ := h.exists_denotes hnamed hpath hstands
    exact ⟨p, hp, hplace⟩

/-- Each file is found once exactly if the given paths that stand for it name the same
components. -/
theorem unique_iff :
    (∀ p ∈ found, ∀ q ∈ found, ∀ place, fs.Denotes p place → fs.Denotes q place → p = q) ↔
      ∀ a ∈ paths, ∀ b ∈ paths, ∀ place as bs, StandsFor fs a as place → StandsFor fs b bs place →
        a.components ++ as.map .normal = b.components ++ bs.map .normal := by
  constructor
  · intro hunique a ha b hb place as bs hsa hsb
    obtain ⟨p, hp, hpplace, hpcomponents⟩ := h.exists_denotes hnamed ha hsa
    obtain ⟨q, hq, hqplace, hqcomponents⟩ := h.exists_denotes hnamed hb hsb
    rw [← hpcomponents, ← hqcomponents, hunique p hp q hq place hpplace hqplace]
  · intro halike p hp q hq place hpplace hqplace
    obtain ⟨a, ha, as, hsa, hpath⟩ := h.exists_standsFor hnamed hp hpplace
    obtain ⟨b, hb, bs, hsb, hqath⟩ := h.exists_standsFor hnamed hq hqplace
    refine eq_of_beq_of_ascending h.ascending hp hq ?_
    rw [Path.beq_iff, hpath, hqath, hsa.components_below hnamed, hsb.components_below hnamed]
    exact halike a ha b hb place as bs hsa hsb

end Collects

/-- Each file that the given paths stand for is found, and nothing else, in strictly ascending order.
No file is found twice exactly if all given paths that stand for one file name it by the same
components. -/
theorem discover_files (hnamed : fs.WellNamed) (h : discover fs paths = .ok found) :
    found.Pairwise (fun p q ↦ p.compare q = .lt) ∧
      (∀ p ∈ found, ∃ place, fs.Denotes p place ∧
        (p.text.utf8ByteSize ≤ maxPathBytes → fs.isFile p ∧ fs.canonical p = absolute place)) ∧
      (∀ place, (∃ p ∈ found, fs.Denotes p place) ↔
        ∃ path ∈ paths, ∃ rest, StandsFor fs path rest place) ∧
      ((∀ p ∈ found, ∀ q ∈ found, ∀ place, fs.Denotes p place → fs.Denotes q place → p = q) ↔
        ∀ a ∈ paths, ∀ b ∈ paths, ∀ place as bs, StandsFor fs a as place → StandsFor fs b bs place →
          a.components ++ as.map .normal = b.components ++ bs.map .normal) := by
  have hcollects := collects_discover hnamed h
  refine ⟨hcollects.ascending, fun p hp ↦ ?_, fun place ↦ hcollects.exists_denotes_iff hnamed,
    hcollects.unique_iff hnamed⟩
  obtain ⟨path, -, rest, place, hstands, rfl⟩ := hcollects.standsFor p hp
  have hdenotes := hstands.denotes hnamed
  exact ⟨place, hdenotes, hdenotes.isFile (hstands.not_nul_mem_below hnamed)⟩

/-- Expansions that are in order are left as they are, up to repeats. -/
theorem discover_of_pairwise {expansions : List (List Path)}
    (h : paths.mapM (expand fs) = .ok expansions)
    (hsorted : expansions.flatten.Pairwise (fun p q ↦ p.le q)) :
    discover fs paths = .ok (dropRepeats expansions.flatten) := by
  rw [discover, h]
  exact congrArg (fun ps ↦ Except.ok (dropRepeats ps)) (List.mergeSort_of_pairwise hsorted)

/-- Two workflows and a macro in a folder. -/
def flowFiles : FileSystem :=
  (((FileSystem.empty ["w"]).put ["w", "flows", "D.yxmd"] (.file ⟨#[]⟩) trivial).put
    ["w", "flows", "M.yxmc"] (.file ⟨#[]⟩) trivial).put
    ["w", "flows", "sub", "E.YXWZ"] (.file ⟨#[]⟩) trivial

theorem wellNamed_flowFiles : flowFiles.WellNamed := by
  decide +kernel

/-- A workflow and the folder that it lies in. -/
def overlappingPaths : List Path :=
  [⟨"flows//D.yxmd"⟩, ⟨"flows"⟩]

theorem discover_overlappingPaths :
    discover flowFiles overlappingPaths = .ok [⟨"flows//D.yxmd"⟩, ⟨"flows/sub/E.YXWZ"⟩] := by
  have hexpansions : overlappingPaths.mapM (expand flowFiles) =
      .ok [[⟨"flows//D.yxmd"⟩], [⟨"flows/D.yxmd"⟩, ⟨"flows/sub/E.YXWZ"⟩]] := rfl
  have halike : (⟨"flows//D.yxmd"⟩ : Path) == ⟨"flows/D.yxmd"⟩ := by decide
  have hother : ¬(⟨"flows//D.yxmd"⟩ : Path) == ⟨"flows/sub/E.YXWZ"⟩ := by decide
  rw [discover_of_pairwise hexpansions (by decide)]
  simp [dropRepeats, halike, hother]

/-- The workflow is found once, and the other one in the folder too. -/
theorem discover_files_overlapping :
    flowFiles.WellNamed ∧
      discover flowFiles overlappingPaths = .ok [⟨"flows//D.yxmd"⟩, ⟨"flows/sub/E.YXWZ"⟩] ∧
      StandsFor flowFiles ⟨"flows//D.yxmd"⟩ [] ["w", "flows", "D.yxmd"] ∧
      StandsFor flowFiles ⟨"flows"⟩ ["D.yxmd"] ["w", "flows", "D.yxmd"] ∧
      (∃ p ∈ [(⟨"flows//D.yxmd"⟩ : Path), ⟨"flows/sub/E.YXWZ"⟩],
        flowFiles.Denotes p ["w", "flows", "sub", "E.YXWZ"]) := by
  obtain ⟨-, -, hdenotes, -⟩ := discover_files wellNamed_flowFiles discover_overlappingPaths
  have hlead : flowFiles.lead ⟨"flows"⟩ = .ok ["w", "flows"] := rfl
  have hfolder : flowFiles.isFolder ⟨"flows"⟩ := by decide +kernel
  have hfile : flowFiles.IsFileAt (["w", "flows"] ++ ["D.yxmd"]) := ⟨_, rfl⟩
  have hsub : flowFiles.IsFileAt (["w", "flows"] ++ ["sub", "E.YXWZ"]) := ⟨_, rfl⟩
  have hworkflow : IsWorkflowName "D.yxmd" := ⟨"D", "yxmd", by decide, rfl, by decide, by decide⟩
  have hother : IsWorkflowName "E.YXWZ" := ⟨"E", "YXWZ", by decide, rfl, by decide, by decide⟩
  have hstands : StandsFor flowFiles ⟨"flows"⟩ ["sub", "E.YXWZ"] ["w", "flows", "sub", "E.YXWZ"] :=
    .folder hfolder hlead hsub rfl hother (by decide +kernel)
  exact ⟨wellNamed_flowFiles, discover_overlappingPaths, .file (by decide +kernel) rfl,
    .folder hfolder hlead hfile rfl hworkflow (by decide +kernel),
    (hdenotes _).2 ⟨⟨"flows"⟩, List.mem_cons_of_mem _ List.mem_cons_self, _, hstands⟩⟩

/-- Written with a `.` in front, the workflow is found twice. -/
theorem discover_twice :
    discover flowFiles [⟨"./flows/D.yxmd"⟩, ⟨"flows"⟩] =
        .ok [⟨"./flows/D.yxmd"⟩, ⟨"flows/D.yxmd"⟩, ⟨"flows/sub/E.YXWZ"⟩] ∧
      flowFiles.isFile ⟨"./flows/D.yxmd"⟩ ∧ flowFiles.isFile ⟨"flows/D.yxmd"⟩ ∧
      (flowFiles.canonical ⟨"./flows/D.yxmd"⟩).text = "/w/flows/D.yxmd" ∧
      (flowFiles.canonical ⟨"flows/D.yxmd"⟩).text = "/w/flows/D.yxmd" := by
  have hexpansions : [⟨"./flows/D.yxmd"⟩, (⟨"flows"⟩ : Path)].mapM (expand flowFiles) =
      .ok [[⟨"./flows/D.yxmd"⟩], [⟨"flows/D.yxmd"⟩, ⟨"flows/sub/E.YXWZ"⟩]] := rfl
  have hother : ¬(⟨"./flows/D.yxmd"⟩ : Path) == ⟨"flows/D.yxmd"⟩ := by decide
  have hapart : ¬(⟨"flows/D.yxmd"⟩ : Path) == ⟨"flows/sub/E.YXWZ"⟩ := by decide
  refine ⟨?_, by decide +kernel⟩
  rw [discover_of_pairwise hexpansions (by decide)]
  simp [dropRepeats, hother, hapart]

/-- Given paths without detours that all start from the same place find each file once. -/
theorem discover_once (hnamed : fs.WellNamed) (h : discover fs paths = .ok found)
    (hdirect : ∀ path ∈ paths, path.IsDirect)
    (hstart : ∀ a ∈ paths, ∀ b ∈ paths, a.isAbsolute = b.isAbsolute) :
    ∀ p ∈ found, ∀ q ∈ found, ∀ place, fs.Denotes p place → fs.Denotes q place → p = q := by
  refine ((collects_discover hnamed h).unique_iff hnamed).2 fun a ha b hb place as bs hsa hsb ↦ ?_
  obtain ⟨na, hna⟩ := (hdirect a ha).exists_names
  obtain ⟨nb, hnb⟩ := (hdirect b hb).exists_names
  rw [hstart a ha b hb] at hna
  rw [hna, hnb, List.append_assoc, List.append_assoc, ← List.map_append, ← List.map_append]
  -- the names behind the start are those that lead from there to the place
  have hplace : na ++ as = nb ++ bs := by
    have hwhole {path : Path} {names rest : List String} (hstands : StandsFor fs path rest place)
        (hnames : path.components = (if b.isAbsolute then [.root] else []) ++ names.map .normal) :
        place = (if b.isAbsolute then [.root] else []).foldl Component.follow fs.workingFolder ++
          (names ++ rest) := by
      rw [eq_follow_of_lead (hstands.denotes hnamed).lead, hstands.components_below hnamed, hnames,
        List.append_assoc, ← List.map_append, List.foldl_append, Component.foldl_follow_normal]
    exact List.append_cancel_left ((hwhole hsa hna).symm.trans (hwhole hsb hnb))
  rw [hplace]

end Provenance.Discovery

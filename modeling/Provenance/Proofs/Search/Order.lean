import Provenance.Expansion.Search
import Provenance.Proofs.FileSystem.Leading
import Provenance.Proofs.FileSystem.Listing
import Provenance.Proofs.Text.ByteOrder

/-!
# The order of the search

A search takes the first file in a list of places. All but one kind of them are read off the paths
alone. In the subfolders of a search folder it takes the file that is least by the bytes of the
names that lead to it, which is the first one that the listing of the folder gives
(`firstBelow?_eq_some_iff`). `find?_eq_first` lists the places in their order.
-/

namespace Provenance.Search

/-- Some names lead from a folder to a file with a given name in one of its subfolders. -/
structure LiesBelow (fs : FileSystem) (folder : Path) (name : String) (names : List String) :
    Prop where
  leads : ∃ entries content, fs.lookup folder = .ok (.folder entries) ∧
    Entry.find? names (.folder entries) = some (.file content)
  isFile : fs.isFile (FileSystem.below folder names)
  deep : 2 ≤ names.length
  named : names.getLast? = some name

/-- Of all files with a given name in the subfolders of a folder, a path denotes the one that is
least when paths are compared name by name and names byte by byte. -/
def IsLeastBelow (fs : FileSystem) (folder : Path) (name : String) (path : Path) : Prop :=
  ∃ names, path = FileSystem.below folder names ∧ LiesBelow fs folder name names ∧
    ∀ other, LiesBelow fs folder name other → names.map Text.bytes ≤ other.map Text.bytes

/-- A text as a path, in which a backslash separates like a slash. -/
def slashed (text : String) : Path :=
  ⟨String.ofList (text.toList.map (fun c ↦ if c = '\\' then '/' else c))⟩

/-- The places in which a macro is looked for, in order, where `least` gives the file that is taken
from the subfolders of a search folder. -/
def places (least : Path → Option Path) (options : SearchOptions) (r : Reference) (folder : Path)
    (searchFolders : List Path) : List Path :=
  let file : Path := ⟨r.fileName⟩
  (r.declaredPath.toList.map slashed).map (fun declared ↦
      if declared.isAbsolute then declared else folder.join declared) ++
    [folder.join file, (folder.join ⟨"macros"⟩).join file, (folder.join ⟨"Macros"⟩).join file] ++
    searchFolders.map (fun searchFolder ↦ searchFolder.join file) ++
    (if options.recursive then searchFolders.filterMap least else []) ++
    (if options.includeParent then
      folder.parent?.toList.flatMap (fun parent ↦
        [parent.join file, (parent.join ⟨"macros"⟩).join file])
    else [])

/-- The file that is taken from the subfolders of a search folder. -/
def firstBelow? (fs : FileSystem) (name : String) (folder : Path) : Option Path :=
  (inSubfolders fs name folder).find? fs.isFile

variable {fs : FileSystem} {folder : Path} {name : String}

/-- What is found first in a list stands in its order before all else that could be found. -/
theorem rel_of_find?_eq_some {α : Type} {R : α → α → Prop} {p : α → Bool} {xs : List α} {x y : α}
    (hsorted : xs.Pairwise R) (hfound : xs.find? p = some x) (hmem : y ∈ xs) (hy : p y) :
    x = y ∨ R x y := by
  obtain ⟨-, before, after, rfl, hbefore⟩ := List.find?_eq_some_iff_append.1 hfound
  rcases List.mem_append.1 hmem with hmem | hmem
  · exact absurd hy (by simpa using hbefore y hmem)
  · rcases List.mem_cons.1 hmem with rfl | hmem
    · exact .inl rfl
    · exact .inr ((List.pairwise_cons.1 (List.pairwise_append.1 hsorted).2.1).1 y hmem)

/-- Whether some names lead to a file with a given name in one of the subfolders of a folder, if
they lead to a file below that folder. -/
def suits (fs : FileSystem) (folder : Path) (name : String) (names : List String) : Bool :=
  2 ≤ names.length && names.getLast? = some name && fs.isFile (FileSystem.below folder names)

theorem liesBelow_iff {names : List String} :
    LiesBelow fs folder name names ↔ names ∈ fs.filesBelow folder ∧ suits fs folder name names := by
  rw [FileSystem.mem_filesBelow_iff]
  simp only [suits, Bool.and_eq_true, decide_eq_true_eq]
  refine ⟨fun h ↦ ⟨⟨h.leads, ?_⟩, ⟨h.deep, h.named⟩, h.isFile⟩,
    fun ⟨⟨hleads, _⟩, ⟨hdeep, hnamed⟩, hfile⟩ ↦ ⟨hleads, hfile, hdeep, hnamed⟩⟩
  -- the folder of a file that can be opened can be listed
  have husable := (FileSystem.unusable?_eq_none_iff _).1 (FileSystem.isFile_iff.1 h.isFile).1
  exact Nat.le_trans (FileSystem.utf8ByteSize_below_dropLast_le folder names) husable.2.2

theorem firstBelow?_eq_map (fs : FileSystem) (name : String) (folder : Path) :
    firstBelow? fs name folder =
      ((fs.filesBelow folder).find? (suits fs folder name)).map (FileSystem.below folder) := by
  rw [firstBelow?, inSubfolders, List.find?_map, List.find?_filter]
  congr 2
  funext names
  simp [suits]

theorem firstBelow?_eq_none_iff :
    firstBelow? fs name folder = none ↔ ∀ names, ¬ LiesBelow fs folder name names := by
  rw [firstBelow?_eq_map, Option.map_eq_none_iff, List.find?_eq_none]
  simp only [liesBelow_iff, not_and]

/-- The listing of a folder gives the least file first. -/
theorem firstBelow?_eq_some_iff {path : Path} :
    firstBelow? fs name folder = some path ↔ IsLeastBelow fs folder name path := by
  rw [firstBelow?_eq_map, Option.map_eq_some_iff]
  have hsorted := FileSystem.pairwise_filesBelow fs folder
  constructor
  · rintro ⟨names, hfound, rfl⟩
    have hnames := liesBelow_iff.2 ⟨List.mem_of_find?_eq_some hfound, List.find?_some hfound⟩
    refine ⟨names, rfl, hnames, fun other hother ↦ ?_⟩
    obtain ⟨hmem, hlies⟩ := liesBelow_iff.1 hother
    rcases rel_of_find?_eq_some hsorted hfound hmem hlies with rfl | hlt
    · exact List.le_refl _
    · exact List.le_of_lt (Text.map_bytes_lt_map_bytes hlt)
  · rintro ⟨names, rfl, hnames, hleast⟩
    obtain ⟨hmem, hlies⟩ := liesBelow_iff.1 hnames
    -- the search finds something, which comes no later than the least names and is no less
    obtain ⟨found, hfound⟩ := List.find?_isSome.2 ⟨names, hmem, hlies⟩ |> Option.isSome_iff_exists.1
    have hlow := hleast found
      (liesBelow_iff.2 ⟨List.mem_of_find?_eq_some hfound, List.find?_some hfound⟩)
    rcases rel_of_find?_eq_some hsorted hfound hmem hlies with rfl | hlt
    · exact ⟨_, hfound, rfl⟩
    · exact absurd (Text.map_bytes_lt_map_bytes hlt) (List.not_lt.2 hlow)

theorem deep?_eq_find? (fs : FileSystem) (options : SearchOptions) (name : String)
    (searchFolders : List Path) :
    deep? fs options name searchFolders =
      (if options.recursive then searchFolders.filterMap (firstBelow? fs name) else []).find?
        fs.isFile := by
  unfold deep?
  split
  · induction searchFolders with
    | nil => rfl
    | cons folder rest ih =>
      rw [List.findSome?_cons, List.filterMap_cons, ← firstBelow?]
      cases hfirst : firstBelow? fs name folder with
      | none => exact ih
      | some path =>
        have hfile : fs.isFile path := List.find?_some hfirst
        exact (List.find?_cons_of_pos hfile).symm
  · rfl

/-- A search takes the first of the places that is a file. In the subfolders of a search folder
there is only the least file to be taken, if there is any. -/
theorem find?_eq_first (fs : FileSystem) (options : SearchOptions) (r : Reference) (folder : Path)
    (searchFolders : List Path) :
    ∃ least : Path → Option Path,
      (∀ searchFolder path,
        least searchFolder = some path ↔ IsLeastBelow fs searchFolder r.fileName path) ∧
      (∀ searchFolder,
        least searchFolder = none ↔ ∀ names, ¬ LiesBelow fs searchFolder r.fileName names) ∧
      find? fs options r folder searchFolders =
        (places least options r folder searchFolders).find? fs.isFile := by
  refine ⟨firstBelow? fs r.fileName, fun _ _ ↦ firstBelow?_eq_some_iff,
    fun _ ↦ firstBelow?_eq_none_iff, ?_⟩
  have hdeclared : (r.declared?.map folder.join).toList =
      (r.declaredPath.toList.map slashed).map (fun declared ↦
        if declared.isAbsolute then declared else folder.join declared) := by
    have hjoin : folder.join = fun declared ↦
        if declared.isAbsolute then declared else folder.join declared := by
      funext declared
      split
      · exact Path.join_of_isAbsolute ‹_›
      · rfl
    rw [← hjoin, ← Option.toList_map, ← Option.toList_map]
    rfl
  have habove : above options ⟨r.fileName⟩ folder =
      if options.includeParent then folder.parent?.toList.flatMap (fun parent ↦
        [parent.join ⟨r.fileName⟩, (parent.join ⟨"macros"⟩).join ⟨r.fileName⟩]) else [] := by
    unfold above
    cases options.includeParent <;> cases folder.parent? <;> rfl
  rw [find?_eq, deep?_eq_find?, ← List.find?_append, ← List.find?_append, near, declared, beside,
    hdeclared, habove]
  simp only [places, List.append_assoc, macroFolder, capitalMacroFolder]

/-- A macro in a folder beside a workflow, two in subfolders of another folder, and one above. -/
def scatteredFiles : FileSystem :=
  [["flows", "sub", "X.yxmc"], ["lib", "a", "z", "X.yxmc"], ["lib", "a.b", "X.yxmc"],
      ["X.yxmc"]].foldl
    (fun fs names ↦ fs.put names (.file ⟨#[]⟩) trivial) (.empty [])

/-- What is found for a macro that is declared under a path, from a workflow in `/flows` and with the
search folder `/lib`. -/
def scattered (options : SearchOptions) (declared : String) : Option String :=
  (find? scatteredFiles options ⟨"X", some declared⟩ ⟨"/flows"⟩ [⟨"/lib"⟩]).map Path.text

/-- The declared path comes first and the folder above last, and `a` before `a.b`. -/
theorem find?_eq_first_scattered :
    (∃ least : Path → Option Path,
      (∀ path, least ⟨"/lib"⟩ = some path ↔
        IsLeastBelow scatteredFiles ⟨"/lib"⟩ "X.yxmc" path) ∧
      (places least .everywhere ⟨"X", some "sub\\X.yxmc"⟩ ⟨"/flows"⟩ [⟨"/lib"⟩]).map Path.text =
        ["/flows/sub/X.yxmc", "/flows/X.yxmc", "/flows/macros/X.yxmc", "/flows/Macros/X.yxmc",
          "/lib/X.yxmc", "/lib/a/z/X.yxmc", "/X.yxmc", "/macros/X.yxmc"] ∧
      find? scatteredFiles .everywhere ⟨"X", some "sub\\X.yxmc"⟩ ⟨"/flows"⟩ [⟨"/lib"⟩] =
        (places least .everywhere ⟨"X", some "sub\\X.yxmc"⟩ ⟨"/flows"⟩ [⟨"/lib"⟩]).find?
          scatteredFiles.isFile) ∧
      scattered .everywhere "sub\\X.yxmc" = some "/flows/sub/X.yxmc" ∧
      scattered .everywhere "\\lib\\a.b/X.yxmc" = some "/lib/a.b/X.yxmc" ∧
      scattered .everywhere "gone\\X.yxmc" = some "/lib/a/z/X.yxmc" ∧
      scattered ⟨false, true⟩ "gone\\X.yxmc" = some "/X.yxmc" ∧
      scattered ⟨false, false⟩ "gone\\X.yxmc" = none := by
  refine ⟨?_, by decide +kernel⟩
  obtain ⟨least, hleast, -, hfind⟩ := find?_eq_first scatteredFiles .everywhere
    ⟨"X", some "sub\\X.yxmc"⟩ ⟨"/flows"⟩ [⟨"/lib"⟩]
  have hlib : least ⟨"/lib"⟩ = some ⟨"/lib/a/z/X.yxmc"⟩ :=
    (hleast _ _).2 (firstBelow?_eq_some_iff.1 rfl)
  refine ⟨least, hleast ⟨"/lib"⟩, ?_, hfind⟩
  simp only [places, SearchOptions.everywhere, if_true, List.filterMap_cons, hlib, List.filterMap_nil]
  decide +kernel

end Provenance.Search

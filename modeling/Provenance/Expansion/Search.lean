import Provenance.FileSystem
import Provenance.Reference

/-!
# Search

Where the file of a macro may be, nearest first: at the declared path, in the folder of the calling
document and its `macros` and `Macros`, in the search folders, in their subfolders, and in the
folder above the calling document and its `macros`. The first file found is taken.
-/

namespace Provenance

/-- Which of the farther places are looked into. -/
structure SearchOptions where
  recursive : Bool
  includeParent : Bool
  deriving DecidableEq, Repr

namespace SearchOptions

/-- All places are looked into. -/
def everywhere : SearchOptions := ⟨true, true⟩

end SearchOptions

namespace Search

/-- The subfolder that is looked into next to any document. -/
def macroFolder : Path := ⟨"macros"⟩

/-- The other spelling of that subfolder, which is looked into beside a calling document only. -/
def capitalMacroFolder : Path := ⟨"Macros"⟩

/-- The declared path, read from the folder of the calling document. -/
def declared (r : Reference) (folder : Path) : List Path :=
  (r.declared?.map folder.join).toList

/-- The files of a given name in the folder of the calling document and beside it. -/
def beside (file folder : Path) : List Path :=
  [folder.join file, (folder.join macroFolder).join file,
   (folder.join capitalMacroFolder).join file]

/-- The files of a given name in the folder above the calling document. -/
def above (options : SearchOptions) (file folder : Path) : List Path :=
  match options.includeParent, folder.parent? with
  | true, some parent => [parent.join file, (parent.join macroFolder).join file]
  | _, _ => []

/-- The places before the search folders' subfolders. -/
def near (r : Reference) (folder : Path) (searchFolders : List Path) : List Path :=
  let file : Path := ⟨r.fileName⟩
  declared r folder ++ beside file folder ++ searchFolders.map (·.join file)

/-- All places that can be named without listing a folder, in order. -/
def candidates (options : SearchOptions) (r : Reference) (folder : Path)
    (searchFolders : List Path) : List Path :=
  near r folder searchFolders ++ above options ⟨r.fileName⟩ folder

/-- The paths that end in a given name and lead into a subfolder of a folder, however deep. -/
def inSubfolders (fs : FileSystem) (name : String) (folder : Path) : List Path :=
  ((fs.filesBelow folder).filter
    (fun names ↦ 2 ≤ names.length && names.getLast? = some name)).map (FileSystem.below folder)

/-- The first file of a given name in the subfolders of the search folders. -/
def deep? (fs : FileSystem) (options : SearchOptions) (name : String) (searchFolders : List Path) :
    Option Path :=
  if options.recursive then
    searchFolders.findSome? (fun folder ↦ (inSubfolders fs name folder).find? fs.isFile)
  else none

/-- How many candidates lie above the folder of the calling document. They are the last ones. -/
def countAbove (options : SearchOptions) (folder : Path) : Nat :=
  if options.includeParent && folder.parent?.isSome then 2 else 0

/-- The file of a macro. Subfolders are listed only if no candidate before those above the calling
document is a file. -/
def find? (fs : FileSystem) (options : SearchOptions) (r : Reference) (folder : Path)
    (searchFolders : List Path) : Option Path :=
  let places := candidates options r folder searchFolders
  let (first, last) := places.splitAt (places.length - countAbove options folder)
  (first.find? fs.isFile).or
    ((deep? fs options r.fileName searchFolders).or (last.find? fs.isFile))

theorem length_above (options : SearchOptions) (file folder : Path) :
    (above options file folder).length = countAbove options folder := by
  unfold above countAbove
  cases options.includeParent <;> cases folder.parent? <;> rfl

/-- The candidates are cut where those above the calling document begin. -/
theorem find?_eq (fs : FileSystem) (options : SearchOptions) (r : Reference) (folder : Path)
    (searchFolders : List Path) :
    find? fs options r folder searchFolders =
      ((near r folder searchFolders).find? fs.isFile).or
        ((deep? fs options r.fileName searchFolders).or
          ((above options ⟨r.fileName⟩ folder).find? fs.isFile)) := by
  have hcut : (candidates options r folder searchFolders).length - countAbove options folder =
      (near r folder searchFolders).length := by
    rw [candidates, List.length_append, length_above, Nat.add_sub_cancel]
  simp only [find?, hcut, List.splitAt_eq]
  rw [candidates, List.take_left, List.drop_left]

theorem isFile_of_deep? {fs : FileSystem} {options : SearchOptions} {name : String}
    {searchFolders : List Path} {found : Path}
    (h : deep? fs options name searchFolders = some found) : fs.isFile found := by
  unfold deep? at h
  split at h
  · obtain ⟨folder, -, hfound⟩ := List.exists_of_findSome?_eq_some h
    exact List.find?_some hfound
  · cases h

/-- Whatever is found is a file. -/
theorem isFile_of_find? {fs : FileSystem} {options : SearchOptions} {r : Reference} {folder : Path}
    {searchFolders : List Path} {found : Path}
    (h : find? fs options r folder searchFolders = some found) : fs.isFile found := by
  rw [find?_eq] at h
  rcases Option.or_eq_some_iff.1 h with hnear | ⟨-, h⟩
  · exact List.find?_some hnear
  · rcases Option.or_eq_some_iff.1 h with hdeep | ⟨-, habove⟩
    · exact isFile_of_deep? hdeep
    · exact List.find?_some habove

end Search

end Provenance

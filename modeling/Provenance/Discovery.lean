import Provenance.FileSystem

/-!
# Discovery

The workflow files that a list of files and folders stands for. A file stands for itself, a folder
for the workflow files below it; macro files are found through the workflows that call them and have
to be named to be included.
-/

namespace Provenance.Discovery

/-- The extensions of the files that a folder stands for. -/
def extensions : List String := ["yxmd", "yxwz"]

/-- A path that denotes nothing. -/
structure NotFound where
  path : Path
  deriving Repr

def NotFound.message (e : NotFound) : String :=
  s!"Path does not exist: {e.path.text}"

/-- The workflow files that a path stands for. -/
def expand (fs : FileSystem) (path : Path) : Except NotFound (List Path) :=
  if fs.isFile path then .ok [path]
  else if fs.isFolder path then
    .ok (((fs.filesBelow path).map (FileSystem.below path)).filter (Path.hasExtension extensions))
  else .error ⟨path⟩

/-- The list without the elements that equal the one before them. -/
def dropRepeats : List Path → List Path
  | p :: q :: rest =>
    if p == q then dropRepeats (p :: rest) else p :: dropRepeats (q :: rest)
  | paths => paths

/-- The workflow files that a list of paths stands for, in order. -/
def discover (fs : FileSystem) (paths : List Path) : Except NotFound (List Path) :=
  match paths.mapM (expand fs) with
  | .error e => .error e
  | .ok found => .ok (dropRepeats (found.flatten.mergeSort Path.le))

end Provenance.Discovery

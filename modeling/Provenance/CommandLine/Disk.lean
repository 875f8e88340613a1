import Provenance.CommandLine.Footprint

/-!
# The disk

Copies what a command looks at from the disk into a file system, and what it has written back.
Links are followed where a path names them and passed over below a folder.
-/

namespace Provenance.CommandLine.Disk

/-- Adds a file and the folders above it. -/
def withFile (fs : FileSystem) (path : Path) (content : ByteArray) : FileSystem :=
  ((fs.makeFolders path.directory).bind (·.write path content)).toOption.getD fs

/-- Adds a folder and the folders above it. -/
def withFolder (fs : FileSystem) (path : Path) : FileSystem :=
  (fs.makeFolders path).toOption.getD fs

/-- The paths that a look-up passes through, up to the path itself. -/
def leading (path : Path) : List Path :=
  let segments := Text.pieces '/' path.text.toList
  (List.range segments.length).map
    (fun k ↦ ⟨String.ofList (['/'].intercalate (segments.take (k + 1)))⟩)

/-- Adds a file with its content, or a folder without its entries. -/
def addPlace (fs : FileSystem) (path : Path) : IO FileSystem := do
  if (FileSystem.unusable? path).isSome then return fs
  let .ok real ← (IO.FS.realPath path.text).toBaseIO | return fs
  if ← real.isDir then return withFolder fs ⟨real.toString⟩
  let .ok content ← (IO.FS.readBinFile real).toBaseIO | return fs
  return withFile fs ⟨real.toString⟩ content

/-- Adds a file, or a folder with everything below it. Of files that are no workflows only the names
matter. -/
partial def addTree (fs : FileSystem) (path : Path) : IO FileSystem := do
  let .ok real ← (IO.FS.realPath path.text).toBaseIO | return fs
  let spelled : Path := ⟨real.toString⟩
  if ← real.isDir then
    let mut fs := withFolder fs spelled
    for entry in ← real.readDir do
      if let .ok target ← (IO.FS.realPath entry.path).toBaseIO then
        if target == entry.path then fs ← addTree fs ⟨target.toString⟩
    return fs
  else if spelled.hasExtension Document.extensions then addPlace fs spelled
  else if fs.isFile spelled then return fs
  else return withFile fs spelled .empty

/-- Adds a footprint. -/
def addFootprint (fs : FileSystem) (footprint : Footprint) : IO FileSystem := do
  let fs ← footprint.trees.foldlM addTree fs
  ((footprint.places ++ footprint.trees).flatMap leading).foldlM addPlace fs

/-- Adds footprints until there are no more files to add. -/
partial def addAll (footprint : FileSystem → Footprint) (fs : FileSystem) : IO FileSystem := do
  let next ← addFootprint fs (footprint fs)
  if next.fileCount = fs.fileCount then return next else addAll footprint next

/-- The part of the disk that a program run looks at. -/
def read (arguments : List String) (typed : List Path) : IO FileSystem := do
  let folder : Path := ⟨(← IO.FS.realPath (← IO.currentDir)).toString⟩
  let names := folder.components.filterMap fun
    | .normal name => some name
    | _ => none
  addAll (Footprint.ofArguments arguments typed) (FileSystem.empty names)

/-- Writes the files that a program run has changed. -/
def write (arguments : List String) (before after : FileSystem) : IO Unit := do
  let .run _ command := Arguments.parse arguments | return
  for path in command.outputs do
    if let .ok (.file content) := after.lookup path then
      let old := match before.lookup path with
        | .ok (.file content) => some content
        | _ => none
      if old != some content then IO.FS.writeBinFile path.text content

end Provenance.CommandLine.Disk

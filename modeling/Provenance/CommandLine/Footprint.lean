import Provenance.CommandLine.Run

/-!
# Footprints

What a command looks at, as far as its arguments and the files known so far tell. Files that become
known may call macros at further places, so a footprint is taken again until it brings nothing new.
-/

namespace Provenance.CommandLine

/-- Single places, and folders with everything below them. -/
structure Footprint where
  places : List Path
  trees : List Path

/-- The files that a command writes. -/
def Command.outputs : Command → List Path
  | lineage _ output report => [output, report]
  | macros _ report => report.toList

namespace Footprint

/-- The documents among the files that are known, by the paths under which they may be opened. -/
def documents (fs : FileSystem) (scope : Scope) : List Path :=
  let named := (Discovery.discover fs scope.paths).toOption.getD []
  named ++ (fs.root.files.map FileSystem.absolute).filter (Path.hasExtension Document.extensions)

/-- The places where the macros that a document calls may be. -/
def callees (fs : FileSystem) (folders : List Path) (path : Path) : List Path :=
  match Document.load fs path with
  | .error _ => []
  | .ok document =>
    (document.nodes.filterMap Node.reference).flatMap
      (fun reference ↦ Search.candidates .everywhere reference document.directory folders)

/-- What a command looks at. Paths that an operator has typed are looked at too. -/
def ofCommand (fs : FileSystem) (options : GlobalOptions) (command : Command)
    (typed : List Path) : Footprint :=
  let scope := command.scope
  let configured :=
    match readConfig options (⟨fs, "", "", ()⟩ : Effects Unit) with
    | .ok (config, _) => config.searchFolders
    | .error _ => []
  let folders := configured ++ scope.macroFolders ++ typed
  { places := options.config.getD defaultConfig :: command.outputs ++
      (documents fs scope).flatMap (callees fs folders)
    trees := scope.paths ++ folders }

/-- What the arguments make the program look at. -/
def ofArguments (arguments : List String) (typed : List Path) (fs : FileSystem) : Footprint :=
  match Arguments.parse arguments with
  | .run options command => ofCommand fs options command typed
  | _ => ⟨[], []⟩

end Footprint

end Provenance.CommandLine

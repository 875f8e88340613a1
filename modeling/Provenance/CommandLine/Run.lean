import Provenance.Batch.Json
import Provenance.CommandLine.Arguments
import Provenance.CommandLine.Summary
import Provenance.Config.File
import Provenance.Discovery
import Provenance.Graph.Json

/-!
# Running a command

A command reads its settings, finds the workflow files, takes them through a batch, writes the
results and shows a summary. It fails if a step fails or if the report has errors; what was written
before stays.
-/

namespace Provenance.CommandLine

/-- The settings file that is read if none is named. -/
def defaultConfig : Path := ⟨"flowlineage.toml"⟩

/-- The program's name and version. -/
def versionLine : String := line "flowlineage 0.1.0"

/-- How the program is used. -/
def usage : String :=
  String.join
    [line "Macro resolution and data lineage for ETL workflows",
     line "",
     line "Usage: flowlineage [OPTIONS] lineage [-o FILE] [-r FILE] [-m DIR]... PATH...",
     line "       flowlineage [OPTIONS] macros [-r FILE] [-m DIR]... PATH...",
     line "",
     line "Options:",
     line "  -c, --config FILE      Path to config file",
     line "  -v, --verbose          Enable verbose output",
     line "  -o, --output FILE      Output file for the lineage graphs",
     line "  -r, --report FILE      Output file for the report",
     line "  -m, --macro-dir DIR    Additional macro search directory",
     line "      --non-interactive  Never prompt",
     line "  -h, --help             Print help",
     line "  -V, --version          Print version"]

/-- Why a command could not be carried out, with the cause behind it if there is one. -/
structure Trouble where
  message : String
  cause : Option String

namespace Trouble

/-- The lines that tell of the trouble. Every line of the cause is set in by four blanks. -/
def text (t : Trouble) : String :=
  line s!"Error: {t.message}" ++
    match t.cause with
    | some cause =>
      line "" ++ line "Caused by:" ++
        String.join ((Text.split '\n' cause).map (fun part ↦ line s!"    {part}"))
    | none => ""

end Trouble

/-- What a command shows and leaves behind, and the state of its operator. -/
structure Effects (σ : Type) where
  files : FileSystem
  output : String
  notes : String
  operator : σ

namespace Effects

variable {σ : Type}

/-- Adds to the output. -/
def print (e : Effects σ) (text : String) : Effects σ :=
  { e with output := e.output ++ text }

/-- Adds a note for those who asked for notes. -/
def note (e : Effects σ) (verbose : Bool) (text : String) : Effects σ :=
  if verbose then { e with notes := e.notes ++ line text } else e

end Effects

/-- The end of a command: its exit code and its effects. -/
structure Ending (σ : Type) where
  code : Nat
  effects : Effects σ

namespace Ending

variable {σ : Type}

/-- A command that could not be carried out. -/
def trouble (e : Effects σ) (t : Trouble) : Ending σ :=
  ⟨1, { e with notes := e.notes ++ t.text }⟩

/-- A command that was carried out: it fails if its report has errors. -/
def ofReport (e : Effects σ) (report : Report) : Ending σ :=
  ⟨if report.hasErrors then 1 else 0, e⟩

end Ending

variable {σ : Type}

/-- The settings: from the named file, or the default one, or the default settings. -/
def readConfig (options : GlobalOptions) (e : Effects σ) : Except Trouble (Config × Effects σ) :=
  let read (path : Path) : Except Trouble (Config × Effects σ) :=
    match Config.ofFile e.files path with
    | .ok config => .ok (config, e)
    | .error cause => .error ⟨cause.message, none⟩
  match options.config with
  | some path => read path
  | none =>
    if e.files.holds defaultConfig then read defaultConfig
    else
      .ok (.default (FileSystem.absolute e.files.workingFolder),
        e.note options.verbose "No config file found, using defaults")

/-- Runs the batch of a command. -/
def runBatch (operator : Operator σ) (verbose : Bool) (config : Config) (scope : Scope)
    (e : Effects σ) : Except Trouble (Batch × Effects σ) :=
  match Discovery.discover e.files scope.paths with
  | .error missing => .error ⟨"Failed to discover workflows", some missing.message⟩
  | .ok [] => .error ⟨"No workflow files (.yxmd, .yxwz) found", none⟩
  | .ok paths =>
    let e := e.note verbose s!"Found {paths.length} workflow(s)"
    let asks := config.macros.interactive && !scope.nonInteractive && operator.isInteractive
    let e :=
      if asks then e
      else e.note verbose "Non-interactive: unlocated macros are reported as missing"
    let operator := { operator with isInteractive := asks }
    let context := Context.start (config.searchFolders ++ scope.macroFolders)
    let (b, s) := (Pipeline.ofConfig e.files operator config).run paths ⟨context, e.operator⟩
    let e := { e with operator := s.operator }
    let asked := 0 < s.context.prompts
    .ok (b, if asked then e.note verbose s!"Answered {s.context.prompts} macro prompt(s)" else e)

/-- Writes a text to a file. -/
def writeFile (what : String) (path : Path) (text : String) (e : Effects σ) :
    Except Trouble (Effects σ) :=
  match e.files.write path text.toUTF8 with
  | .ok files => .ok { e with files := files }
  | .error cause => .error ⟨s!"Failed to write {what} to {path.text}", some cause.message⟩

/-- Writes the report to a file. -/
def writeReport (verbose : Bool) (path : Path) (report : Report) (e : Effects σ) :
    Except Trouble (Effects σ) :=
  (writeFile "report" path report.text e).map (·.note verbose s!"Report saved to: {path.text}")

/-- Writes and shows the results of a batch. -/
def finish (timestamp : String) (verbose : Bool) (command : Command) (b : Batch)
    (e : Effects σ) : Ending σ :=
  let report := b.toReport timestamp
  match command with
  | .lineage _ output reportPath =>
    let graphs := (Json.array (b.graphs.map Graph.toJson)).indented
    match writeFile "lineage graphs" output graphs e with
    | .error t => .trouble e t
    | .ok e =>
      let e := e.note verbose s!"Lineage saved to: {output.text}"
      match writeReport verbose reportPath report e with
      | .error t => .trouble e t
      | .ok e => .ofReport (e.print (graphSummary b ++ reportSummary report)) report
  | .macros _ none => .ofReport (e.print (inventorySummary b.inventory)) report
  | .macros _ (some path) =>
    match writeReport verbose path report e with
    | .error t => .trouble e t
    | .ok e => .ofReport (e.print (inventorySummary b.inventory)) report

/-- The files that a command works on. -/
def Command.scope : Command → Scope
  | lineage scope _ _ => scope
  | macros scope _ => scope

/-- Runs a command. -/
def runCommand (operator : Operator σ) (timestamp : String) (options : GlobalOptions)
    (command : Command) (e : Effects σ) : Ending σ :=
  match readConfig options e with
  | .error t => .trouble e t
  | .ok (config, e) =>
    match runBatch operator options.verbose config command.scope e with
    | .error t => .trouble e t
    | .ok (b, e) => finish timestamp options.verbose command b e

/-- Does what the arguments ask for. -/
def run (operator : Operator σ) (state : σ) (timestamp : String) (files : FileSystem)
    (arguments : List String) : Ending σ :=
  let e : Effects σ := ⟨files, "", "", state⟩
  match Arguments.parse arguments with
  | .usageError => ⟨2, { e with notes := usage }⟩
  | .help => ⟨0, e.print usage⟩
  | .version => ⟨0, e.print versionLine⟩
  | .run options command => runCommand operator timestamp options command e

end Provenance.CommandLine

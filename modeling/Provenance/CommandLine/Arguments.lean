import Provenance.Path
import Provenance.Text

/-!
# Arguments

What the arguments of the command line ask for. Options may be written with one letter or in full
and may stand anywhere; single letters may be run together. Whatever does not fit is a usage error.
-/

namespace Provenance.CommandLine

/-- The options that concern every command. -/
structure GlobalOptions where
  config : Option Path
  verbose : Bool
  deriving Repr, Inhabited

/-- The files to work on and where their macros are. -/
structure Scope where
  paths : List Path
  macroFolders : List Path
  nonInteractive : Bool
  deriving Repr, Inhabited

/-- What to do with the files. -/
inductive Command where
  | lineage (scope : Scope) (output report : Path)
  | macros (scope : Scope) (report : Option Path)
  deriving Repr

/-- What the arguments ask for. -/
inductive Arguments where
  | run (options : GlobalOptions) (command : Command)
  | help
  | version
  | usageError
  deriving Repr

/-- The options there are. -/
inductive Flag where
  | config
  | verbose
  | help
  | version
  | output
  | report
  | macroDir
  | nonInteractive
  deriving DecidableEq, Repr

namespace Flag

def all : List Flag :=
  [config, verbose, help, version, output, report, macroDir, nonInteractive]

/-- The letter of an option, if it has one. -/
def letter : Flag → Option Char
  | config => some 'c'
  | verbose => some 'v'
  | help => some 'h'
  | version => some 'V'
  | output => some 'o'
  | report => some 'r'
  | macroDir => some 'm'
  | nonInteractive => none

/-- The full name of an option. -/
def word : Flag → String
  | config => "config"
  | verbose => "verbose"
  | help => "help"
  | version => "version"
  | output => "output"
  | report => "report"
  | macroDir => "macro-dir"
  | nonInteractive => "non-interactive"

/-- Whether a value follows the option. -/
def takesValue : Flag → Bool
  | config | output | report | macroDir => true
  | _ => false

/-- Whether an option may be given more than once. -/
def isRepeatable : Flag → Bool
  | macroDir => true
  | _ => false

end Flag

/-- The place of an argument: before a command or after it. -/
inductive Level where
  | top
  | lineage
  | macros
  deriving DecidableEq, Repr

namespace Level

/-- The command that a word names. -/
def ofWord? : String → Option Level
  | "lineage" => some lineage
  | "macros" => some macros
  | _ => none

/-- The options that may stand in a place. -/
def flags : Level → List Flag
  | top => [.config, .verbose, .help, .version]
  | lineage => [.config, .verbose, .help, .output, .report, .macroDir, .nonInteractive]
  | macros => [.config, .verbose, .help, .report, .macroDir, .nonInteractive]

end Level

/-- The options and files read in one place, latest first. -/
structure Reading where
  level : Level
  flags : List Flag
  values : List (Flag × String)
  files : List String

namespace Reading

def start (level : Level) : Reading := ⟨level, [], [], []⟩

/-- The last value of an option. -/
def value? (r : Reading) (flag : Flag) : Option String :=
  (r.values.find? (fun entry ↦ entry.1 = flag)).map Prod.snd

/-- All values of an option in order. -/
def valuesOf (r : Reading) (flag : Flag) : List String :=
  (r.values.reverse.filter (fun entry ↦ entry.1 = flag)).map Prod.snd

/-- Adds an option without a value. -/
def addFlag (r : Reading) (flag : Flag) : Option Reading :=
  if flag ∈ r.flags then none else some { r with flags := flag :: r.flags }

/-- Adds an option with its value, which must not be empty. -/
def addValue (r : Reading) (flag : Flag) (value : String) : Option Reading :=
  if value = "" ∨ ((r.value? flag).isSome ∧ !flag.isRepeatable) then none
  else some { r with values := (flag, value) :: r.values }

/-- Adds a file. Files are named after a command only. -/
def addFile (r : Reading) (file : String) : Option Reading :=
  if file = "" ∨ r.level = .top then none else some { r with files := file :: r.files }

end Reading

/-- How far the arguments have been read. -/
inductive Progress where
  | reading (r : Reading)
  /-- An option still lacks its value. -/
  | awaiting (r : Reading) (flag : Flag)
  | done (arguments : Arguments)

namespace Progress

/-- Goes on reading unless there was a mistake. -/
def ofOption : Option Reading → Progress
  | some r => reading r
  | none => done .usageError

/-- Takes in an option without a value. -/
def takeFlag (r : Reading) (flag : Flag) : Progress :=
  match flag with
  | .help => done .help
  | .version => done .version
  | flag => ofOption (r.addFlag flag)

/-- Takes in letters that are run together. The rest of the argument is the value of the first
option that takes one. -/
def takeLetters : Reading → List Char → Progress
  | r, [] => reading r
  | r, c :: rest =>
    match r.level.flags.find? (fun flag ↦ flag.letter = some c) with
    | none => done .usageError
    | some flag =>
      if flag.takesValue then
        match rest with
        | [] => awaiting r flag
        | '=' :: value => ofOption (r.addValue flag (String.ofList value))
        | value => ofOption (r.addValue flag (String.ofList value))
      else
        match takeFlag r flag with
        | reading r => takeLetters r rest
        | other => other

/-- Takes in an option that is written in full, with its value if it has one. -/
def takeWord (r : Reading) (word : String) (value : Option String) : Progress :=
  match r.level.flags.find? (fun flag ↦ flag.word = word), value with
  | none, _ => done .usageError
  | some flag, some value =>
    if flag.takesValue then ofOption (r.addValue flag value) else done .usageError
  | some flag, none => if flag.takesValue then awaiting r flag else takeFlag r flag

/-- Takes in an argument that begins with a hyphen and is longer than that. -/
def takeOption (r : Reading) (argument : List Char) : Progress :=
  match argument with
  | '-' :: '-' :: rest =>
    let word := String.ofList (rest.takeWhile (· ≠ '='))
    match rest.dropWhile (· ≠ '=') with
    | [] => takeWord r word none
    | _ :: value => takeWord r word (some (String.ofList value))
  | _ :: rest => takeLetters r rest
  | [] => reading r

end Progress

/-- The arguments of a command once all have been read: what was given before it and after it. -/
def assemble (top r : Reading) : Arguments :=
  let options : GlobalOptions :=
    { config := ((r.value? .config).or (top.value? .config)).map Path.mk
      verbose := .verbose ∈ top.flags || .verbose ∈ r.flags }
  let scope : Scope :=
    { paths := r.files.reverse.map Path.mk
      macroFolders := (r.valuesOf .macroDir).map Path.mk
      nonInteractive := .nonInteractive ∈ r.flags }
  if scope.paths.isEmpty then .usageError
  else
    match r.level with
    | .top => .usageError
    | .lineage =>
      .run options (.lineage scope ⟨(r.value? .output).getD "lineage.json"⟩
        ⟨(r.value? .report).getD "report.json"⟩)
    | .macros => .run options (.macros scope ((r.value? .report).map Path.mk))

/-- Whether an argument is an option: it begins with a hyphen and is longer than that. -/
def isOption (argument : String) : Bool :=
  match argument.toList with
  | '-' :: _ :: _ => true
  | _ => false

/-- The word that asks for help in place of a command. -/
def helpWord : String := "help"

/-- What a request for help asks for: there is help on the whole and on each single word. -/
def helpOn : List String → Arguments
  | [] => .help
  | [word] => if word = helpWord ∨ (Level.ofWord? word).isSome then .help else .usageError
  | _ => .usageError

/-- Reads the rest of the arguments, given what was read before the command. -/
def readFrom (top : Option Reading) : Progress → List String → Arguments
  | .done arguments, _ => arguments
  | .awaiting _ _, [] => .usageError
  | .awaiting r flag, argument :: rest =>
    if isOption argument then .usageError
    else readFrom top (Progress.ofOption (r.addValue flag argument)) rest
  | .reading r, [] =>
    match top with
    | some top => assemble top r
    | none => .usageError
  | .reading r, argument :: rest =>
    if argument = "--" then
      match rest.foldlM Reading.addFile r, top with
      | some r, some top => assemble top r
      | _, _ => .usageError
    else if isOption argument then readFrom top (Progress.takeOption r argument.toList) rest
    else
      match top, Level.ofWord? argument with
      | some _, _ => readFrom top (Progress.ofOption (r.addFile argument)) rest
      | none, some level => readFrom (some r) (.reading (.start level)) rest
      | none, none => if argument = helpWord then helpOn rest else .usageError

/-- What the arguments ask for. -/
def Arguments.parse (arguments : List String) : Arguments :=
  readFrom none (.reading (.start .top)) arguments

end Provenance.CommandLine

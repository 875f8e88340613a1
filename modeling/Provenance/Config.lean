import Provenance.Diagnostic
import Provenance.Expansion.Resolver
import Provenance.Pattern

/-!
# Configuration

The settings of a run: where macros are searched for, which tools begin and end a flow of data, and
how serious each code is.
-/

namespace Provenance

/-- Settings for the search for macros. -/
structure MacroConfig where
  searchFolders : List Path
  interactive : Bool
  recursive : Bool
  includeParent : Bool
  maxAttempts : Nat
  deriving Repr

namespace MacroConfig

def default : MacroConfig := ⟨[], true, true, true, 3⟩

/-- The resolver's options. An operator is asked once at least. -/
def options (c : MacroConfig) : ResolverOptions :=
  ⟨⟨c.recursive, c.includeParent⟩, max c.maxAttempts 1⟩

end MacroConfig

/-- Patterns for the tools that are taken for sources and for sinks. -/
structure LayerConfig where
  sourceTools : List String
  sinkTools : List String
  deriving DecidableEq, Repr

namespace LayerConfig

def default : LayerConfig := ⟨[], []⟩

def isSource (c : LayerConfig) (tool : String) : Bool :=
  c.sourceTools.any (Pattern.accepts · tool)

def isSink (c : LayerConfig) (tool : String) : Bool :=
  c.sinkTools.any (Pattern.accepts · tool)

end LayerConfig

/-- The severities that replace those of the codes, by the text of the code. -/
structure Severities where
  overrides : Table Severity
  deriving Repr

namespace Severities

def default : Severities := ⟨[]⟩

/-- The severity that is set for a code, or else the given one. -/
def getD (s : Severities) (code : Code) (fallback : Severity) : Severity :=
  (Table.find? code.name s.overrides).getD fallback

/-- The severity of a code. -/
def severity (s : Severities) (code : Code) : Severity :=
  s.getD code code.severity

/-- Sets the severity of a code. -/
def set (s : Severities) (code : Code) (severity : Severity) : Severities :=
  ⟨Table.insert code.name severity s.overrides⟩

end Severities

/-- The settings of a run. -/
structure Config where
  macros : MacroConfig
  layers : LayerConfig
  severities : Severities
  /-- The folder that relative search folders start from. -/
  projectRoot : Path
  deriving Repr

namespace Config

def default (projectRoot : Path) : Config :=
  ⟨.default, .default, .default, projectRoot⟩

/-- The search folders, read from the project's root. -/
def searchFolders (c : Config) : List Path :=
  c.macros.searchFolders.map c.projectRoot.join

end Config

end Provenance

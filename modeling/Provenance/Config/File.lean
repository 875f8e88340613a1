import Provenance.Config
import Provenance.Toml.Reader

/-!
# Configuration files

The settings in a TOML text. A setting that is left out has its default, one that is not known is
ignored, and one of the wrong kind makes the whole text unusable. A section may also be given as a
list of its settings in order.
-/

namespace Provenance

/-- Why there are no settings. -/
inductive ConfigError where
  | unreadable (cause : FileError)
  | malformed
  deriving DecidableEq, Repr

namespace ConfigError

/-- The message, which says nothing about where a text is malformed. -/
def message : ConfigError → String
  | unreadable cause => s!"IO error: {cause.message}"
  | malformed => "Parse error: "

end ConfigError

namespace Toml

def text? : Toml → Option String
  | string value => some value
  | _ => none

def flag? : Toml → Option Bool
  | boolean value => some value
  | _ => none

/-- A number that is not negative. -/
def count? : Toml → Option Nat
  | integer n => if 0 ≤ n then some n.toNat else none
  | _ => none

def texts? (value : Toml) : Option (List String) :=
  value.items?.bind (fun items ↦ items.mapM text?)

/-- Whether a table or a list has nothing in it. -/
def isHollow (value : Toml) : Bool :=
  value.entries?.any List.isEmpty || value.items?.any List.isEmpty

/-- A word out of a fixed choice: a text, or the key of a table that holds one hollow value. -/
def choice? (value : Toml) : Option String :=
  match value.text?, value.entries? with
  | some text, _ => some text
  | none, some [(key, inner)] => if inner.isHollow then some key else none
  | none, _ => none

/-- The settings of a section by name; in a list they stand in the order of `names`, and a point in
time has none. -/
def section? (names : List String) (value : Toml) : Option Entries :=
  match value with
  | moment => some []
  | value => value.entries?.or (value.items?.map (names.zip ·))

/-- The setting with a name, or its default. -/
def setting? {α : Type} (decode : Toml → Option α) (fallback : α) (name : String)
    (entries : Entries) : Option α :=
  match Table.find? name entries with
  | some value => decode value
  | none => some fallback

end Toml

namespace MacroConfig

def ofToml? (value : Toml) : Option MacroConfig := do
  let entries ← value.section?
    ["search_dirs", "interactive", "recursive_search", "include_parent_dir", "max_prompt_attempts"]
  let folders ← Toml.setting? Toml.texts? [] "search_dirs" entries
  let interactive ← Toml.setting? Toml.flag? default.interactive "interactive" entries
  let recursive ← Toml.setting? Toml.flag? default.recursive "recursive_search" entries
  let includeParent ← Toml.setting? Toml.flag? default.includeParent "include_parent_dir" entries
  let maxAttempts ← Toml.setting? Toml.count? default.maxAttempts "max_prompt_attempts" entries
  return ⟨folders.map Path.mk, interactive, recursive, includeParent, maxAttempts⟩

end MacroConfig

namespace LayerConfig

def ofToml? (value : Toml) : Option LayerConfig := do
  let entries ← value.section? ["source_tools", "sink_tools"]
  let sources ← Toml.setting? Toml.texts? [] "source_tools" entries
  let sinks ← Toml.setting? Toml.texts? [] "sink_tools" entries
  return ⟨sources, sinks⟩

end LayerConfig

namespace Severities

/-- The severity of one code. -/
def overrideOfToml? (entry : String × Toml) : Option (String × Severity) :=
  (entry.2.choice?.bind Severity.ofName?).map (entry.1, ·)

def ofToml? (value : Toml) : Option Severities := do
  let entries ← value.section? ["overrides"]
  let overrides ← Toml.setting? Toml.entries? [] "overrides" entries
  let overrides ← overrides.mapM overrideOfToml?
  return ⟨Table.ofList overrides⟩

end Severities

namespace Config

/-- The settings that the entries of a file describe. -/
def ofEntries? (projectRoot : Path) (entries : Toml.Entries) : Option Config := do
  let macros ← Toml.setting? MacroConfig.ofToml? .default "macros" entries
  let layers ← Toml.setting? LayerConfig.ofToml? .default "layers" entries
  let severities ← Toml.setting? Severities.ofToml? .default "severity" entries
  return ⟨macros, layers, severities, projectRoot⟩

/-- The settings in a text. -/
def ofText (projectRoot : Path) (text : String) : Except ConfigError Config :=
  match (Toml.read? text).bind (ofEntries? projectRoot) with
  | some config => .ok config
  | none => .error .malformed

/-- The settings in a file, whose folder is the project's root. -/
def ofFile (fs : FileSystem) (path : Path) : Except ConfigError Config :=
  match fs.read path with
  | .error cause => .error (.unreadable cause)
  | .ok text => ofText (path.parent?.getD ⟨""⟩) text

end Config

end Provenance

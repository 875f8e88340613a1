import Provenance.Config
import Provenance.Document.Json
import Provenance.Report.Json

/-!
# Settings in JSON

The JSON forms of the sections of a configuration.
-/

namespace Provenance

namespace MacroConfig

def toJson (c : MacroConfig) : Json :=
  .object
    [("search_dirs", .array (c.searchFolders.map Path.toJson)),
     ("interactive", .bool c.interactive),
     ("recursive_search", .bool c.recursive),
     ("include_parent_dir", .bool c.includeParent),
     ("max_prompt_attempts", .nat c.maxAttempts)]

def ofJson? (value : Json) : Option MacroConfig := do
  let value ← value.record? ["search_dirs", "interactive", "recursive_search",
    "include_parent_dir", "max_prompt_attempts"] 0
  let folders ← value.defaulted? (Json.list? Path.ofJson?) [] "search_dirs"
  let interactive ← value.defaulted? Json.flag? default.interactive "interactive"
  let recursive ← value.defaulted? Json.flag? default.recursive "recursive_search"
  let includeParent ← value.defaulted? Json.flag? default.includeParent "include_parent_dir"
  let maxAttempts ← value.defaulted? Json.word? default.maxAttempts "max_prompt_attempts"
  return ⟨folders, interactive, recursive, includeParent, maxAttempts⟩

end MacroConfig

namespace LayerConfig

def toJson (c : LayerConfig) : Json :=
  .object [("source_tools", .strings c.sourceTools), ("sink_tools", .strings c.sinkTools)]

def ofJson? (value : Json) : Option LayerConfig := do
  let value ← value.record? ["source_tools", "sink_tools"] 0
  let sources ← value.defaulted? Json.texts? [] "source_tools"
  let sinks ← value.defaulted? Json.texts? [] "sink_tools"
  return ⟨sources, sinks⟩

end LayerConfig

namespace Severities

def toJson (s : Severities) : Json :=
  .object [("overrides", .object (Table.mapValues Severity.toJson s.overrides))]

def ofJson? (value : Json) : Option Severities := do
  let value ← value.record? ["overrides"] 0
  let overrides ← value.defaulted? (Json.table? Severity.ofJson?) [] "overrides"
  return ⟨overrides⟩

end Severities

namespace Config

def toJson (c : Config) : Json :=
  .object
    [("macros", c.macros.toJson), ("layers", c.layers.toJson), ("severity", c.severities.toJson)]

end Config

end Provenance

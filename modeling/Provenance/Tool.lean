import Provenance.Text

/-!
# Tools

What the steps of a workflow do. A tool is known by its plugin identifier, a dotted name of which
only the last part counts; the catalogue gives the category and the display name of the common ones,
and any other is displayed by splitting its name into words.
-/

namespace Provenance

/-- What a tool does with the data that flows through it. -/
inductive Category where
  | input
  | output
  | browse
  | filter
  | formula
  | join
  | union
  | summarize
  | select
  | sort
  | transform
  | macroCall
  | macroInput
  | macroOutput
  | container
  | unknown
  deriving DecidableEq, Repr, Inhabited

namespace Category

/-- Every category. -/
def all : List Category :=
  [input, output, browse, filter, formula, join, union, summarize, select, sort, transform,
   macroCall, macroInput, macroOutput, container, unknown]

/-- The name by which a category is written. -/
def name : Category → String
  | input => "input"
  | output => "output"
  | browse => "browse"
  | filter => "filter"
  | formula => "formula"
  | join => "join"
  | union => "union"
  | summarize => "summarize"
  | select => "select"
  | sort => "sort"
  | transform => "transform"
  | macroCall => "macro"
  | macroInput => "macro_input"
  | macroOutput => "macro_output"
  | container => "container"
  | unknown => "unknown"

/-- The category with a given name. -/
def ofName? (text : String) : Option Category :=
  all.find? (fun category ↦ category.name = text)

theorem ofName?_name (category : Category) : ofName? category.name = some category := by
  cases category <;> decide

end Category

namespace Tool

/-- Common plugins by the last part of their identifier, with category and display name. -/
def catalogue : List (String × Category × String) :=
  [("DbFileInput", .input, "Input Data"),
   ("TextInput", .input, "Text Input"),
   ("DynamicInput", .input, "Dynamic Input"),
   ("Directory", .input, "Directory"),
   ("LockInInput", .input, "In-DB Input"),
   ("ConnectInDB", .input, "Connect In-DB"),
   ("DbFileOutput", .output, "Output Data"),
   ("LockInOutput", .output, "In-DB Output"),
   ("LockInWrite", .output, "Write In-DB"),
   ("Render", .output, "Render"),
   ("BrowseV2", .browse, "Browse"),
   ("Browse", .browse, "Browse"),
   ("Filter", .filter, "Filter"),
   ("LockInFilter", .filter, "In-DB Filter"),
   ("Formula", .formula, "Formula"),
   ("MultiFieldFormula", .formula, "Multi-Field Formula"),
   ("MultiRowFormula", .formula, "Multi-Row Formula"),
   ("LockInFormula", .formula, "In-DB Formula"),
   ("AlteryxSelect", .select, "Select"),
   ("LockInSelect", .select, "In-DB Select"),
   ("DynamicRename", .select, "Dynamic Rename"),
   ("Sort", .sort, "Sort"),
   ("Join", .join, "Join"),
   ("JoinMultiple", .join, "Join Multiple"),
   ("LockInJoin", .join, "In-DB Join"),
   ("Union", .union, "Union"),
   ("LockInUnion", .union, "In-DB Union"),
   ("Summarize", .summarize, "Summarize"),
   ("LockInSummarize", .summarize, "In-DB Summarize"),
   ("CrossTab", .summarize, "Cross Tab"),
   ("MacroInput", .macroInput, "Macro Input"),
   ("MacroOutput", .macroOutput, "Macro Output"),
   ("ToolContainer", .container, "Tool Container")]

/-- Plugins that are known to transform data and are displayed by their own name. -/
def transforms : List String :=
  ["AppendFields", "DataCleansing", "DateTime", "FindReplace", "GenerateRows", "Imputation",
   "RecordID", "RegEx", "Sample", "TextToColumns", "Tile", "Transpose", "Unique"]

/-- The part of a plugin identifier after its last point. -/
def shortName (plugin : String) : String :=
  String.ofList (Text.afterLast (· = '.') plugin.toList)

/-- The catalogue's entry for a plugin. -/
def entry? (plugin : String) : Option (Category × String) :=
  (catalogue.find? (fun entry ↦ entry.1 = shortName plugin)).map Prod.snd

/-- The category of a plugin. -/
def category (plugin : String) : Category :=
  match entry? plugin with
  | some (category, _) => category
  | none => if shortName plugin ∈ transforms then .transform else .unknown

/-- Puts a blank wherever a capital follows a small letter or a digit. -/
def splitWords : List Char → List Char
  | a :: b :: rest =>
    if (a.isLower || a.isDigit) && b.isUpper then a :: ' ' :: splitWords (b :: rest)
    else a :: splitWords (b :: rest)
  | cs => cs

/-- The name under which a plugin is shown. -/
def displayName (plugin : String) : String :=
  match entry? plugin with
  | some (_, name) => name
  | none => String.ofList (splitWords (shortName plugin).toList)

end Tool

end Provenance

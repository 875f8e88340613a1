import Provenance.Expansion.Operator

/-!
# The terminal prompt

An operator at a terminal chooses from a menu by typing a number on a line of its own, and types a
path on the next line where the choice needs one. Lines are read until there is a complete answer; a
blank path starts the choice anew.
-/

namespace Provenance

/-- The lines that have not been read yet and the text shown so far. -/
structure Terminal where
  lines : List String
  screen : String
  deriving Repr

namespace Terminal

/-- The lines of a text; a line break at its end begins no further line. -/
def linesOf (text : String) : List String :=
  let lines := Text.split '\n' text
  if lines.getLast? = some "" then lines.dropLast else lines

/-- A terminal on which a text has been typed and nothing is shown. -/
def ofInput (text : String) : Terminal := ⟨linesOf text, ""⟩

/-- A typed path without blanks and quotes around it. -/
def typedPath (line : String) : Path :=
  let chars := Text.trimBy (fun c ↦ c = '"' || c = '\'') (Text.trim line).toList
  ⟨Text.trim (String.ofList chars)⟩

def choiceQuestion : String := "Your choice (1-4): "

def fileQuestion : String := "Enter full path to macro file: "

def folderQuestion : String := "Enter directory path: "

def invalidChoice : String := "Invalid choice. Please enter 1, 2, 3, or 4.\n"

/-- A line across the screen. -/
def rule : String := String.ofList (List.replicate 60 '=') ++ "\n"

/-- The menu that opens the questions about a macro. -/
def menu (request : Request) : String :=
  let declared :=
    match request.reference.declaredPath with
    | some path => s!"Declared path: {path}\n"
    | none => ""
  let searched :=
    if request.searchFolders.isEmpty then ""
    else s!"Searched: {request.searchFolders.length} director(ies)\n"
  String.join
    ["\n", rule, s!"Macro not found: \"{request.reference.name}\"\n",
     s!"Referenced in: {request.document.text}\n", declared, searched, rule,
     "\nOptions:\n",
     "[1] Enter path to macro file\n",
     "[2] Enter directory containing macros\n",
     "[3] Skip this macro (document as missing)\n",
     "[4] Skip all missing macros\n\n"]

/-- What is shown before the first line is read. -/
def opening (request : Request) : String :=
  if request.attempt = 1 then menu request
  else s!"Still looking for \"{request.reference.name}\" (attempt {request.attempt})\n"

/-- A choice that a path follows on the next line. -/
def pathChoice? (choice : String) : Option (String × (Path → Answer)) :=
  match choice with
  | "1" => some (fileQuestion, .file)
  | "2" => some (folderQuestion, .folder)
  | _ => none

/-- A choice that is an answer by itself. -/
def plainChoice? (choice : String) : Option Answer :=
  match choice with
  | "3" => some .skip
  | "4" => some .skipAll
  | _ => none

/-- Reads lines up to a complete answer; gives the answer, the lines after it and what is shown
meanwhile. -/
def dialogue : List String → Option Answer × Terminal
  | [] => (none, ⟨[], choiceQuestion⟩)
  | line :: rest =>
    let shown (text : String) (result : Option Answer × Terminal) : Option Answer × Terminal :=
      (result.1, ⟨result.2.lines, choiceQuestion ++ text ++ result.2.screen⟩)
    match plainChoice? (Text.trim line), pathChoice? (Text.trim line) with
    | some answer, _ => (some answer, ⟨rest, choiceQuestion⟩)
    | none, none => shown invalidChoice (dialogue rest)
    | none, some (question, answer) =>
      match rest with
      | [] => (none, ⟨[], choiceQuestion ++ question⟩)
      | typed :: rest =>
        if (typedPath typed).text = "" then shown question (dialogue rest)
        else (some (answer (typedPath typed)), ⟨rest, choiceQuestion ++ question⟩)

/-- Asks about a macro. There is no answer if the lines end too early. -/
def ask (request : Request) (t : Terminal) : Option Answer × Terminal :=
  let (answer, after) := dialogue t.lines
  (answer, ⟨after.lines, t.screen ++ opening request ++ after.screen⟩)

end Terminal

end Provenance

import Provenance.Expansion.Prompt
import Provenance.Proofs.Text.Trim

/-!
# The dialogue at a terminal

The lines that an operator types are commands (`Command`), with lines between them that come to
nothing (`Passed`): a line that is no choice, or the choice of a path with a blank path behind it. A
question reads what comes to nothing and then the first command, shows a text for each line, and
leaves the lines after the command for the next question. If the lines end before a command is
complete (`Unfinished`), there is no answer and no line is left (`ask_reads`).
-/

namespace Provenance

namespace Terminal

/-! ## Lines -/

/-- A line holds a word with blanks around it. -/
def Holds (line word : String) : Prop :=
  Text.Strips Text.isBlank line.toList word.toList

/-- A line holds a path. Around it there may be quotes, and blanks inside and outside of these. -/
def HoldsPath (line : String) (path : Path) : Prop :=
  ∃ word bare : List Char, Text.Strips Text.isBlank line.toList word ∧
    Text.Strips (fun c ↦ c = '"' || c = '\'') word bare ∧
      Text.Strips Text.isBlank bare path.text.toList

/-- A choice that is an answer by itself. -/
inductive Plain : String → Answer → Prop where
  | skip : Plain "3" .skip
  | skipAll : Plain "4" .skipAll

/-- A choice that a path follows, with the question for it. -/
inductive WithPath : String → String → (Path → Answer) → Prop where
  | file : WithPath "1" fileQuestion .file
  | folder : WithPath "2" folderQuestion .folder

theorem trim_eq_iff {line word : String} : Text.trim line = word ↔ Holds line word := by
  rw [Text.trim, Holds, ← Text.trimBy_eq_iff, ← String.toList_inj, String.toList_ofList]

theorem typedPath_eq_iff {line : String} {path : Path} :
    typedPath line = path ↔ HoldsPath line path := by
  have hpath (text : String) : (⟨text⟩ : Path) = path ↔ text = path.text := by
    constructor
    · rintro rfl
      rfl
    · rintro rfl
      rfl
  rw [typedPath, HoldsPath, hpath]
  simp only [Text.trim, ← Text.trimBy_eq_iff, ← String.toList_inj, String.toList_ofList]
  simp

theorem plainChoice?_eq_some_iff {choice : String} {answer : Answer} :
    plainChoice? choice = some answer ↔ Plain choice answer := by
  constructor
  · intro h
    unfold plainChoice? at h
    split at h
    · cases h
      exact .skip
    · cases h
      exact .skipAll
    · cases h
  · rintro (_ | _)
    · rfl
    · rfl

theorem pathChoice?_eq_some_iff {choice question : String} {answer : Path → Answer} :
    pathChoice? choice = some (question, answer) ↔ WithPath choice question answer := by
  constructor
  · intro h
    unfold pathChoice? at h
    split at h
    · cases h
      exact .file
    · cases h
      exact .folder
    · cases h
  · rintro (_ | _)
    · rfl
    · rfl

theorem WithPath.choices {choice question line : String} {answer : Path → Answer}
    (h : WithPath choice question answer) (hline : Holds line choice) :
    plainChoice? (Text.trim line) = none ∧
      pathChoice? (Text.trim line) = some (question, answer) := by
  rw [trim_eq_iff.2 hline]
  cases h with
  | file => exact ⟨rfl, rfl⟩
  | folder => exact ⟨rfl, rfl⟩

theorem plainChoice?_eq_none_iff {choice : String} :
    plainChoice? choice = none ↔ choice ≠ "3" ∧ choice ≠ "4" := by
  unfold plainChoice?
  split <;> simp_all

theorem pathChoice?_eq_none_iff {choice : String} :
    pathChoice? choice = none ↔ choice ≠ "1" ∧ choice ≠ "2" := by
  unfold pathChoice?
  split <;> simp_all

theorem choices_eq_none_iff {line : String} :
    plainChoice? (Text.trim line) = none ∧ pathChoice? (Text.trim line) = none ↔
      ∀ choice ∈ ["1", "2", "3", "4"], ¬Holds line choice := by
  rw [plainChoice?_eq_none_iff, pathChoice?_eq_none_iff]
  simp only [← trim_eq_iff, List.mem_cons, List.not_mem_nil, or_false, forall_eq_or_imp, forall_eq,
    ne_eq]
  rw [and_comm, and_assoc]

/-! ## Commands -/

/-- The lines of a command, its answer, and what is shown while it is read. -/
inductive Command : List String → Answer → String → Prop where
  | plain {line choice : String} {answer : Answer} (hchoice : Plain choice answer)
      (hline : Holds line choice) : Command [line] answer choiceQuestion
  | path {line typed choice question : String} {answer : Path → Answer} {path : Path}
      (hchoice : WithPath choice question answer) (hline : Holds line choice)
      (htyped : HoldsPath typed path) (hpath : path.text ≠ "") :
      Command [line, typed] (answer path) (choiceQuestion ++ question)

/-- Lines that come to nothing, and what is shown while they are read. -/
inductive Passed : List String → String → Prop where
  | nil : Passed [] ""
  | invalid {line : String} {lines : List String} {shown : String}
      (hline : ∀ choice ∈ ["1", "2", "3", "4"], ¬Holds line choice) (h : Passed lines shown) :
      Passed (line :: lines) (choiceQuestion ++ invalidChoice ++ shown)
  | blank {line typed choice question : String} {answer : Path → Answer} {lines : List String}
      {shown : String} (hchoice : WithPath choice question answer) (hline : Holds line choice)
      (htyped : HoldsPath typed ⟨""⟩) (h : Passed lines shown) :
      Passed (line :: typed :: lines) (choiceQuestion ++ question ++ shown)

/-- Lines that end before a command is complete, and what is shown while they are read. -/
inductive Unfinished : List String → String → Prop where
  | nothing : Unfinished [] choiceQuestion
  | path {line choice question : String} {answer : Path → Answer}
      (hchoice : WithPath choice question answer) (hline : Holds line choice) :
      Unfinished [line] (choiceQuestion ++ question)

/-- A path is never empty in an answer. -/
theorem Command.text_ne_empty {lines : List String} {answer : Answer} {shown : String}
    (h : Command lines answer shown) {path : Path}
    (hpath : answer = .file path ∨ answer = .folder path) :
    path.text ≠ "" := by
  cases h with
  | plain hchoice _ => cases hchoice <;> simp at hpath
  | path hchoice _ _ hne => cases hchoice <;> simp_all

/-! ## Reading -/

theorem dialogue_command {command : List String} {answer : Answer} {shown : String}
    (h : Command command answer shown) (rest : List String) :
    dialogue (command ++ rest) = (some answer, ⟨rest, shown⟩) := by
  cases h with
  | plain hchoice hline =>
    have hplain := plainChoice?_eq_some_iff.2 hchoice
    rw [← trim_eq_iff.2 hline] at hplain
    simp [dialogue, hplain]
  | path hchoice hline htyped hpath =>
    obtain ⟨hplain, hquestion⟩ := hchoice.choices hline
    simp [dialogue, hplain, hquestion, typedPath_eq_iff.2 htyped, hpath]

theorem dialogue_passed {passed : List String} {shown : String} (h : Passed passed shown)
    (rest : List String) :
    dialogue (passed ++ rest) =
      ((dialogue rest).1, ⟨(dialogue rest).2.lines, shown ++ (dialogue rest).2.screen⟩) := by
  induction h with
  | nil => simp
  | invalid hline _ ih =>
    obtain ⟨hplain, hquestion⟩ := choices_eq_none_iff.2 hline
    simp [dialogue, hplain, hquestion, ih, String.append_assoc]
  | blank hchoice hline htyped _ ih =>
    obtain ⟨hplain, hquestion⟩ := hchoice.choices hline
    simp [dialogue, hplain, hquestion, typedPath_eq_iff.2 htyped, ih, String.append_assoc]

theorem dialogue_unfinished {lines : List String} {shown : String} (h : Unfinished lines shown) :
    dialogue lines = (none, ⟨[], shown⟩) := by
  cases h with
  | nothing => rfl
  | path hchoice hline =>
    obtain ⟨hplain, hquestion⟩ := hchoice.choices hline
    simp [dialogue, hplain, hquestion]

/-- A beginning of some lines comes to nothing, and either a command follows it or the lines end
before one is complete. -/
def Splits (lines : List String) : Prop :=
  ∃ passed shown tail, lines = passed ++ tail ∧ Passed passed shown ∧
    ((∃ command answer after rest, tail = command ++ rest ∧ Command command answer after) ∨
      ∃ after, Unfinished tail after)

theorem Command.splits {command : List String} {answer : Answer} {after : String}
    (h : Command command answer after) (rest : List String) : Splits (command ++ rest) :=
  ⟨[], "", command ++ rest, rfl, .nil, .inl ⟨command, answer, after, rest, rfl, h⟩⟩

theorem Unfinished.splits {lines : List String} {after : String} (h : Unfinished lines after) :
    Splits lines :=
  ⟨[], "", lines, rfl, .nil, .inr ⟨after, h⟩⟩

theorem Splits.invalid {line : String} {rest : List String} (h : Splits rest)
    (hline : ∀ choice ∈ ["1", "2", "3", "4"], ¬Holds line choice) : Splits (line :: rest) := by
  obtain ⟨passed, shown, tail, rfl, hpassed, htail⟩ := h
  exact ⟨line :: passed, _, tail, rfl, .invalid hline hpassed, htail⟩

theorem Splits.blank {line typed choice question : String} {answer : Path → Answer}
    {rest : List String} (h : Splits rest) (hchoice : WithPath choice question answer)
    (hline : Holds line choice) (htyped : HoldsPath typed ⟨""⟩) :
    Splits (line :: typed :: rest) := by
  obtain ⟨passed, shown, tail, rfl, hpassed, htail⟩ := h
  exact ⟨line :: typed :: passed, _, tail, rfl, .blank hchoice hline htyped hpassed, htail⟩

theorem splits (lines : List String) : Splits lines := by
  match lines with
  | [] => exact Unfinished.nothing.splits
  | line :: rest =>
    cases hplain : plainChoice? (Text.trim line) with
    | some answer =>
      exact (Command.plain (plainChoice?_eq_some_iff.1 hplain) (trim_eq_iff.1 rfl)).splits rest
    | none =>
      cases hquestion : pathChoice? (Text.trim line) with
      | none => exact (splits rest).invalid (choices_eq_none_iff.1 ⟨hplain, hquestion⟩)
      | some pair =>
        have hchoice := pathChoice?_eq_some_iff.1 hquestion
        have hline : Holds line (Text.trim line) := trim_eq_iff.1 rfl
        match rest with
        | [] => exact (Unfinished.path hchoice hline).splits
        | typed :: rest =>
          by_cases hpath : (typedPath typed).text = ""
          · have htyped : typedPath typed = ⟨""⟩ := congrArg Path.mk hpath
            exact (splits rest).blank hchoice hline (typedPath_eq_iff.1 htyped)
          · exact (Command.path hchoice hline (typedPath_eq_iff.1 rfl) hpath).splits rest

theorem dialogue_eq_some_iff {lines rest : List String} {answer : Answer} {screen : String} :
    dialogue lines = (some answer, ⟨rest, screen⟩) ↔
      ∃ passed shown command after, lines = passed ++ (command ++ rest) ∧ Passed passed shown ∧
        Command command answer after ∧ screen = shown ++ after := by
  constructor
  · intro h
    obtain ⟨passed, shown, tail, rfl, hpassed, ⟨command, answer', after, rest', rfl, hcommand⟩ |
      ⟨after, hunfinished⟩⟩ := splits lines
    · rw [dialogue_passed hpassed, dialogue_command hcommand] at h
      cases h
      exact ⟨passed, shown, command, after, rfl, hpassed, hcommand, rfl⟩
    · rw [dialogue_passed hpassed, dialogue_unfinished hunfinished] at h
      cases h
  · rintro ⟨passed, shown, command, after, rfl, hpassed, hcommand, rfl⟩
    rw [dialogue_passed hpassed, dialogue_command hcommand]

theorem dialogue_eq_none_iff {lines rest : List String} {screen : String} :
    dialogue lines = (none, ⟨rest, screen⟩) ↔
      rest = [] ∧ ∃ passed shown tail after, lines = passed ++ tail ∧ Passed passed shown ∧
        Unfinished tail after ∧ screen = shown ++ after := by
  constructor
  · intro h
    obtain ⟨passed, shown, tail, rfl, hpassed, ⟨command, answer', after, rest', rfl, hcommand⟩ |
      ⟨after, hunfinished⟩⟩ := splits lines
    · rw [dialogue_passed hpassed, dialogue_command hcommand] at h
      cases h
    · rw [dialogue_passed hpassed, dialogue_unfinished hunfinished] at h
      cases h
      exact ⟨rfl, passed, shown, tail, after, rfl, hpassed, hunfinished, rfl⟩
  · rintro ⟨rfl, passed, shown, tail, after, rfl, hpassed, hunfinished, rfl⟩
    rw [dialogue_passed hpassed, dialogue_unfinished hunfinished]

theorem ask_eq_iff {request : Request} {t : Terminal} {answer : Option Answer}
    {rest : List String} {screen : String} :
    ask request t = (answer, ⟨rest, screen⟩) ↔
      ∃ after, dialogue t.lines = (answer, ⟨rest, after⟩) ∧
        screen = t.screen ++ opening request ++ after := by
  unfold ask
  obtain ⟨given, left, shown⟩ := dialogue t.lines
  constructor
  · intro h
    cases h
    exact ⟨shown, rfl, rfl⟩
  · rintro ⟨after, h, rfl⟩
    cases h
    rfl

/-- A question passes over the lines that come to nothing, takes its answer from the first command,
and leaves the lines after the command. There is no answer exactly if the lines end before a command
is complete; then none are left. Each line that is no choice is shown to be invalid once, and no
answer holds an empty path. -/
theorem ask_reads (request : Request) (t : Terminal) :
    (∀ answer rest screen, ask request t = (some answer, ⟨rest, screen⟩) ↔
      ∃ passed shown command after, t.lines = passed ++ (command ++ rest) ∧ Passed passed shown ∧
        Command command answer after ∧ screen = t.screen ++ opening request ++ (shown ++ after)) ∧
    (∀ rest screen, ask request t = (none, ⟨rest, screen⟩) ↔
      rest = [] ∧ ∃ passed shown tail after, t.lines = passed ++ tail ∧ Passed passed shown ∧
        Unfinished tail after ∧ screen = t.screen ++ opening request ++ (shown ++ after)) ∧
    ∀ path, (ask request t).1 = some (.file path) ∨ (ask request t).1 = some (.folder path) →
      path.text ≠ "" := by
  refine ⟨fun answer rest screen ↦ ?_, fun rest screen ↦ ?_, fun path hpath ↦ ?_⟩
  · rw [ask_eq_iff]
    simp only [dialogue_eq_some_iff]
    constructor
    · rintro ⟨_, ⟨passed, shown, command, after, hlines, hpassed, hcommand, rfl⟩, hscreen⟩
      exact ⟨passed, shown, command, after, hlines, hpassed, hcommand, hscreen⟩
    · rintro ⟨passed, shown, command, after, hlines, hpassed, hcommand, hscreen⟩
      exact ⟨_, ⟨passed, shown, command, after, hlines, hpassed, hcommand, rfl⟩, hscreen⟩
  · rw [ask_eq_iff]
    simp only [dialogue_eq_none_iff]
    constructor
    · rintro ⟨_, ⟨hrest, passed, shown, tail, after, hlines, hpassed, htail, rfl⟩, hscreen⟩
      exact ⟨hrest, passed, shown, tail, after, hlines, hpassed, htail, hscreen⟩
    · rintro ⟨hrest, passed, shown, tail, after, hlines, hpassed, htail, hscreen⟩
      exact ⟨_, ⟨hrest, passed, shown, tail, after, hlines, hpassed, htail, rfl⟩, hscreen⟩
  · obtain ⟨answer, hanswer, hfile⟩ : ∃ answer, (dialogue t.lines).1 = some answer ∧
        (answer = .file path ∨ answer = .folder path) := by
      rcases hpath with h | h
      · exact ⟨_, h, .inl rfl⟩
      · exact ⟨_, h, .inr rfl⟩
    obtain ⟨_, _, _, _, -, -, hcommand, -⟩ :=
      dialogue_eq_some_iff.1 (Prod.ext hanswer rfl : dialogue t.lines = (some answer, _))
    exact hcommand.text_ne_empty hfile

/-- The question about a macro, and a terminal with its answer and with the next one. -/
def waiting : Request × Terminal :=
  (⟨.named "Clean", ⟨"mail.yxmd"⟩, [], 2⟩, ⟨["1", "' '", "7", " 2 ", "3", "4"], ""⟩)

/-- What is shown meanwhile. -/
def waitingScreen : String :=
  "Still looking for \"Clean\" (attempt 2)\n" ++
    "Your choice (1-4): Enter full path to macro file: " ++
    "Your choice (1-4): Invalid choice. Please enter 1, 2, 3, or 4.\n" ++
    "Your choice (1-4): Enter directory path: "

/-- An empty path in quotes and a line that is no choice come to nothing, and only the latter is said
to be invalid. A number is a path where a path is asked for, and the line after it is left. -/
theorem ask_reads_number :
    ask waiting.1 waiting.2 = (some (.folder ⟨"3"⟩), ⟨["4"], waitingScreen⟩) ∧
      ∃ passed shown command after, waiting.2.lines = passed ++ (command ++ ["4"]) ∧
        Passed passed shown ∧ Command command (.folder ⟨"3"⟩) after ∧
        waitingScreen = opening waiting.1 ++ (shown ++ after) := by
  have hanswer : (ask waiting.1 waiting.2).1 = some (.folder ⟨"3"⟩) := by rfl
  have hlines : (ask waiting.1 waiting.2).2.lines = ["4"] := by decide +kernel
  have hscreen : (ask waiting.1 waiting.2).2.screen = waitingScreen := by decide +kernel
  have hask : ask waiting.1 waiting.2 = (some (.folder ⟨"3"⟩), ⟨["4"], waitingScreen⟩) := by
    rw [← hscreen, ← hlines, ← hanswer]
  obtain ⟨passed, shown, command, after, hsplit, hpassed, hcommand, hshown⟩ :=
    ((ask_reads waiting.1 waiting.2).1 _ _ _).1 hask
  exact ⟨hask, passed, shown, command, after, hsplit, hpassed, hcommand, hshown⟩

end Terminal

end Provenance

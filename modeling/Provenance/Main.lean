import Provenance.CommandLine.Disk
import Provenance.Expansion.Prompt
import Std.Time.Format

/-!
# The program

Reads the disk, runs a command and writes its results. An operator at a terminal is served by
running the command with the lines typed so far: where it asks for one more, it is shown the
question, and the command is run anew with the answer. Until then nothing is written.
-/

namespace Provenance.CommandLine

/-- A terminal, and whether a question on it waits for a line that is not typed yet. -/
structure Seat where
  terminal : Terminal
  isWaiting : Bool

namespace Seat

/-- Someone at a terminal, who is asked nothing more while a question waits. -/
def operator : Operator Seat :=
  .ofPrompt fun request seat ↦
    if seat.isWaiting then (none, seat)
    else
      let (answer, terminal) := Terminal.ask request seat.terminal
      (answer, ⟨terminal, answer.isNone⟩)

end Seat

/-- The present time in coordinated universal time. -/
def timestamp : IO String := do
  let now ← Std.Time.Timestamp.now
  let date := Std.Time.DateTime.ofTimestamp now .UTC
  return date.format "uuuu-MM-dd'T'HH:mm:ss.SSSSSSSSS" ++ "+00:00"

/-- Writes and shows what a command has done. -/
def conclude {σ : Type} (arguments : List String) (before : FileSystem) (ending : Ending σ) :
    IO UInt32 := do
  Disk.write arguments before ending.effects.files
  IO.eprint ending.effects.notes
  IO.print ending.effects.output
  return UInt32.ofNat ending.code

/-- Shows what has been added to a text. -/
def showMore (shown text : String) : IO Unit := do
  IO.eprint (String.ofList (text.toList.drop shown.length))
  (← IO.getStderr).flush

/-- Runs a command for the operator at the terminal, who has typed and been shown something. -/
partial def converse (arguments : List String) (time typed shown : String) : IO UInt32 := do
  let files ← Disk.read arguments ((Terminal.linesOf typed).map Terminal.typedPath)
  let ending := run Seat.operator ⟨.ofInput typed, false⟩ time files arguments
  let seat := ending.effects.operator
  showMore shown seat.terminal.screen
  if !seat.isWaiting then conclude arguments files ending
  else
    let line ← (← IO.getStdin).getLine
    if line.isEmpty then
      let ending := run (.ofPrompt Terminal.ask) (.ofInput typed) time files arguments
      showMore seat.terminal.screen ending.effects.operator.screen
      conclude arguments files ending
    else converse arguments time (typed ++ line) seat.terminal.screen

/-- Does what the arguments ask for, with an operator if there is a terminal. -/
def start (arguments : List String) : IO UInt32 := do
  let time ← timestamp
  if ← (← IO.getStdin).isTty then converse arguments time "" ""
  else
    let files ← Disk.read arguments []
    conclude arguments files (run .absent () time files arguments)

end Provenance.CommandLine

def main (arguments : List String) : IO UInt32 :=
  Provenance.CommandLine.start arguments

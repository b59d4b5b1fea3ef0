import SuperChip.Asm.Error
import SuperChip.Files
import SuperChip.Machine.Board
import SuperChip.Text.ShellWords
import SuperChip.Text.Utf8
import SuperChip.Tool.Options
import SuperChip.Version

/-!
# What a tool finds and leaves

A tool runs among files, with typed input, a clock and random numbers, and what it changed in them
stays, also when it breaks off. At its end it tells how it ended, what it printed, and the lines of
its report.
-/

set_option autoImplicit false

namespace SuperChip.Tool

/-- The path that stands for typed input and for printed output. -/
def standardStream : String := "-"

/-- What a tool finds, and leaves behind. -/
structure World where
  files : Files := {}
  input : String := ""
  clock : Clock := default
  random : RandomSource := {}
  deriving Inhabited

/-- How a tool ends. -/
inductive Ending where
  | done
  | failed
  /-- The command line was refused. -/
  | refused
  /-- The command line asked a question, which was answered. -/
  | answered
  deriving DecidableEq, Repr

/-- The status that an ending reports to the caller. -/
def Ending.status : Ending → Nat
  | .done | .answered => 0
  | .failed | .refused => 1

/-- What a tool prints. -/
inductive Printed where
  | text (text : String)
  | bytes (data : Bytes)
  deriving DecidableEq, Repr

/-- What a tool tells at its end. -/
structure Outcome where
  ending : Ending
  printed : Printed := .text ""
  /-- The report: refusals and log records. -/
  report : List String := []
  deriving DecidableEq, Repr

/-- Why a tool breaks off without an ending. -/
inductive Crash where
  | fault (cause : Fault)
  | words (cause : Text.WordsError)
  | text (cause : Text.Utf8Error)
  /-- The assembler failed. -/
  | assembly (cause : AsmCause)
  /-- The path is none that the system can be asked for. -/
  | path (cause : FileError)
  deriving DecidableEq, Repr

/-- The wording of a crash. -/
def Crash.message : Crash → String
  | .fault cause => cause.message
  | .words cause => cause.message
  | .text cause => cause.message
  | .assembly cause => cause.message
  | .path cause => cause.message

/-- A run of a tool: it comes to an end or breaks off, and leaves the world changed. -/
abbrev Run (α : Type) := EStateM Crash World α

/-- Hands back what the system refuses. What the system is not asked for breaks off the tool. -/
def reported {α : Type} : Except FileError α → Run (Except FileError α)
  | .ok value => pure (.ok value)
  | .error e => if e.isSystem then pure (.error e) else throw (.path e)

/-- Reads the file at a path. -/
def readFile (path : String) : Run (Except FileError Bytes) := do
  reported ((← get).files.read path)

/-- Writes the file at a path. What is written by the time of a failure stays. -/
def writeFile (path : String) (data : Bytes) : Run (Except FileError Unit) := do
  let w ← get
  match Files.write path data w.files with
  | .ok done files =>
    set { w with files }
    reported (.ok done)
  | .error e files =>
    set { w with files }
    reported (.error e)

/-- The outcome of a command line that leads to no work. -/
def stopped {σ : Type} (c : CommandLine σ) : CommandLine.Stop → Outcome
  | .refused cause =>
    { ending := .refused, report := [c.program ++ ": error: " ++ cause.message] }
  | .asked .version =>
    { ending := .answered, printed := .text (c.program ++ " " ++ version ++ "\n") }
  | .asked .help =>
    { ending := .answered
      printed := .text (String.join (c.options.map fun o => o.display ++ "\n")) }

/-- The outcome of work that failed for a reason, with the records of its journal. -/
def failure (journal : Log.Journal) (reason : String) : Outcome :=
  { ending := .failed, report := (journal.add .error fun _ => reason).lines }

end SuperChip.Tool

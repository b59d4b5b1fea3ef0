import SuperChip.Listing.Listing
import SuperChip.Tool.Outcome

/-!
# The disassembler tool

The tool reads a program image and prints its listing, or writes it to a file.
-/

set_option autoImplicit false

namespace SuperChip.Tool

/-- What the command line of the disassembler sets. -/
structure DisassembleSettings where
  file : String := ""
  output : Option String := none
  shiftsVy : Bool := false
  verbosity : Nat := 0
  deriving DecidableEq, Repr, Inhabited

/-- The command line of the disassembler. -/
def disassembleLine : CommandLine DisassembleSettings where
  program := "chip8disasm"
  options := [
    helpOption,
    ⟨some 'o', "output", .take .text fun s path => .ok { s with output := some path }⟩,
    ⟨some 'q', "shift-quirks", .mark fun s => { s with shiftsVy := true }⟩,
    ⟨some 'v', "verbose", .mark fun s => { s with verbosity := s.verbosity + 1 }⟩,
    versionOption]
  fileRequired := true
  setFile s file := { s with file }

/-- Puts a listing where it goes. -/
def DisassembleSettings.deliver (s : DisassembleSettings) (journal : Log.Journal) (l : Listing) :
    Run Outcome := do
  match s.output.filter (· != standardStream) with
  | none => return { ending := .done, printed := .text l.dump, report := journal.lines }
  | some path =>
    match ← writeFile path l.dump.toUTF8.toList.toArray with
    | .error e =>
      return failure journal ("Could not dump disassembly to output file: " ++ e.message)
    | .ok _ => return { ending := .done, report := journal.lines }

/-- Disassembles as the settings tell. -/
def DisassembleSettings.perform (s : DisassembleSettings) : Run Outcome := do
  let journal := Log.Journal.ofVerbosity s.verbosity
  let reason := fun message => "Could not disassemble '" ++ s.file ++ "': " ++ message
  match ← readFile s.file with
  | .error e => return failure journal (reason e.message)
  | .ok data =>
    let (notices, listing) := Listing.ofBytes data s.shiftsVy
    let journal := notices.foldl (fun j n => j.addEntry n.entry) journal
    match listing with
    | .error e => return failure journal (reason e.message)
    | .ok l => s.deliver journal l

/-- The disassembler tool. -/
def disassemble (arguments : List String) : Run Outcome :=
  match disassembleLine.parse {} arguments with
  | .error stop => pure (stopped disassembleLine stop)
  | .ok settings => settings.perform

end SuperChip.Tool

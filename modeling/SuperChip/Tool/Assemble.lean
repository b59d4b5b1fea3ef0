import SuperChip.Asm.Emit
import SuperChip.Tool.Outcome
import SuperChip.Tool.OutputPath

/-!
# The assembler tool

The tool reads a source file, or typed input for a single minus sign, and writes the image beside it
or where it is told. Nothing is written before the source is read and assembled.
-/

set_option autoImplicit false

namespace SuperChip.Tool

/-- What the command line of the assembler sets. -/
structure AssembleSettings where
  file : String := ""
  output : Option String := none
  shiftsVy : Bool := false
  verbosity : Nat := 0
  deriving DecidableEq, Repr, Inhabited

/-- The command line of the assembler. -/
def assembleLine : CommandLine AssembleSettings where
  program := "chip8asm"
  options := [
    helpOption,
    ⟨some 'o', "output", .take .text fun s path => .ok { s with output := some path }⟩,
    ⟨some 'q', "shift-quirks", .mark fun s => { s with shiftsVy := true }⟩,
    ⟨some 'v', "verbose", .mark fun s => { s with verbosity := s.verbosity + 1 }⟩,
    versionOption]
  fileRequired := true
  setFile s file := { s with file }

/-- Where the image goes: to a path, or printed for `none`. -/
def AssembleSettings.target (s : AssembleSettings) : Option String :=
  match s.output with
  | some path => if path = standardStream then none else some path
  | none => if s.file = standardStream then none else some (withExtension s.file imageExtension)

/-- The lines of the source, or why they cannot be read. -/
def AssembleSettings.source (s : AssembleSettings) : Run (Except FileError (List String)) := do
  if s.file = standardStream then return .ok (Text.lines (← get).input)
  match ← readFile s.file with
  | .error e => return .error e
  | .ok data =>
    match Text.ofUtf8 data.toList with
    | .error cause => throw (.text cause)
    | .ok text => return .ok (Text.lines text)

/-- Puts an image where it goes. -/
def AssembleSettings.deliver (s : AssembleSettings) (journal : Log.Journal) (image : Bytes) :
    Run Outcome := do
  match s.target with
  | none => return { ending := .done, printed := .bytes image, report := journal.lines }
  | some path =>
    match ← writeFile path image with
    | .error e => return failure journal ("Could not write output: " ++ e.message)
    | .ok _ =>
      let journal := journal.add .info fun _ =>
        "Assembled " ++ s.file ++ " -> " ++ path ++ s!" ({image.size} bytes)"
      return { ending := .done, report := journal.lines }

/-- Assembles as the settings tell. -/
def AssembleSettings.perform (s : AssembleSettings) : Run Outcome := do
  let journal := Log.Journal.ofVerbosity s.verbosity
  match ← s.source with
  | .error e => return failure journal ("Could not read input: " ++ e.message)
  | .ok lines =>
    let (notices, image) := Assembler.assembleLines s.shiftsVy lines
    let journal := notices.foldl (fun j n => j.addEntry n.entry) journal
    match image with
    | .error e =>
      if e.cause.isRefusal then return failure journal e.message
      else throw (.assembly e.cause)
    | .ok image => s.deliver journal image

/-- The assembler tool. -/
def assemble (arguments : List String) : Run Outcome :=
  match assembleLine.parse {} arguments with
  | .error stop => pure (stopped assembleLine stop)
  | .ok settings => settings.perform

end SuperChip.Tool

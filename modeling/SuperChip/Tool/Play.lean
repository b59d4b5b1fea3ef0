import SuperChip.Console.Console
import SuperChip.Monitor.Session
import SuperChip.Tone
import SuperChip.Tool.Outcome

/-!
# The player tool

The tool runs a program image on a console without a window, or opens the monitor on a machine, with
a program loaded first if one is named.
-/

set_option autoImplicit false

namespace SuperChip.Tool

/-- What the command line of the player sets. The scale, tone and volume are those of a window. -/
structure PlaySettings where
  file : String := ""
  config : Config := {}
  scale : Int := 6
  tone : Int := ToneSink.defaultFrequency
  volume : Int := ToneSink.defaultVolume
  speed : Int := Console.defaultSpeed
  monitor : Bool := false
  headless : Bool := false
  verbosity : Nat := 0
  deriving DecidableEq, Repr, Inhabited

/-- The command line of the player. -/
def playLine : CommandLine PlaySettings where
  program := "chip8"
  options := [
    helpOption,
    ⟨none, "frequency", .take .positive fun s text => do
      return { s with config := { s.config with timerFrequency := ← readPositive text } }⟩,
    ⟨some 'l', "load-quirks", .mark fun s =>
      { s with config := { s.config with loadsAdvance := true } }⟩,
    ⟨some 'q', "shift-quirks", .mark fun s =>
      { s with config := { s.config with shiftsVy := true } }⟩,
    ⟨some 's', "scale", .take .positive fun s text => do
      return { s with scale := ← readPositive text }⟩,
    ⟨some 't', "tone", .take .positive fun s text => do
      return { s with tone := ← readPositive text }⟩,
    ⟨none, "volume", .take .volume fun s text => do
      return { s with volume := ← readVolume text }⟩,
    ⟨none, "speed", .take .number fun s text => do
      return { s with speed := ← readNumber text }⟩,
    ⟨none, "monitor", .mark fun s => { s with monitor := true }⟩,
    ⟨none, "headless", .mark fun s => { s with headless := true }⟩,
    ⟨some 'v', "verbose", .mark fun s => { s with verbosity := s.verbosity + 1 }⟩,
    versionOption]
  fileRequired := false
  setFile s file := { s with file }

/-- Ends work on a board, which leaves the clock and the random numbers where it came to. -/
def leaveBoard (b : Board) (ending : Ending) (printed : String) : Run Outcome := do
  modify fun w => { w with clock := b.clock, random := b.random }
  return { ending, printed := .text printed, report := b.journal.lines }

/-- Ends work on a board that failed for a reason. -/
def failOn (b : Board) (reason : String) : Run Outcome :=
  leaveBoard { b with journal := b.journal.add .error fun _ => reason } .failed ""

/-- Opens the monitor on a board. A file is loaded as by the command of that name, whose complaints
nobody hears: they break off the tool. -/
def PlaySettings.openMonitor (s : PlaySettings) (b : Board) : Run Monitor.Reply := do
  let monitor : Monitor := { board := b, files := (← get).files }
  if s.file.isEmpty then return { monitor }
  match monitor.load s.file with
  | .ok reply =>
    -- The command reports every error of a file, also where the system was not asked at all.
    if let .ok (path :: _) := Monitor.readWords s.file then
      let _ ← readFile path
    return reply
  | .error (.words cause) => throw (.words cause)
  | .error (.text cause) => throw (.text cause)
  | .error (.numeral _) => return { monitor }

/-- Holds a monitor session on a board over typed input. -/
def PlaySettings.converse (s : PlaySettings) (b : Board) : Run Outcome := do
  let reply ← s.openMonitor b
  let session := reply.monitor.session reply.text (← get).input
  let ended ← leaveBoard session.monitor.board .done session.printed
  match session.fault with
  | some cause => throw (.fault cause)
  | none => return ended

/-- Runs a loaded board without a window. -/
def PlaySettings.run (s : PlaySettings) (b : Board) (patience : Nat) : Run Outcome :=
  let console : Console := { board := b, speed := s.speed }
  match console.run none patience with
  | (c, .ok _) => leaveBoard c.board .done ""
  | (c, .error (.fault cause)) => failOn c.board ("Shutting down interpreter: " ++ cause.message)
  | (c, .error .givenUp) => failOn c.board "Shutting down interpreter: the run has no end"

/-- The board to play on. -/
def PlaySettings.board (s : PlaySettings) (w : World) : Board :=
  .powerOn s.config w.clock w.random (.ofVerbosity s.verbosity)

/-- Plays as the settings tell, with at most `patience` batches in a run. -/
def PlaySettings.perform (s : PlaySettings) (patience : Nat) : Run Outcome := do
  let b := s.board (← get)
  modify fun w => { w with clock := b.clock }
  if s.monitor then s.converse b
  else if s.file.isEmpty then failOn b "no program file given"
  else
    let refused := fun message => failOn b ("Could not load game: " ++ message)
    match ← readFile s.file with
    | .error e => refused e.message
    | .ok data =>
      match b.load data programStart with
      | .error e => refused e.message
      | .ok b =>
        if s.headless then s.run b patience
        else failOn b "Shutting down interpreter: there is no window"

/-- The player tool. -/
def play (arguments : List String) (patience : Nat) : Run Outcome :=
  match playLine.parse {} arguments with
  | .error stop => pure (stopped playLine stop)
  | .ok settings => settings.perform patience

end SuperChip.Tool

import SuperChip.Tool.Assemble
import SuperChip.Tool.Disassemble
import SuperChip.Tool.Play

/-!
# The program

The first argument chooses the tool: `asm`, `disasm`, or `play`, which is also meant where none is
named. This layer reads the files that the arguments may name, hands them to the tool, and puts what
the tool leaves where it belongs.
-/

set_option autoImplicit false

namespace SuperChip.Main

/-- The files with what stands on disk at a path. -/
def gather (files : Files) (path : String) : IO Files := do
  let here ← IO.currentDir
  if ← (here / path).isDir then return files.addFolder path
  try
    let data ← IO.FS.readBinFile path
    return files.addFile path data.data
  catch _ => return files

/-- The paths that end at the slashes of a path, and the path itself. -/
def withFolders (path : String) : List String :=
  let names := path.splitOn "/"
  (List.range names.length).map fun k => String.intercalate "/" (names.take (k + 1))

/-- The paths that an argument may name: itself or what follows an option in it, also with the
extension of images. -/
def pathsIn (argument : String) : List String :=
  Tool.withExtension argument Tool.imageExtension ::
    (List.range argument.length).map fun k => String.ofList (argument.toList.drop k)

/-- The files that texts may name. -/
def gatherAll (files : Files) (texts : List String) : IO Files :=
  ((texts.flatMap pathsIn).flatMap withFolders).foldlM gather files

/-- How many batches a run may have. -/
def patience : Nat := 1000000000

/-- How many random numbers are drawn in advance. -/
def drawCount : Nat := 4096

/-- The present time in seconds. -/
def present : IO Float := do return Float.ofNat (← IO.monoMsNow) / 1000

/-- All typed input. -/
def typedText : IO String := do (← IO.getStdin).readToEnd

/-- What a tool finds. -/
def world (arguments : List String) : IO Tool.World := do
  let files ← gatherAll {} arguments
  let input ← if arguments.contains Tool.standardStream then typedText else pure ""
  let mut numbers := #[]
  for _ in [0 : drawCount] do
    numbers := numbers.push (Int.ofNat (← IO.rand 0 255))
  return { files, input, clock := { now := ← present }, random := { numbers } }

/-- Writes the files that read otherwise after a run, as far as the arguments may name them. -/
def writeChanged (arguments : List String) (before after : Files) : IO Unit := do
  for path in arguments.flatMap pathsIn do
    match after.read path with
    | .ok data =>
      if (before.read path).toOption != some data then IO.FS.writeBinFile path ⟨data⟩
    | .error _ => pure ()

/-- Prints what a tool tells and writes the files that it changed. -/
def finish (arguments : List String) (w : Tool.World)
    (result : EStateM.Result Tool.Crash Tool.World Tool.Outcome) : IO UInt32 := do
  match result with
  | .error crash after =>
    writeChanged arguments w.files after.files
    IO.eprintln crash.message
    return 1
  | .ok o after =>
    writeChanged arguments w.files after.files
    match o.printed with
    | .text text => IO.print text
    | .bytes data => (← IO.getStdout).write ⟨data⟩
    for line in o.report do
      IO.eprintln line
    return o.ending.status.toUInt32

/-- Answers lines as they are typed. -/
def converse (start : Monitor.Reply) : IO UInt32 := do
  let input ← IO.getStdin
  let output ← IO.getStdout
  output.putStr (start.text ++ Monitor.greeting)
  let mut m := start.monitor
  repeat
    output.putStr Monitor.prompt
    output.flush
    let typed ← input.getLine
    let line := if typed.isEmpty then Monitor.endLine else typed
    let files ← gatherAll m.files ((Text.words line).toOption.getD [])
    let board := { m.board with clock := m.board.clock.set (← present) }
    let reply := { m with files, board }.answer line
    output.putStr reply.text
    for entry in reply.monitor.board.journal.lines do
      IO.eprintln entry
    m := { reply.monitor with
      board := { reply.monitor.board with journal := reply.monitor.board.journal.cleared } }
    match reply.verdict with
    | .goesOn => pure ()
    | .ends => return 0
    | .fault cause =>
      IO.eprintln cause.message
      return 1
  return 0

/-- Plays, with a monitor session line by line. -/
def play (arguments : List String) (w : Tool.World) : IO UInt32 := do
  match Tool.playLine.parse {} arguments with
  | .ok settings =>
    if settings.monitor then
      match settings.openMonitor (settings.board w) w with
      | .ok reply _ => converse reply
      | .error crash after => finish arguments w (.error crash after)
    else finish arguments w (settings.perform patience w)
  | .error stop => finish arguments w (.ok (Tool.stopped Tool.playLine stop) w)

end SuperChip.Main

/-- Chooses the tool and runs it. -/
def main (arguments : List String) : IO UInt32 := do
  match arguments with
  | "asm" :: rest => do
    let w ← SuperChip.Main.world rest
    SuperChip.Main.finish rest w (SuperChip.Tool.assemble rest w)
  | "disasm" :: rest => do
    let w ← SuperChip.Main.world rest
    SuperChip.Main.finish rest w (SuperChip.Tool.disassemble rest w)
  | "play" :: rest => do
    SuperChip.Main.play rest (← SuperChip.Main.world rest)
  | rest => do
    SuperChip.Main.play rest (← SuperChip.Main.world rest)

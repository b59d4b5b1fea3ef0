import SuperChip.Monitor.Monitor
import SuperChip.Version

/-!
# A monitor session

A session greets, then prompts for lines and answers each, until a command ends it. When there are
no more lines, the end of the input is answered as a command of its own.
-/

set_option autoImplicit false

namespace SuperChip.Monitor

/-- What a session prints first. -/
def greeting : String :=
  "\nCHIP-8 Monitor  v" ++ version ++ "\nType 'help' for commands.  'quit' to exit.\n\n"

/-- What stands before each line that is typed. -/
def prompt : String := "CHIP8> "

/-- What a session leaves behind. -/
structure Session where
  monitor : Monitor
  /-- All that was printed. -/
  printed : String
  /-- Why the session broke off, if it did. -/
  fault : Option Fault := none
  deriving Inhabited

/-- The line that stands for the end of the input. -/
def endLine : String := "EOF"

/-- Answers lines in order, each after a prompt, behind what is already `printed`. -/
def converse (m : Monitor) (printed : String) : List String → Session
  | [] =>
    let reply := m.answer endLine
    { monitor := reply.monitor, printed := printed ++ prompt ++ reply.text }
  | line :: rest =>
    let reply := m.answer line
    let printed := printed ++ prompt ++ reply.text
    match reply.verdict with
    | .goesOn => converse reply.monitor printed rest
    | .ends => { monitor := reply.monitor, printed }
    | .fault cause => { monitor := reply.monitor, printed, fault := some cause }

/-- Holds a session over typed input. -/
def session (m : Monitor) (printed : String) (input : String) : Session :=
  m.converse (printed ++ greeting) (Text.inputLines input)

end SuperChip.Monitor

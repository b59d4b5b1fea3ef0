import SuperChip.Asm.Emit
import SuperChip.Files
import SuperChip.Monitor.Command
import SuperChip.Monitor.Reading
import SuperChip.Monitor.Run

/-!
# The monitor

The monitor drives a board by typed commands: it loads and assembles programs, steps and runs them
up to breakpoints, shows registers and memory, and moves keys. Each command gives the monitor
after it, the lines it prints, and whether the session goes on. A command that cannot be read
prints its complaint and changes nothing.
-/

set_option autoImplicit false

namespace SuperChip

/-- A board, the addresses at which a run stops, in order, and the files at hand. -/
structure Monitor where
  board : Board
  breakpoints : List Int := []
  files : Files := {}
  deriving Inhabited

namespace Monitor

/-- How a command leaves the session. -/
inductive Verdict where
  | goesOn
  | ends
  /-- The machine could not be read or stepped. -/
  | fault (cause : Fault)
  deriving DecidableEq, Repr

/-- What a command leaves behind. -/
structure Reply where
  monitor : Monitor
  /-- The lines printed, each ended by a line feed. -/
  lines : List String := []
  verdict : Verdict := .goesOn
  deriving Inhabited

/-- The text that a reply prints. -/
def Reply.text (r : Reply) : String := String.join (r.lines.map (· ++ "\n"))

/-- A reply that prints one line and leaves the monitor as it was. -/
def tells (m : Monitor) (line : String) : Reply := { monitor := m, lines := [line] }

/-- The monitor with another board. -/
def withBoard (m : Monitor) (board : Board) : Monitor := { m with board }

/-- The addresses in order, with one more. -/
def insertAddress (address : Int) : List Int → List Int
  | [] => [address]
  | a :: rest =>
    if address < a then address :: a :: rest
    else if address = a then a :: rest
    else a :: insertAddress address rest

/-- Resets the machine and loads bytes at the start of program memory. -/
def install (m : Monitor) (data : Bytes) (done : String) : Reply :=
  let board := m.board.reset
  match board.load data programStart with
  | .ok board => (m.withBoard board).tells done
  | .error e => (m.withBoard board).tells ("Error: " ++ e.message)

/-- Loads the program image in the file that the argument names. The machine is reset even if there
is no such file. -/
def load (m : Monitor) (argument : String) : Except Complaint Reply := do
  match ← readWords argument with
  | [] => return m.tells "Usage: load <file>"
  | path :: _ =>
    match m.files.read path with
    | .error e => return (m.withBoard m.board.reset).tells ("Error: " ++ e.message)
    | .ok data =>
      return m.install data ("Loaded '" ++ path ++ "' at " ++ Text.hexMarked 5 programStart)

/-- Assembles lines and loads the image; if there is none the machine stays as it is. -/
def assembleLines (m : Monitor) (lines : List String) : Reply :=
  let (notices, image) := Assembler.assembleLines m.board.config.shiftsVy lines
  let journal := notices.foldl (fun j n => j.addEntry n.entry) m.board.journal
  let m := m.withBoard { m.board with journal }
  match image with
  | .error e => m.tells ((if e.cause.isRefusal then "Assembly error: " else "Error: ") ++ e.message)
  | .ok data =>
    m.install data (s!"Assembled {data.size} bytes at " ++ Text.hexMarked 5 programStart)

/-- Assembles the file that the argument names, or after `-e` the argument's own text, whose lines
are separated by two semicolons. -/
def assemble (m : Monitor) (argument : String) : Except Complaint Reply := do
  match ← readWords argument with
  | [] => return m.tells "Usage: asm <file.asm>  OR  asm -e \"code\""
  | "-e" :: texts => return m.assembleLines ((String.intercalate " " texts).splitOn ";;")
  | path :: _ =>
    match m.files.read path with
    | .error e => return m.tells ("Error: " ++ e.message)
    | .ok data =>
      let text ← (Text.ofUtf8 data.toList).mapError .text
      return m.assembleLines (Text.lines text)

/-- The number in an argument, or the one to take if there is no argument. -/
def countOr (default : Int) (argument : String) : Except Complaint Int :=
  if argument.isEmpty then .ok default else readCount argument

/-- Takes as many steps as the argument tells, or one. -/
def step (m : Monitor) (argument : String) : Except Complaint Reply := do
  let count ← countOr 1 argument
  let (board, shown, fault) := stepAll m.board #[] count.toNat
  return {
    monitor := m.withBoard board
    lines := shown.toList
    verdict := match fault with | some cause => .fault cause | none => .goesOn }

/-- Runs until the machine halts, a breakpoint comes, or as many steps are taken as the argument
tells. -/
def run (m : Monitor) (argument : String) : Except Complaint Reply := do
  let limit ← countOr Board.defaultLimit argument
  let (board, stop) := runUntil m.breakpoints m.board 0 limit.toNat
  let m := m.withBoard board
  match stop with
  | .halted steps => return m.tells s!"VM halted after {steps} steps."
  | .breakpoint address => return m.tells ("Breakpoint hit at " ++ Text.hex 3 address)
  | .limit steps => return m.tells s!"Stopped after {steps} steps."
  | .fault cause => return { monitor := m, verdict := .fault cause }

/-- Sets a breakpoint, or shows all if there is no argument. -/
def setBreakpoint (m : Monitor) (argument : String) : Except Complaint Reply := do
  if argument.isEmpty then
    return { monitor := m, lines := m.breakpoints.map fun a => "  " ++ Text.hex 3 a }
  let address ← readAddress m.board.machine argument
  let m := { m with breakpoints := insertAddress address m.breakpoints }
  return m.tells ("Breakpoint set at " ++ Text.hex 3 address)

/-- Clears a breakpoint. -/
def clearBreakpoint (m : Monitor) (argument : String) : Except Complaint Reply := do
  let address ← readAddress m.board.machine argument
  return { monitor := { m with breakpoints := m.breakpoints.filter (· != address) } }

/-- The word for a truth value. -/
def truthText (b : Bool) : String := if b then "True" else "False"

/-- Shows the registers and what else a machine counts. -/
def registers (m : Monitor) : Reply :=
  let machine := m.board.machine
  { monitor := m
    lines := [machine.registerText,
      s!"  Stack depth: {machine.stack.length}  Halted: " ++ truthText machine.halted ++
        "  Hi-res: " ++ truthText machine.highRes ++ s!"  Steps: {machine.steps}"] }

/-- The number of bytes in a line of a dump. -/
def dumpWidth : Nat := 16

/-- How many bytes a dump shows unless it is told. -/
def defaultDump : Int := 64

/-- The line of a dump from address `row` on; the dump ends before `stop`. -/
def dumpLine (memory : Bytes) (row stop : Int) : String :=
  let data := memory.slice row (min (row + dumpWidth) stop)
  "  " ++ Text.hex 3 row ++ ": " ++ String.intercalate " " (data.toList.map Text.hexByte)

/-- The lines of a dump. -/
def dumpLines (memory : Bytes) (address stop : Int) : List String :=
  (List.range ((stop - address + dumpWidth - 1) / dumpWidth).toNat).map fun (k : Nat) =>
    dumpLine memory (address + dumpWidth * k) stop

/-- Shows bytes of memory from an address on, as many as the second word tells. -/
def dump (m : Monitor) (argument : String) : Except Complaint Reply := do
  match ← readWords argument with
  | [] => return m.tells "Usage: dump <address> [count]"
  | first :: rest =>
    let address ← readAddress m.board.machine first
    let count ← match rest with
      | text :: _ => readCount text
      | [] => pure defaultDump
    let stop := min (address + count) memorySize
    return { monitor := m, lines := dumpLines m.board.machine.memory address stop }

/-- How many instructions a listing shows unless it is told. -/
def defaultListing : Int := 16

/-- The line of a listing for a word at an address. -/
def listingLine (b : Board) (address : Int) (word : Nat) : String :=
  let marker := if address = b.machine.pc then ">>>" else "   "
  "  " ++ marker ++ " " ++ Text.hex 3 address ++ ": " ++ Text.hex 4 word ++ "  " ++
    instructionText b (.decode word b.config.shiftsVy)

/-- The lines of up to `n` instructions from an address to the end of memory, behind those already
`shown`. -/
def listingLines (b : Board) (address : Int) (shown : Array String) :
    Nat → Array String × Option Fault
  | 0 => (shown, none)
  | n + 1 =>
    if (memorySize : Int) ≤ address + 1 then (shown, none)
    else match b.machine.wordAt? address with
      | none => (shown, some .noSuchByte)
      | some word => listingLines b (address + 2) (shown.push (listingLine b address word)) n

/-- Shows instructions from an address or the program counter on, as many as the second word
tells. -/
def disassemble (m : Monitor) (argument : String) : Except Complaint Reply := do
  let words ← readWords argument
  let address ← match words with
    | text :: _ => readAddress m.board.machine text
    | [] => pure m.board.machine.pc
  let count ← match words with
    | _ :: text :: _ => readCount text
    | _ => pure defaultListing
  let (shown, fault) := listingLines m.board address #[] count.toNat
  return {
    monitor := m
    lines := shown.toList
    verdict := match fault with | some cause => .fault cause | none => .goesOn }

/-- Puts a key down, or up if the second word tells so, or shows the keys that are down. -/
def key (m : Monitor) (argument : String) : Except Complaint Reply := do
  match ← readWords argument with
  | [] => return m.tells ("Keys down: " ++ Text.binary 16 m.board.machine.keypad.bits)
  | text :: rest =>
    let key ← readNumeral 16 text
    let up := match rest with
      | word :: _ => Text.lower word == "up"
      | [] => false
    let moved := if up then m.board.machine.release key else m.board.machine.press key
    return { monitor := m.withBoard { m.board with machine := moved } }

/-- Names the commands. -/
def help (m : Monitor) : Reply := m.tells ("Commands: " ++ String.intercalate " " (verbs.map (·.1)))

/-- Obeys a command. -/
def obey (m : Monitor) (verb : Verb) (argument : String) : Except Complaint Reply :=
  match verb with
  | .load => m.load argument
  | .assemble => m.assemble argument
  | .reset => .ok ((m.withBoard m.board.reset).tells "VM reset.")
  | .step => m.step argument
  | .run => m.run argument
  | .setBreakpoint => m.setBreakpoint argument
  | .clearBreakpoint => m.clearBreakpoint argument
  | .registers => .ok m.registers
  | .dump => m.dump argument
  | .disassemble => m.disassemble argument
  | .key => m.key argument
  | .help => .ok m.help
  | .quit => .ok { monitor := m, verdict := .ends }
  | .endInput => .ok { monitor := m, lines := [""], verdict := .ends }

/-- Answers a typed line. -/
def answer (m : Monitor) (line : String) : Reply :=
  match Input.parse line with
  | .blank => { monitor := m }
  | .unknown text => m.tells ("Unknown command: " ++ Text.quoted text ++ ".  Type 'help'.")
  | .command verb argument =>
    match m.obey verb argument with
    | .ok reply => reply
    | .error complaint => m.tells ("Error: " ++ complaint.message)

end Monitor

end SuperChip

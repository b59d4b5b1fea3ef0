import SuperChip.Bytes
import SuperChip.Machine.Display
import SuperChip.Machine.Font
import SuperChip.Machine.Keypad
import SuperChip.MemoryMap
import SuperChip.Text.Hex

/-!
# The machine

The state of a CHIP-8 or Super-Chip machine: memory, display, sixteen registers, eight saved
flags, the index register, two timers, the program counter with its stack, the keypad, and the
marks that tell whether it is halted, in high resolution, in need of a refresh, or waiting for a
tick. Memory, registers and flags are rows that keep their lengths only as long as no stretch of
them is replaced by one of another length, and registers hold any numbers; in a well-formed machine
the rows are whole and the numbers are bytes.
-/

set_option autoImplicit false

namespace SuperChip

/-- How a machine behaves where CHIP-8 machines differ. -/
structure Config where
  /-- Whether drawing and scrolling wait for a tick. -/
  delayDraws : Bool := true
  /-- Whether the timers run. -/
  enableTimer : Bool := true
  /-- Whether block copies advance the index register. -/
  loadsAdvance : Bool := false
  /-- Whether shifts read a second register. -/
  shiftsVy : Bool := false
  /-- Ticks in a second. -/
  timerFrequency : Int := 60
  deriving DecidableEq, Repr, Inhabited

namespace Config

/-- Timers off, and no waiting. -/
def untimed : Config := { delayDraws := false, enableTimer := false }

end Config

/-- The state of a machine. -/
structure Machine where
  memory : Bytes
  display : Display
  registers : Cells Nat
  flags : Cells Nat
  /-- The index register. -/
  index : Nat
  /-- The delay timer. -/
  delay : Nat
  /-- The sound timer. -/
  sound : Nat
  /-- The address of the next instruction. -/
  pc : Int
  /-- The addresses of the calls that have not returned, the innermost first. -/
  stack : List Int
  keypad : Keypad
  halted : Bool
  highRes : Bool
  needsRefresh : Bool
  /-- Whether a tick has passed since a wait began. -/
  latch : Bool
  /-- Whether a draw or scroll is waiting for a tick. -/
  waiting : Bool
  /-- The tick at which the timers were last updated. -/
  ticks : Int
  /-- How many instructions were taken. -/
  steps : Nat
  deriving Inhabited

namespace Machine

/-- How many registers a machine has. -/
def registerCount : Nat := 16

/-- How many flags a machine has. -/
def flagCount : Nat := 8

/-- Memory with the digit sprites and nothing else. -/
def bareMemory : Bytes :=
  let zeros := Bytes.zeros memorySize
  let small := zeros.splice Font.smallStart (Font.smallStart + Font.small.size) Font.small
  small.splice Font.bigStart (Font.bigStart + Font.big.size) Font.big

/-- The machine after power-on, at the given tick. -/
def powerOn (ticks : Int) : Machine where
  memory := bareMemory
  display := .blank
  registers := Array.replicate registerCount 0
  flags := Array.replicate flagCount 0
  index := 0
  delay := 0
  sound := 0
  pc := programStart
  stack := []
  keypad := {}
  halted := false
  highRes := false
  needsRefresh := true
  latch := true
  waiting := false
  ticks := ticks
  steps := 0

/-- The number of the flag register. -/
def flagRegister : Nat := 0xF

/-- The big-endian word at an address: the second byte wraps around to the start of memory. -/
def wordAt? (m : Machine) (address : Int) : Option Nat :=
  match m.memory.at? address, m.memory.at? ((address + 1) % memorySize) with
  | some high, some low => some (Bytes.word high low)
  | _, _ => none

/-- Whether the buzzer sounds. -/
def soundOn (m : Machine) : Bool := m.sound != 0

/-- The machine with a key down. -/
def press (m : Machine) (key : Int) : Machine := { m with keypad := m.keypad.press key }

/-- The machine with a key up. -/
def release (m : Machine) (key : Int) : Machine := { m with keypad := m.keypad.release key }

/-- Why bytes cannot be loaded. -/
inductive LoadError where
  | tooBig
  deriving DecidableEq, Repr

/-- The wording of the refusal. -/
def LoadError.message : LoadError → String
  | .tooBig => "Input program is too big"

/-- The machine with bytes copied into memory from an address on. -/
def load (m : Machine) (data : Bytes) (address : Int) : Except LoadError Machine :=
  if memorySize < address + data.size then .error .tooBig
  else .ok { m with memory := m.memory.splice address (address + data.size) data }

/-- The registers, timers, index and program counter in one line. -/
def registerText (m : Machine) : String :=
  let registers := m.registers.toList.zipIdx.map fun (v, i) =>
    "V" ++ Text.hex 1 i ++ " = " ++ Text.hex 2 v
  "Register values: " ++ String.intercalate "; " registers ++ "; DT = " ++ Text.hex 2 m.delay ++
    "; ST = " ++ Text.hex 2 m.sound ++ "; I = " ++ Text.hex 4 m.index ++ "; PC = " ++
    Text.hex 4 m.pc

end Machine

end SuperChip

import SuperChip.Instruction.Printer
import SuperChip.Log
import SuperChip.Machine.Execute

/-!
# One step of the machine

A step fetches the word at the program counter, brings the timers up to the present tick, and
executes the instruction. Past the end of memory the machine halts; so it does when an instruction
aborts. A halted machine stays as it is.
-/

set_option autoImplicit false

namespace SuperChip

/-- What a machine reports. -/
inductive MachineNotice where
  | executing (pc : Int) (i : Instruction) (shiftsVy : Bool)
  | ignored (word : Int)
  | leftMemory
  | aborted (cause : Abort)
  | registers (text : String)
  | loaded (count : Nat) (address : Int)
  deriving Repr

namespace MachineNotice

/-- The level of a notice. -/
def level : MachineNotice → Log.Level
  | .executing .. => .debug
  | .ignored _ => .warning
  | .leftMemory | .aborted _ | .registers _ => .error
  | .loaded .. => .info

/-- The wording of a notice. -/
def text : MachineNotice → String
  | .executing pc i shiftsVy => Text.hex 3 pc ++ ": " ++ i.text none shiftsVy
  | .ignored word =>
    "Invalid instruction encountered and ignored (opcode " ++ Text.hexMarked 6 word ++ ")"
  | .leftMemory => "Program counter went out of bounds"
  | .aborted cause => "ABORT: " ++ cause.message
  | .registers t => t
  | .loaded count address => s!"Loaded {count} bytes at " ++ Text.hexMarked 5 address

end MachineNotice

/-- What a step reads from outside, if it does: the present tick, and a random number. -/
structure StepInput where
  ticks : Int
  random : Int
  deriving Repr, Inhabited

/-- What a step leaves behind. -/
structure StepResult where
  machine : Machine
  /-- The instruction taken, if one was. -/
  executed : Option Instruction := none
  notices : List MachineNotice := []
  /-- Why the machine, not being well-formed, could not finish the step. -/
  fault : Option Fault := none
  deriving Inhabited

namespace Machine

/-- The machine with its timers brought up to a tick, where the timers run. -/
def updateTimers (c : Config) (m : Machine) (now : Int) : Machine :=
  if c.enableTimer then m.tick now else m

/-- The machine with one more instruction counted. -/
def countStep (m : Machine) : Machine := { m with steps := m.steps + 1 }

/-- The instruction at the program counter, if the counter meets memory. -/
def current? (c : Config) (m : Machine) : Option Instruction :=
  (m.wordAt? m.pc).map fun w => .decode w c.shiftsVy

/-- Takes an instruction. Whatever it changed before it stopped stays changed. -/
def take (c : Config) (input : StepInput) (m : Machine) (i : Instruction) : StepResult :=
  let trace := MachineNotice.executing m.pc i c.shiftsVy
  let m := m.updateTimers c input.ticks
  match execute c input.random i m with
  | .ok pc left =>
    let notices := if i.op == .invalid then [trace, .ignored i.word] else [trace]
    { machine := (left.goto pc).countStep, executed := some i, notices }
  | .error (.abort cause) left =>
    { machine := { left with halted := true }.countStep
      executed := some i
      notices := [trace, .aborted cause, .registers left.registerText] }
  | .error (.fault cause) left =>
    { machine := left, executed := some i, notices := [trace], fault := some cause }

/-- The machine after one step. -/
def step (c : Config) (input : StepInput) (m : Machine) : StepResult :=
  if m.halted then { machine := m }
  else if memorySize ≤ m.pc then
    { machine := { m with halted := true }, notices := [.leftMemory] }
  else match m.current? c with
    | none => { machine := m, fault := some .noSuchByte }
    | some i => m.take c input i

end Machine

end SuperChip

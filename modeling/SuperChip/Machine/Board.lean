import SuperChip.Machine.Clock
import SuperChip.Machine.Step

/-!
# The board

A machine with the clock and the random numbers it reads and the journal it writes. The clock is
read once for each instruction taken while the timers run, and once at each reset; a number is
drawn for each random instruction. A reset leaves the random source where it is.
-/

set_option autoImplicit false

namespace SuperChip

/-- A machine and what it is connected to. -/
structure Board where
  config : Config
  machine : Machine
  clock : Clock
  random : RandomSource
  journal : Log.Journal
  deriving Inhabited

namespace Board

/-- The journal with what a machine reported. -/
def note (journal : Log.Journal) (notices : List MachineNotice) : Log.Journal :=
  notices.foldl (fun j n => j.add n.level fun _ => n.text) journal

/-- A board after power-on. -/
def powerOn (config : Config) (clock : Clock) (random : RandomSource) (journal : Log.Journal) :
    Board :=
  let (now, clock) := clock.read
  { config, machine := .powerOn (Clock.tickAt now config.timerFrequency), clock, random, journal }

/-- The board with its machine in the state after power-on. -/
def reset (b : Board) : Board := powerOn b.config b.clock b.random b.journal

/-- The board after one step, and why the step could not be finished, if it could not. -/
def step (b : Board) : Board × Option Fault :=
  match b with
  | ⟨config, machine, clock, random, journal⟩ =>
    let (now, clockAfter) := clock.read
    let ticks := if config.enableTimer then Clock.tickAt now config.timerFrequency else 0
    let r := machine.step config ⟨ticks, random.peek⟩
    let read := config.enableTimer && r.executed.isSome
    let drawn := r.executed.any (·.op == .random)
    ({ config
       machine := r.machine
       clock := if read then clockAfter else clock
       random := if drawn then random.advance else random
       journal := note journal r.notices },
     r.fault)

/-- Steps up to `n` times, until the machine halts or a fault stops it. `taken` counts the steps. -/
def runSteps (b : Board) (taken : Nat) : Nat → Board × Except Fault Nat
  | 0 => (b, .ok taken)
  | n + 1 =>
    if b.machine.halted then (b, .ok taken)
    else match b.step with
      | (b, some fault) => (b, .error fault)
      | (b, none) => runSteps b (taken + 1) n

/-- Steps until the machine halts, at most `limit` times. The second value is how many steps were
taken. -/
def run (b : Board) (limit : Int) : Board × Except Fault Nat := b.runSteps 0 limit.toNat

/-- How many steps a run takes unless it is told. -/
def defaultLimit : Int := 1000000

/-- The board with bytes loaded from an address on. -/
def load (b : Board) (data : Bytes) (address : Int) : Except Machine.LoadError Board :=
  match b.machine.load data address with
  | .error e => .error e
  | .ok machine =>
    .ok { b with machine, journal := note b.journal [.loaded data.size address] }

/-- Writes a word at the program counter, high byte first, and takes a step. -/
def stepWord (b : Board) (word : Int) : Board × Option Fault :=
  let pc := b.machine.pc
  match b.machine.memory.set? pc (.ofNat (word / 0x100 % 0x100).toNat) with
  | none => (b, some .noSuchByte)
  | some memory =>
    let b := { b with machine := { b.machine with memory } }
    match memory.set? (pc + 1) (.ofNat (word % 0x100).toNat) with
    | none => (b, some .noSuchByte)
    | some memory => { b with machine := { b.machine with memory } }.step

/-- The board with a change made to its machine. -/
def modify (b : Board) (f : Machine → Machine) : Board := { b with machine := f b.machine }

/-- The instruction at the program counter. -/
def current? (b : Board) : Option Instruction := b.machine.current? b.config

end Board

end SuperChip

import SuperChip.Machine.Board

/-!
# Stepping and running under the monitor

`stepAll` takes a number of steps and shows the instruction of each; `runUntil` takes steps until a
limit, a halt or a breakpoint. The first step of a run is taken even at a breakpoint.
-/

set_option autoImplicit false

namespace SuperChip.Monitor

/-- The text of an instruction on a board. -/
def instructionText (b : Board) (i : Instruction) : String := i.text none b.config.shiftsVy

/-- Takes up to `n` steps and shows each behind the lines already `shown`; a halted machine is told
and ends it. An instruction is read before its step is taken: where the program counter meets no
memory, that is a fault. -/
def stepAll (b : Board) (shown : Array String) : Nat → Board × Array String × Option Fault
  | 0 => (b, shown, none)
  | n + 1 =>
    if b.machine.halted then (b, shown.push "VM is halted.", none)
    else match b.current? with
      | none => (b, shown, some .noSuchByte)
      | some i =>
        let line := "  " ++ Text.hex 3 b.machine.pc ++ ": " ++ instructionText b i
        match b.step with
        | (b, some fault) => (b, shown, some fault)
        | (b, none) => stepAll b (shown.push line) n

/-- How a run ends. -/
inductive RunEnd where
  | halted (steps : Nat)
  | breakpoint (address : Int)
  | limit (steps : Nat)
  | fault (cause : Fault)
  deriving DecidableEq, Repr

/-- Takes up to `n` steps until the machine halts or comes to a breakpoint. `taken` counts the steps
of the whole run. -/
def runUntil (breakpoints : List Int) (b : Board) (taken : Nat) : Nat → Board × RunEnd
  | 0 => (b, .limit taken)
  | n + 1 =>
    if b.machine.halted then (b, .halted taken)
    else if taken != 0 && breakpoints.contains b.machine.pc then (b, .breakpoint b.machine.pc)
    else match b.step with
      | (b, some fault) => (b, .fault fault)
      | (b, none) => runUntil breakpoints b (taken + 1) n

end SuperChip.Monitor

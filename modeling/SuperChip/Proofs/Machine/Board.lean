import Mathlib.Logic.Function.Iterate
import SuperChip.Machine.Board
import SuperChip.Proofs.Machine.Run

/-!
# Steps of a board

A step of a board is a step of its machine with what the board reads for it, so a board with a
well-formed machine goes on without a fault (`wellFormed_step`). Once the machine has halted the
board stays as it is.
-/

set_option autoImplicit false

namespace SuperChip

/-- The machine runs although its program counter has left memory. -/
def Machine.Overruns (m : Machine) : Prop := m.halted = false ∧ memorySize ≤ m.pc

namespace Board

variable {b : Board}

/-- A board with the timers off. -/
def untimed (machine : Machine) : Board := ⟨.untimed, machine, .steady 0 1, {}, .ofVerbosity 0⟩

/-- The board after some steps. -/
def after (b : Board) (n : Nat) : Board := (fun b => b.step.1)^[n] b

/-- After no step the board is as it was. -/
@[simp] theorem after_zero (b : Board) : b.after 0 = b := rfl

/-- After one step more, the first step apart. -/
@[simp] theorem after_succ (b : Board) (n : Nat) : b.after (n + 1) = b.step.1.after n := rfl

/-- After one step more, the last step apart. -/
theorem after_succ' (b : Board) (n : Nat) : b.after (n + 1) = (b.after n).step.1 :=
  Function.iterate_succ_apply' _ n b

/-- A step of a board is a step of its machine. -/
theorem exists_machine_step (b : Board) : ∃ input,
    b.step.1.machine = (b.machine.step b.config input).machine ∧
      b.step.2 = (b.machine.step b.config input).fault :=
  ⟨_, rfl, rfl⟩

/-- A board with a well-formed machine takes a step without a fault. -/
theorem wellFormed_step (h : b.machine.WellFormed) :
    b.step.1.machine.WellFormed ∧ b.step.2 = none := by
  obtain ⟨input, hmachine, hfault⟩ := b.exists_machine_step
  obtain ⟨hnext, hnone, -⟩ := h.step b.config input
  exact ⟨hmachine ▸ hnext, hfault.trans hnone⟩

/-- Steps keep the machine of a board well-formed. -/
theorem wellFormed_after (h : b.machine.WellFormed) (n : Nat) :
    (b.after n).machine.WellFormed := by
  induction n with
  | zero => exact h
  | succ n ih =>
    rw [after_succ']
    exact (wellFormed_step ih).1

/-- A board whose machine has halted stays as it is. -/
theorem step_of_halted (h : b.machine.halted = true) : b.step = (b, none) := by
  obtain ⟨config, machine, clock, random, journal⟩ := b
  have hstep (input : StepInput) : machine.step config input = { machine } := if_pos h
  simp [step, hstep, note]

/-- However many steps a board with a halted machine is given, it stays as it is. -/
theorem after_of_halted (h : b.machine.halted = true) (n : Nat) : b.after n = b :=
  Function.iterate_fixed (congrArg Prod.fst (step_of_halted h)) n

/-- A step leaves a sized machine of a board sized. -/
theorem sized_step (h : b.machine.Sized) : b.step.1.machine.Sized := by
  obtain ⟨input, hmachine, -⟩ := b.exists_machine_step
  exact hmachine ▸ h.step b.config input

/-- Where the program counter has left memory the next step halts. -/
theorem machine_step_of_overruns (h : b.machine.Overruns) :
    b.step.1.machine = { b.machine with halted := true } := by
  obtain ⟨input, hmachine, -⟩ := b.exists_machine_step
  rw [hmachine, Machine.step_of_outside h.1 h.2]

end Board

end SuperChip

import Mathlib.Order.Bounds.Defs
import SuperChip.Proofs.Console.StepLimit
import SuperChip.Proofs.Monitor.Stepping

/-!
# Running under the monitor

A run of the monitor looks before each step whether it is to stop: at its limit, where the machine
has halted, or at a breakpoint, which does not count before the first step. So it takes the least
number of steps after which one of these holds, and leaves the board that as many steps of its own
leave (`answer_run`). Without breakpoints this is the run of the board.

The induction is on the steps that are left. `Stops` tells which numbers of steps are a place to
stop; after a step these are the same places, one step nearer (`stops_succ`).
-/

set_option autoImplicit false

namespace SuperChip.Monitor

/-- A run of at most `n` steps, before which `taken` steps were taken, has a reason to stop after
`j` of them. -/
def Stops (breakpoints : List Int) (b : Board) (taken n j : Nat) : Prop :=
  j = n ∨ (b.after j).machine.halted = true ∨
    1 ≤ taken + j ∧ (b.after j).machine.pc ∈ breakpoints

/-- How a run of at most `n` steps ends that stops after `k` of them. -/
def endOf (b : Board) (taken n k : Nat) : RunEnd :=
  if k = n then .limit (taken + k)
  else if (b.after k).machine.halted then .halted (taken + k)
  else .breakpoint (b.after k).machine.pc

/-- The line that tells how a run of at most `n` steps ended after `k` of them. -/
def stopLine (b : Board) (n k : Nat) : String :=
  if k = n then s!"Stopped after {k} steps."
  else if (b.after k).machine.halted then s!"VM halted after {k} steps."
  else "Breakpoint hit at " ++ Text.hex 3 (b.after k).machine.pc

variable {b : Board} {breakpoints : List Int} {taken n j k : Nat}

/-- After a step the places to stop are one step nearer. -/
theorem stops_succ :
    Stops breakpoints b taken (n + 1) (j + 1) ↔ Stops breakpoints b.step.1 (taken + 1) n j := by
  have hcount : taken + (j + 1) = taken + 1 + j := by omega
  rw [Stops, Stops, Board.after_succ, hcount, Nat.add_right_cancel_iff]

/-- After a step a run ends as the rest of it does. -/
theorem endOf_succ : endOf b taken (n + 1) (k + 1) = endOf b.step.1 (taken + 1) n k := by
  have hcount : taken + (k + 1) = taken + 1 + k := by omega
  simp only [endOf, Board.after_succ, hcount, Nat.add_right_cancel_iff]

/-- A place to stop at once is the least. -/
theorem isLeast_zero (h : Stops breakpoints b taken n 0) :
    IsLeast {j | Stops breakpoints b taken n j} 0 :=
  ⟨h, fun _ _ => Nat.zero_le _⟩

/-- The least place to stop after a step is one step further from before it. -/
theorem isLeast_succ (hgoes : ¬Stops breakpoints b taken (n + 1) 0)
    (h : IsLeast {j | Stops breakpoints b.step.1 (taken + 1) n j} k) :
    IsLeast {j | Stops breakpoints b taken (n + 1) j} (k + 1) := by
  constructor
  · exact stops_succ.mpr h.1
  · intro j hj
    cases j with
    | zero => exact absurd hj hgoes
    | succ j => exact Nat.succ_le_succ (h.2 (stops_succ.mp hj))

/-- A run stops at the least number of steps after which it has a reason to. -/
theorem runUntil_eq (h : b.machine.WellFormed) (breakpoints : List Int) (taken n : Nat) :
    ∃ k, IsLeast {j | Stops breakpoints b taken n j} k ∧
      runUntil breakpoints b taken n = (b.after k, endOf b taken n k) := by
  induction n generalizing b taken with
  | zero => exact ⟨0, isLeast_zero (.inl rfl), rfl⟩
  | succ n ih =>
    rw [runUntil]
    split
    · next hhalted =>
      refine ⟨0, isLeast_zero (.inr (.inl hhalted)), ?_⟩
      simp [endOf, hhalted]
    · next hrunning =>
      split
      · next hpoint =>
        simp only [Bool.and_eq_true, bne_iff_ne, List.contains_iff_mem] at hpoint
        refine ⟨0, isLeast_zero (.inr (.inr ⟨by omega, hpoint.2⟩)), ?_⟩
        simp [endOf, hrunning]
      · next hclear =>
        -- nothing stops the run here, and what is left is a run from the next board
        obtain ⟨hnext, hfault⟩ := Board.wellFormed_step h
        have hstep : b.step = (b.step.1, none) := Prod.ext rfl hfault
        obtain ⟨k, hleast, hrun⟩ := ih hnext (taken + 1)
        have hgoes : ¬Stops breakpoints b taken (n + 1) 0 := by
          simp only [Bool.and_eq_true, bne_iff_ne, List.contains_iff_mem] at hclear
          rintro (hn | hhalted | ⟨htaken, hmem⟩)
          · exact absurd hn.symm (Nat.succ_ne_zero n)
          · exact hrunning hhalted
          · exact hclear ⟨by omega, hmem⟩
        refine ⟨k + 1, isLeast_succ hgoes hleast, ?_⟩
        rw [hstep, endOf_succ, Board.after_succ]
        exact hrun

/-- Where nothing but the limit and a halt can stop a run, it is the run of the board. -/
theorem run_eq_of_isLeast (h : b.machine.WellFormed) {limit : Int}
    (hleast : IsLeast {j | Stops [] b 0 limit.toNat j} k) : b.run limit = (b.after k, .ok k) := by
  obtain ⟨j, hle, hbefore, ⟨hrun, hend⟩ | ⟨fault, -, hfault, -⟩⟩ :=
    b.runSteps_within 0 limit.toNat
  · have hstops : Stops [] b 0 limit.toNat j := hend.imp_right .inl
    have hkj : k = j := by
      refine Nat.le_antisymm (hleast.2 hstops) (Nat.le_of_not_lt fun hlt => ?_)
      obtain hk | hhalted | ⟨-, hmem⟩ := hleast.1
      · omega
      · rw [(hbefore k hlt).1] at hhalted
        cases hhalted
      · cases hmem
    rw [Board.run, hrun, hkj, Nat.zero_add]
  · rw [(Board.wellFormed_step (Board.wellFormed_after h j)).2] at hfault
    cases hfault

section Command

variable {m : Monitor} {line argument : String} {limit : Int}

/-- What the command to run does. It takes the least number of steps after which the limit is
reached, the machine has halted, or the program counter is at a breakpoint, where the place it
starts from does not count, and tells which of these came. So no step but the first starts at a
breakpoint. Without breakpoints the run is that of the board. -/
theorem answer_run (h : m.board.machine.WellFormed)
    (hparse : Input.parse line = .command .run argument)
    (hlimit : countOr Board.defaultLimit argument = .ok limit) :
    ∃ k, IsLeast {j | j = limit.toNat ∨ (m.board.after j).machine.halted = true ∨
        1 ≤ j ∧ (m.board.after j).machine.pc ∈ m.breakpoints} k ∧
      m.answer line =
        (m.withBoard (m.board.after k)).tells (stopLine m.board limit.toNat k) ∧
      (∀ j < k, 1 ≤ j → (m.board.after j).machine.pc ∉ m.breakpoints) ∧
      (m.breakpoints = [] → m.board.run limit = (m.board.after k, .ok k)) := by
  obtain ⟨k, hleast, hrun⟩ := runUntil_eq h m.breakpoints 0 limit.toNat
  have hplaces : {j | Stops m.breakpoints m.board 0 limit.toNat j} =
      {j | j = limit.toNat ∨ (m.board.after j).machine.halted = true ∨
        1 ≤ j ∧ (m.board.after j).machine.pc ∈ m.breakpoints} := by
    simp only [Stops, Nat.zero_add]
  refine ⟨k, hplaces ▸ hleast, ?answer, ?points, ?free⟩
  case answer =>
    simp only [answer, hparse, obey, run, hlimit, bind, Except.bind, hrun, endOf, stopLine]
    by_cases hk : k = limit.toNat
    · rw [if_pos hk, if_pos hk, Nat.zero_add]
      rfl
    · rw [if_neg hk, if_neg hk, Nat.zero_add]
      cases (m.board.after k).machine.halted <;> rfl
  case points =>
    intro j hj hpos hmem
    exact Nat.not_lt.mpr (hleast.2 (.inr (.inr ⟨by omega, hmem⟩))) hj
  case free =>
    intro hnone
    rw [hnone] at hleast
    exact run_eq_of_isLeast h hleast

end Command

/-- A program that jumps to itself. -/
def jumpToSelf : Bytes := #[0x12, 0x00]

/-- The jump leaves the machine where it is, with one more step counted. -/
theorem machine_after_jumpToSelf {m₀ : Machine}
    (hload : (Machine.powerOn 0).load jumpToSelf programStart = .ok m₀) :
    ((untimed m₀).board.after 1).machine = { m₀ with steps := m₀.steps + 1 } := by
  have hholds := Machine.holds_load hload
  have hstart : m₀.halted = false ∧ m₀.pc = programStart := by
    obtain ⟨memory, rfl⟩ := Machine.exists_load_powerOn hload
    exact ⟨rfl, rfl⟩
  have hjump : ProgramText.instructionAt ⟨jumpToSelf, false⟩ 0 =
      { op := .jump, address := 0x200 } := by decide
  have hnext : m₀.goto 0x200 = m₀ := by
    obtain ⟨memory, rfl⟩ := Machine.exists_load_powerOn hload
    rfl
  obtain ⟨input, hmachine, -⟩ := (untimed m₀).board.exists_machine_step
  have hstep := hholds.step_eq .untimed input (o := 0) hstart.1 hstart.2 (by decide)
  rw [Board.after_succ, Board.after_zero, hmachine]
  refine (congrArg StepResult.machine (hstep.trans (congrArg _ hjump))).trans ?_
  exact congrArg Machine.countStep hnext

/-- The run starts at the breakpoint and is back there after one step, where it stops. -/
theorem answer_run_jumpToSelf : ∃ m₀,
    (Machine.powerOn 0).load jumpToSelf programStart = .ok m₀ ∧ m₀.WellFormed ∧
      Input.parse "run 5" = .command .run "5" ∧ countOr Board.defaultLimit "5" = .ok 5 ∧
      let m : Monitor := { untimed m₀ with breakpoints := [0x200] }
      m.answer "run 5" = (m.withBoard (m.board.after 1)).tells "Breakpoint hit at 200" := by
  obtain ⟨m₀, hload, hm₀⟩ : ∃ m₀, (Machine.powerOn 0).load jumpToSelf programStart = .ok m₀ ∧
      m₀.WellFormed := (Machine.wellFormed_powerOn 0).load (by decide)
  have hparse : Input.parse "run 5" = .command .run "5" := by decide +kernel
  have hlimit : countOr Board.defaultLimit "5" = .ok 5 := by rfl
  have hstart : m₀.halted = false ∧ m₀.pc = 0x200 := by
    obtain ⟨memory, rfl⟩ := Machine.exists_load_powerOn hload
    exact ⟨rfl, rfl⟩
  have hafter := machine_after_jumpToSelf hload
  let m : Monitor := { untimed m₀ with breakpoints := [0x200] }
  have hpc : (m.board.after 1).machine.pc = 0x200 :=
    (congrArg Machine.pc hafter).trans hstart.2
  have hrunning : (m.board.after 1).machine.halted = false :=
    (congrArg Machine.halted hafter).trans hstart.1
  obtain ⟨k, hleast, hanswer, -, -⟩ := answer_run (m := m) hm₀ hparse hlimit
  have hk : k = 1 := by
    have hle : k ≤ 1 := hleast.2 (.inr (.inr ⟨Nat.le_refl 1, hpc ▸ List.mem_singleton.mpr rfl⟩))
    refine Nat.le_antisymm hle (Nat.one_le_iff_ne_zero.mpr fun hzero => ?_)
    have hstops := hleast.1
    rw [hzero] at hstops
    obtain hend | hhalted | ⟨hpos, -⟩ := hstops
    · exact absurd hend (by decide)
    · exact Bool.false_ne_true (hstart.1.symm.trans hhalted)
    · exact absurd hpos (by decide)
  have hline : stopLine m.board (Int.toNat 5) 1 = "Breakpoint hit at 200" := by
    rw [stopLine, if_neg (by decide), hrunning, hpc, if_neg Bool.false_ne_true]
    decide +kernel
  rw [hk, hline] at hanswer
  exact ⟨m₀, hload, hm₀, hparse, hlimit, hanswer⟩

end SuperChip.Monitor

import SuperChip.Monitor.Monitor
import SuperChip.Proofs.Machine.Board
import SuperChip.Proofs.Machine.Loading

/-!
# Stepping under the monitor

The monitor reads the instruction at the program counter to show it, and then takes the step. A step
that finds the program counter behind the end of memory halts the machine; there the monitor has
nothing to read and fails before the step. On all other machines the command takes the steps that it
is told to and shows one line for each (`answer_step`).
-/

set_option autoImplicit false

namespace SuperChip.Monitor

/-- The line that shows a step from here. -/
def stepLine (b : Board) : String :=
  "  " ++ Text.hex 3 b.machine.pc ++ ": " ++ (b.current?.map (instructionText b)).getD ""

/-- The boards from which `n` steps are taken. -/
def stages (b : Board) (n : Nat) : List Board := (List.range n).map b.after

/-- The lines that show `n` steps: one for each, until the machine has halted, which is told
once. -/
def stepLines (b : Board) (n : Nat) : List String :=
  ((stages b n).takeWhile fun s => !s.machine.halted).map stepLine ++
    if (stages b n).any (·.machine.halted) then ["VM is halted."] else []

variable {b : Board} {shown : Array String} {n k : Nat}

/-- The first stage of several steps is the board itself. -/
theorem stages_succ (b : Board) (n : Nat) : stages b (n + 1) = b :: stages b.step.1 n := by
  simp only [stages, List.range_succ_eq_map, List.map_cons, List.map_map]
  rfl

/-- No step shows no line. -/
theorem stepLines_zero (b : Board) : stepLines b 0 = [] := rfl

/-- A board that has halted shows one line. -/
theorem stepLines_of_halted (h : b.machine.halted = true) :
    stepLines b (n + 1) = ["VM is halted."] := by
  simp [stepLines, stages_succ, h]

/-- A board that has not halted shows a line for its step, and goes on. -/
theorem stepLines_of_running (h : b.machine.halted = false) :
    stepLines b (n + 1) = stepLine b :: stepLines b.step.1 n := by
  simp [stepLines, stages_succ, h]

/-- A machine that is in memory is shown and stepped. -/
theorem stepAll_of_running (h : b.machine.WellFormed) (hrunning : b.machine.halted = false)
    (hlt : b.machine.pc < memorySize) :
    stepAll b shown (n + 1) = stepAll b.step.1 (shown.push (stepLine b)) n := by
  obtain ⟨i, hi, -⟩ := (h.ready hlt).current?_eq b.config
  have hcurrent : b.current? = some i := hi
  have hstep : b.step = (b.step.1, none) := Prod.ext rfl (Board.wellFormed_step h).2
  rw [stepAll, if_neg (by simp [hrunning]), hcurrent]
  dsimp only
  rw [hstep, stepLine, hcurrent]
  rfl

/-- Behind the end of memory there is nothing to show. -/
theorem stepAll_of_overruns (h : b.machine.WellFormed) (hover : b.machine.Overruns) :
    stepAll b shown (n + 1) = (b, shown, some .noSuchByte) := by
  obtain ⟨a, ha⟩ := Int.eq_ofNat_of_zero_le h.pc_nonneg
  have houtside : b.machine.memory.size ≤ a := by
    have hle := hover.2
    rw [h.memory_size]
    omega
  have hbyte : b.machine.memory.at? b.machine.pc = none := by
    rw [ha, Cells.at?_natCast, Array.getElem?_eq_none houtside]
  have hcurrent : b.current? = none := by
    rw [Board.current?, Machine.current?, Machine.wordAt?, hbyte]
    rfl
  rw [stepAll, if_neg (by simp [hover.1]), hcurrent]

/-- Steps that all start in memory are taken and shown. -/
theorem stepAll_eq (h : b.machine.WellFormed) (hin : ∀ k < n, ¬ (b.after k).machine.Overruns) :
    stepAll b shown n = (b.after n, shown ++ (stepLines b n).toArray, none) := by
  induction n generalizing b shown with
  | zero => simp [stepAll, stepLines_zero]
  | succ n ih =>
    cases hhalted : b.machine.halted with
    | true =>
      rw [stepAll, if_pos hhalted, Board.after_of_halted hhalted, stepLines_of_halted hhalted]
      simp
    | false =>
      have hlt : b.machine.pc < memorySize :=
        Int.not_le.mp fun hle => hin 0 (Nat.succ_pos n) ⟨hhalted, hle⟩
      have hrest : ∀ k < n, ¬ (b.step.1.after k).machine.Overruns :=
        fun k hk => hin (k + 1) (Nat.succ_lt_succ hk)
      rw [stepAll_of_running h hhalted hlt, ih (Board.wellFormed_step h).1 hrest,
        stepLines_of_running hhalted]
      simp

/-- The first step that starts behind the end of memory is not taken, and the steps before it
are. -/
theorem stepAll_eq_fault (h : b.machine.WellFormed) (hk : k < n)
    (hover : (b.after k).machine.Overruns) :
    stepAll b shown n = (b.after k, shown ++ (stepLines b k).toArray, some .noSuchByte) := by
  induction k generalizing b shown n with
  | zero =>
    obtain ⟨n, rfl⟩ := Nat.exists_eq_succ_of_ne_zero (Nat.ne_zero_of_lt hk)
    simp [stepLines_zero, stepAll_of_overruns h hover]
  | succ k ih =>
    have hhalted : b.machine.halted = false := by
      refine Bool.eq_false_iff.mpr fun hhalted => ?_
      rw [Board.after_of_halted hhalted, Machine.Overruns, hhalted] at hover
      exact absurd hover.1 nofun
    have hlt : b.machine.pc < memorySize := by
      refine Int.not_le.mp fun hle => ?_
      -- a step that starts out there halts, and then the board stays
      have hstop : b.step.1.machine.halted = true := by
        rw [Board.machine_step_of_overruns ⟨hhalted, hle⟩]
      rw [Board.after_succ, Board.after_of_halted hstop, Machine.Overruns, hstop] at hover
      exact absurd hover.1 nofun
    obtain ⟨n, rfl⟩ := Nat.exists_eq_succ_of_ne_zero (Nat.ne_zero_of_lt hk)
    rw [stepAll_of_running h hhalted hlt,
      ih (Board.wellFormed_step h).1 (Nat.lt_of_succ_lt_succ hk) hover,
      stepLines_of_running hhalted]
    simp

section Command

variable {m : Monitor} {line argument : String} {count : Int}

/-- The answer to `step` is that of all its steps. -/
theorem answer_eq_stepAll (hparse : Input.parse line = .command .step argument)
    (hcount : countOr 1 argument = .ok count) :
    m.answer line =
      let (board, shown, fault) := stepAll m.board #[] count.toNat
      { monitor := m.withBoard board
        lines := shown.toList
        verdict := match fault with | some cause => .fault cause | none => .goesOn } := by
  simp only [answer, hparse, obey, step, hcount]
  rfl

/-- What the command to step does. Steps that all start in memory leave the board that as many steps
of its own leave, and each is shown, until the machine has halted. If a step starts behind the end
of memory, where it would only halt the machine, the command fails with the steps before it taken
and shown. -/
theorem answer_step (h : m.board.machine.WellFormed)
    (hparse : Input.parse line = .command .step argument)
    (hcount : countOr 1 argument = .ok count) :
    ((∀ k < count.toNat, ¬ (m.board.after k).machine.Overruns) →
      m.answer line =
        { monitor := m.withBoard (m.board.after count.toNat)
          lines := stepLines m.board count.toNat }) ∧
    ∀ k < count.toNat, (m.board.after k).machine.Overruns →
      (m.board.after (k + 1)).machine = { (m.board.after k).machine with halted := true } ∧
      m.answer line =
        { monitor := m.withBoard (m.board.after k)
          lines := stepLines m.board k
          verdict := .fault .noSuchByte } := by
  rw [answer_eq_stepAll hparse hcount]
  constructor
  · intro hin
    rw [stepAll_eq h hin]
    simp
  · intro k hk hover
    rw [Board.after_succ', Board.machine_step_of_overruns hover, stepAll_eq_fault h hk hover]
    simp

end Command

/-- A program that jumps to the last two bytes of memory, which hold no instruction. -/
def jumpToEnd : Bytes := #[0x1F, 0xFE]

/-- A monitor of a machine, with the timers off. -/
def untimed (machine : Machine) : Monitor := { board := .untimed machine }

/-- The third step of the program starts behind the end of memory. -/
theorem overruns_jumpToEnd {m₀ : Machine}
    (h : (Machine.powerOn 0).load jumpToEnd programStart = .ok m₀) :
    ((untimed m₀).board.after 2).machine.Overruns := by
  have hholds := Machine.holds_load h
  have hstart : m₀.halted = false ∧ m₀.pc = programStart := by
    obtain ⟨memory, rfl⟩ := Machine.exists_load_powerOn h
    exact ⟨rfl, rfl⟩
  have hjump : ProgramText.instructionAt ⟨jumpToEnd, false⟩ 0 =
      { op := .jump, address := 0xFFE } := by decide
  have hinvalid : ProgramText.instructionAt ⟨jumpToEnd, false⟩ 0xDFE = { op := .invalid } := by
    decide
  have hfirst : ((untimed m₀).board.after 1).machine =
      { m₀ with pc := 0xFFE, steps := m₀.steps + 1 } := by
    obtain ⟨input, hmachine, -⟩ := (untimed m₀).board.exists_machine_step
    have hstep := hholds.step_eq .untimed input (o := 0) hstart.1 hstart.2 (by decide)
    rw [Board.after_succ, Board.after_zero, hmachine]
    exact congrArg StepResult.machine (hstep.trans (congrArg _ hjump))
  have hsecond : ((untimed m₀).board.after 2).machine =
      { m₀ with pc := 0x1000, steps := m₀.steps + 2 } := by
    obtain ⟨input, hmachine, -⟩ := ((untimed m₀).board.after 1).exists_machine_step
    have hheld : Machine.Holds { m₀ with pc := 0xFFE, steps := m₀.steps + 1 } jumpToEnd := hholds
    have hstep := hheld.step_eq .untimed input (o := 0xDFE) hstart.1 rfl (by decide)
    rw [Board.after_succ', hmachine, hfirst]
    exact congrArg StepResult.machine (hstep.trans (congrArg _ hinvalid))
  rw [hsecond]
  exact ⟨hstart.1, show (memorySize : Int) ≤ 0x1000 by decide⟩

/-- The program can be loaded, into a well-formed machine. -/
theorem exists_load_jumpToEnd : ∃ m₀,
    (Machine.powerOn 0).load jumpToEnd programStart = .ok m₀ ∧ m₀.WellFormed :=
  (Machine.wellFormed_powerOn 0).load (by decide)

/-- The line is the command for three steps. -/
theorem parse_stepThree : Input.parse "step 3" = .command .step "3" := by decide +kernel

/-- The argument is the number three. -/
theorem countOr_three : countOr 1 "3" = .ok 3 := by rfl

/-- Of three steps the command takes two and fails. The board takes all three, the last of which
halts its machine. -/
theorem answer_step_diverges : ∃ m₀,
    (Machine.powerOn 0).load jumpToEnd programStart = .ok m₀ ∧
      ((untimed m₀).answer "step 3").verdict = .fault .noSuchByte ∧
      ((untimed m₀).answer "step 3").monitor.board.machine.halted = false ∧
      ((untimed m₀).board.after 3).machine.halted = true := by
  obtain ⟨m₀, hload, hm₀⟩ := exists_load_jumpToEnd
  have hover := overruns_jumpToEnd hload
  have hanswer := answer_eq_stepAll (m := untimed m₀) parse_stepThree countOr_three
  rw [stepAll_eq_fault hm₀ (by decide) hover] at hanswer
  have hlast : ((untimed m₀).board.after 3).machine.halted = true := by
    rw [Board.after_succ', Board.machine_step_of_overruns hover]
  refine ⟨m₀, hload, ?_, ?_, hlast⟩
  · rw [hanswer]
  · rw [hanswer]
    exact hover.1

/-- The third step from a jump to the last word fails outside memory, after two. -/
theorem answer_step_jumpToEnd : ∃ m₀,
    (Machine.powerOn 0).load jumpToEnd programStart = .ok m₀ ∧ m₀.WellFormed ∧
      ((untimed m₀).board.after 2).machine.Overruns ∧
      (untimed m₀).answer "step 3" =
        { monitor := (untimed m₀).withBoard ((untimed m₀).board.after 2)
          lines := stepLines (untimed m₀).board 2
          verdict := .fault .noSuchByte } := by
  obtain ⟨m₀, hload, hm₀⟩ := exists_load_jumpToEnd
  have hover := overruns_jumpToEnd hload
  have hanswer := answer_step (m := untimed m₀) hm₀ parse_stepThree countOr_three
  exact ⟨m₀, hload, hm₀, hover, (hanswer.2 2 (by decide) hover).2⟩

end SuperChip.Monitor

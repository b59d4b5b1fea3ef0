import SuperChip.Console.Console
import SuperChip.Proofs.Machine.Loading
import SuperChip.Proofs.Machine.Refresh

/-!
# A console runs like its board

A console takes its steps in batches, pauses between them, and shows and sounds the machine after
each step; a board takes one step after the other. Where the timers are off neither the pauses nor
the pictures reach the machine: a run of the console to a limit takes the steps that a run of its
board takes, in batches of whatever size, and leaves the same board but for the time and the refresh
mark (`run_eq_board_run`).

The invariant is `Drives`. A batch is a part of the run of the board (`Drives.runBatch`), so that
the batches together are the whole of it (`Drives.runBatches`).
-/

set_option autoImplicit false

namespace SuperChip.Console

/-- The console drives the board: its own board is the same but for the time and the refresh mark.
The timers are off and nobody asks for the end. -/
structure Drives (c : Console) (b : Board) : Prop where
  board : ∃ due clock, c.board = b.retouched due clock
  untimed : b.config.enableTimer = false
  unquit : c.quit = false
  sized : b.machine.Sized

variable {c : Console} {b : Board} {n taken : Nat}

/-- A batch has a step at least. -/
theorem batchSize_pos (speed : Int) : 0 < batchSize speed := by
  unfold batchSize
  split
  · decide
  · omega

/-- The console has halted when its board has. -/
theorem Drives.halted (h : Drives c b) : c.board.machine.halted = b.machine.halted := by
  obtain ⟨due, clock, hboard⟩ := h.board
  rw [hboard]
  rfl

/-- Showing and sounding the machine takes a refresh mark away at most. -/
theorem Drives.step (h : Drives c b) : Drives c.step.1 b.step.1 ∧ c.step.2 = b.step.2 := by
  obtain ⟨board, recorder, buzzer, speed, quit, pauses⟩ := c
  obtain ⟨⟨due, clock, hboard⟩, htimer, hquit, hsized⟩ := h
  obtain ⟨left, hstep⟩ := Board.step_retouched hsized htimer due clock
  have hnext := Board.sized_step hsized
  dsimp only at hboard
  subst hboard
  unfold Console.step
  dsimp only
  rw [hstep]
  cases hfault : b.step.2 with
  | some fault => exact ⟨⟨⟨left, clock, rfl⟩, htimer, hquit, hnext⟩, rfl⟩
  | none =>
    refine ⟨⟨?_, htimer, hquit, hnext⟩, rfl⟩
    dsimp only [Recorder.update]
    split
    · exact ⟨false, clock, rfl⟩
    · exact ⟨left, clock, rfl⟩

/-- A reading of the clock does not reach the machine. -/
theorem Drives.readClock (h : Drives c b) : Drives c.readClock.2 b := by
  obtain ⟨due, clock, hboard⟩ := h.board
  refine ⟨⟨due, c.readClock.2.board.clock, ?_⟩, h.untimed, h.unquit, h.sized⟩
  unfold Console.readClock
  rw [hboard]
  rfl

/-- A pause does not reach the machine. -/
theorem Drives.pace (h : Drives c b) (deadline : Float) : Drives (c.pace deadline).2 b := by
  have hread := h.readClock
  unfold Console.pace
  dsimp only
  split
  · obtain ⟨due, clock, hboard⟩ := hread.board
    refine ⟨⟨due, c.readClock.2.board.clock.sleep (deadline - c.readClock.1), ?_⟩, hread.untimed,
      hread.unquit, hread.sized⟩
    rw [hboard]
    rfl
  · exact hread.readClock

/-- A run that has steps left ends at a halted machine, or takes the next of them. -/
theorem runSteps_sub (hlt : taken < n) : b.runSteps taken (n - taken) =
    if b.machine.halted then (b, .ok taken)
    else match b.step with
      | (b, some fault) => (b, .error fault)
      | (b, none) => b.runSteps (taken + 1) (n - (taken + 1)) := by
  obtain ⟨rest, hrest⟩ : ∃ rest, n - taken = rest + 1 := ⟨n - taken - 1, by omega⟩
  have hless : n - (taken + 1) = rest := by omega
  rw [hrest, hless]
  rfl

/-- What is left of a batch takes the next steps of the board's run: it comes to the fault that ends
the run, or to a point from which the run goes on to the same end. -/
theorem Drives.runBatch (h : Drives c b) (hrunning : b.machine.halted = false) (hlt : taken < n)
    (k : Nat) :
    (∃ after board total fault, c.runBatch (some n) taken k = (after, total, some fault) ∧
      b.runSteps taken (n - taken) = (board, .error fault) ∧ Drives after board) ∨
    ∃ after board total, c.runBatch (some n) taken k = (after, total, none) ∧
      b.runSteps taken (n - taken) = board.runSteps total (n - total) ∧ Drives after board ∧
      total ≤ n ∧ taken + min k 1 ≤ total := by
  induction k generalizing c b taken with
  | zero => exact .inr ⟨c, b, taken, rfl, rfl, h, Nat.le_of_lt hlt, Nat.le_refl _⟩
  | succ k ih =>
    obtain ⟨hnext, hfault⟩ := h.step
    rw [runSteps_sub hlt, if_neg (by simp [hrunning]), Console.runBatch]
    generalize c.step = reply at hnext hfault ⊢
    generalize b.step = reply' at hnext hfault ⊢
    obtain ⟨after, outcome⟩ := reply
    obtain ⟨board, outcome'⟩ := reply'
    dsimp only at hnext hfault
    subst hfault
    cases outcome with
    | some fault => exact .inl ⟨after, board, taken, fault, rfl, rfl, hnext⟩
    | none =>
      dsimp only
      split
      · exact .inr ⟨after, board, taken + 1, rfl, rfl, hnext, hlt, by omega⟩
      · next hgoes =>
        rw [hnext.halted] at hgoes
        simp only [reached, Option.any_some, Bool.or_eq_true, decide_eq_true_eq, not_or] at hgoes
        have hmore := ih hnext (Bool.eq_false_iff.mpr hgoes.1) (show taken + 1 < n by omega)
        obtain hfault | ⟨after', board', total, hrun, hsame, hdrives, hle, hge⟩ := hmore
        · exact .inl hfault
        · exact .inr ⟨after', board', total, hrun, hsame, hdrives, hle, by omega⟩

/-- The batches of a run take the steps of the board's run. -/
theorem Drives.runBatches (h : Drives c b) (hlt : taken < n) (deadline : Float) {patience : Nat}
    (hpatience : n - taken < patience) :
    Drives (runBatches (some n) deadline c taken patience).1 (b.runSteps taken (n - taken)).1 ∧
      (runBatches (some n) deadline c taken patience).2 =
        (b.runSteps taken (n - taken)).2.mapError .fault := by
  induction patience generalizing c b taken deadline with
  | zero => omega
  | succ patience ih =>
    rw [Console.runBatches, h.halted, h.unquit, Bool.or_false]
    cases hhalted : b.machine.halted with
    | true =>
      -- no batch, and no step of the board either
      rw [if_pos rfl, runSteps_sub hlt, if_pos hhalted]
      exact ⟨h, rfl⟩
    | false =>
      rw [if_neg Bool.false_ne_true]
      obtain ⟨after, board, total, fault, hbatch, hsteps, hdrives⟩ |
          ⟨after, board, total, hbatch, hsteps, hdrives, hle, hge⟩ :=
        h.runBatch hhalted hlt (batchSize c.speed)
      · rw [hbatch, hsteps]
        exact ⟨hdrives, rfl⟩
      · have hprogress : taken < total := by
          have := batchSize_pos c.speed
          omega
        rw [hbatch, hsteps]
        dsimp only
        split
        · next hreached =>
          simp only [reached, Option.any_some, decide_eq_true_eq] at hreached
          have htotal : n - total = 0 := by omega
          rw [htotal, Board.runSteps]
          exact ⟨hdrives, rfl⟩
        · next hmore =>
          simp only [reached, Option.any_some, decide_eq_true_eq] at hmore
          split
          · exact ih hdrives (by omega) deadline (by omega)
          · exact ih (hdrives.pace _) (by omega) _ (by omega)

/-- The board that a run leaves, with the record that a console makes of a halt. -/
def reported : Board × Except Fault Nat → Board
  | (b, .error _) => b
  | (b, .ok taken) =>
    if b.machine.halted then { b with journal := b.journal.addEntry (haltedEntry taken) } else b

/-- The record of a halt asks for no refresh mark. -/
theorem reported_retouched (due : Bool) (clock : Clock) (count : Except Fault Nat) :
    reported (b.retouched due clock, count) = (reported (b, count)).retouched due clock := by
  cases count with
  | error fault => rfl
  | ok taken =>
    cases hhalted : b.machine.halted <;>
      simp [reported, Board.retouched, Machine.withRefresh, hhalted]

/-- What a console with a limit returns, from what its batches return. -/
theorem run_eq (c : Console) (patience : Nat) : c.run (some n) patience =
    match runBatches (some n) c.readClock.1 c.readClock.2 0 (n + 1) with
    | (c, .error e) => ({ c with buzzer := c.buzzer.stop }, .error e)
    | (c, .ok taken) =>
      ({ c with board := reported (c.board, .ok taken), buzzer := c.buzzer.stop }, .ok taken) := rfl

/-- Where the timers are off and nobody asks for the end, a console at any speed and at any times
takes as many steps to a limit as its board, and leaves the board that these steps leave, but for
the time and the refresh mark. If the machine is halted there is no step. -/
theorem run_eq_board_run (c : Console) (hsized : c.board.machine.Sized)
    (htimer : c.board.config.enableTimer = false) (hquit : c.quit = false) {limit : Int}
    (hlimit : 1 ≤ limit) (patience : Nat) :
    (c.run (some limit) patience).2 = (c.board.run limit).2.mapError .fault ∧
      (∃ due clock, (c.run (some limit) patience).1.board =
        (reported (c.board.run limit)).retouched due clock) ∧
      (c.board.machine.halted = true → (c.run (some limit) patience).2 = .ok 0) := by
  obtain ⟨n, rfl⟩ := Int.eq_ofNat_of_zero_le (show 0 ≤ limit by omega)
  have hpos : 0 < n := by omega
  have hstart : Drives c c.board :=
    ⟨⟨c.board.machine.needsRefresh, c.board.clock, rfl⟩, htimer, hquit, hsized⟩
  obtain ⟨hdrives, hcount⟩ :=
    hstart.readClock.runBatches hpos c.readClock.1 (Nat.lt_succ_of_le (Nat.sub_le n 0))
  have hplain : c.board.run n = c.board.runSteps 0 (n - 0) := rfl
  have hfirst : c.board.machine.halted = true → c.board.runSteps 0 (n - 0) = (c.board, .ok 0) := by
    intro hhalted
    rw [runSteps_sub hpos, if_pos hhalted]
  rw [run_eq, hplain]
  generalize runBatches (some n) c.readClock.1 c.readClock.2 0 (n + 1) = paced at hdrives hcount ⊢
  generalize c.board.runSteps 0 (n - 0) = plain at hdrives hcount hfirst ⊢
  obtain ⟨after, outcome⟩ := paced
  obtain ⟨board, count⟩ := plain
  obtain ⟨due, clock, hboard⟩ := hdrives.board
  dsimp only at hboard hcount
  subst hcount
  cases count with
  | error fault => exact ⟨rfl, ⟨due, clock, hboard⟩, fun hhalted => by cases hfirst hhalted⟩
  | ok taken =>
    refine ⟨rfl, ⟨due, clock, ?_⟩, fun hhalted => by cases hfirst hhalted; rfl⟩
    rw [← reported_retouched, ← hboard]
    rfl

/-- A jump to itself. -/
def jumpToItself : Bytes := #[0x12, 0x00]

/-- Three steps of a jump to itself, in batches of two and with a clock that goes on by a second at
each reading. -/
theorem run_eq_board_run_jumpToItself : ∃ m₀,
    (Machine.powerOn 0).load jumpToItself programStart = .ok m₀ ∧
    let c : Console := { board := .untimed m₀, speed := 2 * batchesPerSecond }
    c.board.config.enableTimer = false ∧ c.quit = false ∧ batchSize c.speed = 2 ∧
      (c.run (some 3) 0).2 = .ok 3 ∧
      ∃ due clock, (c.run (some 3) 0).1.board =
        (reported (c.board.run 3)).retouched due clock := by
  obtain ⟨m₀, hload, hm₀⟩ : ∃ m₀, (Machine.powerOn 0).load jumpToItself programStart = .ok m₀ ∧
      m₀.WellFormed := (Machine.wellFormed_powerOn 0).load (by decide)
  have hholds := Machine.holds_load hload
  obtain ⟨memory, rfl⟩ := Machine.exists_load_powerOn hload
  have hsized : Machine.Sized { Machine.powerOn 0 with memory } := hm₀.sized
  let board (k : Nat) : Board := .untimed { Machine.powerOn 0 with memory, steps := k }
  have hjump : ProgramText.instructionAt ⟨jumpToItself, Config.untimed.shiftsVy⟩ 0 =
      { op := .jump, address := 0x200 } := by decide
  have hstep (k : Nat) : (board k).step = (board (k + 1), none) := by
    have hheld : Machine.Holds { Machine.powerOn 0 with memory, steps := k } jumpToItself := hholds
    have htake := hheld.step_eq .untimed ⟨0, 0⟩ (o := 0) rfl rfl (by decide)
    have hmachine : Machine.step .untimed ⟨0, 0⟩ { Machine.powerOn 0 with memory, steps := k } =
        { machine := { Machine.powerOn 0 with memory, steps := k + 1 }
          executed := some { op := .jump, address := 0x200 }
          notices := [.executing 0x200 { op := .jump, address := 0x200 } false] } := by
      rw [htake, hjump]
      rfl
    show Board.step ⟨.untimed, { Machine.powerOn 0 with memory, steps := k }, _, _, _⟩ = _
    simp only [Board.step]
    rw [show (if Config.untimed.enableTimer = true then _ else (0 : Int)) = 0 from rfl,
      show RandomSource.peek {} = 0 from rfl, hmachine]
    rfl
  have hrun : (board 0).run 3 = (board 3, .ok 3) := by
    show (board 0).runSteps 0 3 = _
    simp only [Board.runSteps, hstep]
    rfl
  have hpaced := run_eq_board_run { board := board 0, speed := 2 * batchesPerSecond } hsized rfl rfl
    (show (1 : Int) ≤ 3 by decide) 0
  refine ⟨_, hload, rfl, rfl, show batchSize (2 * batchesPerSecond) = 2 by decide, ?_, hpaced.2.1⟩
  exact hpaced.1.trans (congrArg (fun r => r.2.mapError RunFailure.fault) hrun)

end SuperChip.Console

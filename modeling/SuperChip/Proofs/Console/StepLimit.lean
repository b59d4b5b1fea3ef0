import SuperChip.Proofs.Console.PacedRun

/-!
# The limit of a run

A run to a limit is a walk of counted steps (`Takes`): it takes as many as the limit says unless the
machine halts before, and returns their number. A board looks at its limit before each step, a
console only behind one. So a console that is told to take no steps takes one all the same, if its
machine runs and nobody asks for the end; every other run stays within its limit, as that of a board
does (`run_within_limit`).
-/

set_option autoImplicit false

namespace SuperChip

namespace Board

/-- A run of a board takes steps of a running machine, at most as many as it is told, and counts
them; it takes fewer only if the machine halts or a step has a fault. -/
theorem runSteps_within (b : Board) (taken n : Nat) :
    ∃ k ≤ n, (∀ j < k, (b.after j).machine.halted = false ∧ (b.after j).step.2 = none) ∧
      ((b.runSteps taken n = (b.after k, .ok (taken + k)) ∧
          (k = n ∨ (b.after k).machine.halted = true)) ∨
        ∃ fault, b.runSteps taken n = (b.after (k + 1), .error fault) ∧
          (b.after k).step.2 = some fault ∧ k < n) := by
  induction n generalizing b taken with
  | zero => exact ⟨0, Nat.le_refl 0, nofun, .inl ⟨rfl, .inl rfl⟩⟩
  | succ n ih =>
    rw [runSteps]
    cases hhalted : b.machine.halted with
    | true => exact ⟨0, Nat.zero_le _, nofun, .inl ⟨rfl, .inr hhalted⟩⟩
    | false =>
      rw [if_neg Bool.false_ne_true]
      rcases hstep : b.step with ⟨next, outcome⟩
      have hnext : b.step.1 = next := congrArg Prod.fst hstep
      have hfault : b.step.2 = outcome := congrArg Prod.snd hstep
      cases outcome with
      | some fault =>
        refine ⟨0, Nat.zero_le _, nofun, .inr ⟨fault, ?_, hfault, Nat.succ_pos n⟩⟩
        rw [after_succ, after_zero, hnext]
      | none =>
        obtain ⟨k, hle, hall, hend⟩ := ih next (taken + 1)
        have hafter (j : Nat) : b.after (j + 1) = next.after j := by rw [after_succ, hnext]
        refine ⟨k + 1, Nat.succ_le_succ hle, ?_, ?_⟩
        · intro j hj
          cases j with
          | zero => exact ⟨hhalted, hfault⟩
          | succ j =>
            rw [hafter]
            exact hall j (by omega)
        · rw [hafter, hafter, show taken + (k + 1) = taken + 1 + k by omega]
          rcases hend with ⟨hrun, hend⟩ | ⟨fault, hrun, hfault, hlt⟩
          · exact .inl ⟨hrun, hend.imp_left (congrArg Nat.succ)⟩
          · exact .inr ⟨fault, hrun, hfault, Nat.succ_lt_succ hlt⟩

end Board

namespace Console

/-- The console comes to another one by `k` steps of a running machine, none of which has a fault.
In between time may pass and pauses may be made. -/
inductive Takes (c : Console) : Nat → Console → Prop where
  | start : Takes c 0 c
  | step {d : Console} {k : Nat} (h : Takes c k d) (hrunning : d.board.machine.halted = false)
      (hok : d.step.2 = none) : Takes c (k + 1) d.step.1
  | wait {d : Console} {k : Nat} (h : Takes c k d) (clock : Clock) (pauses : Array Float) :
      Takes c k { d with board := { d.board with clock }, pauses }

variable {c d : Console} {k taken : Nat} {limit : Int}

/-- A step does not ask to quit. -/
theorem quit_step (c : Console) : c.step.1.quit = c.quit := by
  unfold Console.step
  dsimp only
  split <;> rfl

/-- A step of a console is a step of its board, but for the refresh mark. -/
theorem exists_board_step (c : Console) :
    (∃ due, c.step.1.board.machine = c.board.step.1.machine.withRefresh due) ∧
      c.step.2 = c.board.step.2 := by
  unfold Console.step
  dsimp only
  split
  · next hstep =>
    rw [hstep]
    exact ⟨⟨_, rfl⟩, rfl⟩
  · next hstep =>
    rw [hstep]
    refine ⟨?_, rfl⟩
    dsimp only [Recorder.update]
    split
    · exact ⟨false, rfl⟩
    · exact ⟨_, rfl⟩

/-! ## Counted steps -/

/-- Steps do not ask to quit. -/
theorem Takes.quit_eq (h : c.Takes k d) : d.quit = c.quit := by
  induction h with
  | start => rfl
  | step _ _ _ ih => exact (quit_step _).trans ih
  | wait _ _ _ ih => exact ih

/-- Without a step the machine stays as it is. -/
theorem Takes.machine_eq (h : c.Takes k d) (hk : k = 0) : d.board.machine = c.board.machine := by
  induction h with
  | start => rfl
  | step => cases hk
  | wait _ _ _ ih => exact ih hk

/-- Steps keep the machine well-formed. -/
theorem Takes.wellFormed (h : c.Takes k d) (hc : c.board.machine.WellFormed) :
    d.board.machine.WellFormed := by
  induction h with
  | start => exact hc
  | @step d _ _ _ _ ih =>
    obtain ⟨⟨due, hmachine⟩, -⟩ := d.exists_board_step
    rw [hmachine]
    exact { (Board.wellFormed_step ih).1 with }
  | wait _ _ _ ih => exact ih

/-- To read the clock takes no step. -/
theorem Takes.readClock (h : c.Takes k d) : c.Takes k d.readClock.2 := h.wait _ d.pauses

/-- To wait for a deadline takes no step. -/
theorem Takes.pace (h : c.Takes k d) (deadline : Float) : c.Takes k (d.pace deadline).2 := by
  unfold Console.pace
  dsimp only
  split
  · exact h.readClock.wait _ _
  · exact h.readClock.readClock

/-! ## Batches -/

/-- How a run ends that may take `most` steps: behind some of them, because it may take no more or
the machine has halted; or with the fault of the next one. -/
inductive Ends (c : Console) (most : Int) : Console × Except RunFailure Nat → Prop where
  | counted {d : Console} {k : Nat} (h : c.Takes k d) (hle : k ≤ most)
      (hend : k = most ∨ d.board.machine.halted = true) : Ends c most (d, .ok k)
  | faulted {d : Console} {k : Nat} {fault : Fault} (h : c.Takes k d) (hlt : k < most)
      (hrunning : d.board.machine.halted = false) (hfault : d.step.2 = some fault) :
      Ends c most (d.step.1, .error (.fault fault))

/-- What is left of a batch counts its steps. The limit is looked at behind each of them, so that
only the first one may go beyond it. -/
theorem Takes.runBatch (h : c.Takes taken d) (hrunning : d.board.machine.halted = false)
    (hlt : taken < max 1 limit) (n : Nat) :
    (∃ e total fault, d.runBatch (some limit) taken n = (e.step.1, total, some fault) ∧
      c.Takes total e ∧ total < max 1 limit ∧ e.board.machine.halted = false ∧
      e.step.2 = some fault) ∨
    ∃ e total, d.runBatch (some limit) taken n = (e, total, none) ∧ c.Takes total e ∧
      total ≤ max 1 limit ∧ taken + min n 1 ≤ total := by
  induction n generalizing d taken with
  | zero => exact .inr ⟨d, taken, rfl, h, Int.le_of_lt hlt, Nat.le_refl _⟩
  | succ n ih =>
    rw [Console.runBatch]
    rcases hstep : d.step with ⟨e, outcome⟩
    have hfault : d.step.2 = outcome := congrArg Prod.snd hstep
    have hnext : d.step.1 = e := congrArg Prod.fst hstep
    cases outcome with
    | some fault => exact .inl ⟨d, taken, fault, by rw [hnext], h, hlt, hrunning, hfault⟩
    | none =>
      have htaken : c.Takes (taken + 1) e := hnext ▸ h.step hrunning hfault
      dsimp only
      split
      · exact .inr ⟨e, taken + 1, rfl, htaken, by omega, by omega⟩
      · next hgoes =>
        simp only [reached, Option.any_some, Bool.or_eq_true, decide_eq_true_eq, not_or] at hgoes
        rcases ih htaken (Bool.eq_false_iff.mpr hgoes.1) (by omega) with hfault | hmore
        · exact .inl hfault
        · obtain ⟨f, total, hrun, htotal, hle, hge⟩ := hmore
          exact .inr ⟨f, total, hrun, htotal, hle, by omega⟩

/-- The batches of a run take at most as many steps as the limit, or one. -/
theorem Takes.runBatches (h : c.Takes taken d) (hquit : c.quit = false) (hlt : taken < max 1 limit)
    (deadline : Float) {patience : Nat} (hpatience : max 1 limit ≤ taken + patience) :
    c.Ends (max 1 limit) (runBatches (some limit) deadline d taken patience) := by
  induction patience generalizing d taken deadline with
  | zero => omega
  | succ patience ih =>
    rw [Console.runBatches, h.quit_eq, hquit, Bool.or_false]
    cases hhalted : d.board.machine.halted with
    | true => exact .counted h (Int.le_of_lt hlt) (.inr hhalted)
    | false =>
      rw [if_neg Bool.false_ne_true]
      obtain ⟨e, total, fault, hbatch, htotal, hless, hrunning, hfault⟩ |
          ⟨e, total, hbatch, htotal, hle, hge⟩ := h.runBatch hhalted hlt (batchSize d.speed)
      · rw [hbatch]
        exact .faulted htotal hless hrunning hfault
      · have hprogress : taken < total := by
          have := batchSize_pos d.speed
          omega
        rw [hbatch]
        dsimp only
        split
        · next hreached =>
          simp only [reached, Option.any_some, decide_eq_true_eq] at hreached
          exact .counted htotal hle (.inl (by omega))
        · next hmore =>
          simp only [reached, Option.any_some, decide_eq_true_eq] at hmore
          split
          · exact ih htotal (by omega) deadline (by omega)
          · exact ih (htotal.pace _) (by omega) _ (by omega)

/-! ## Runs -/

/-- How many steps a run to a limit may take: none if the machine is halted or the run is to end,
and else as many as the limit says, but at least one. -/
def allowance (c : Console) (limit : Int) : Int :=
  if c.board.machine.halted || c.quit then 0 else max 1 limit

/-- A run with a limit ends within its allowance, whatever its patience. -/
theorem run_ends (c : Console) (hlimit : 0 ≤ limit) (patience : Nat) :
    ∃ result, c.Ends (c.allowance limit) result ∧
      (c.run (some limit) patience).2 = result.2 ∧
      (c.run (some limit) patience).1.board.machine = result.1.board.machine := by
  obtain ⟨n, rfl⟩ := Int.eq_ofNat_of_zero_le hlimit
  have hread : c.Takes 0 c.readClock.2 := Takes.start.readClock
  have hends : c.Ends (c.allowance n)
      (runBatches (some n) c.readClock.1 c.readClock.2 0 (n + 1)) := by
    unfold allowance
    cases hstop : c.board.machine.halted || c.quit with
    | true =>
      have hnone : runBatches (some n) c.readClock.1 c.readClock.2 0 (n + 1) =
          (c.readClock.2, .ok 0) := if_pos hstop
      rw [hnone]
      exact .counted hread (Int.le_refl 0) (.inl rfl)
    | false =>
      rw [Bool.or_eq_false_iff] at hstop
      exact hread.runBatches hstop.2 (by omega) _ (by omega)
  refine ⟨_, hends, ?_⟩
  rw [run_eq]
  generalize runBatches (some n) c.readClock.1 c.readClock.2 0 (n + 1) = result
  obtain ⟨e, outcome⟩ := result
  cases outcome with
  | error failure => exact ⟨rfl, rfl⟩
  | ok taken =>
    refine ⟨rfl, ?_⟩
    dsimp only [reported]
    split <;> rfl

/-- A run of a well-formed machine returns its number of steps. -/
theorem Ends.exists_count {most : Int} {result : Console × Except RunFailure Nat}
    (h : c.Ends most result) (hc : c.board.machine.WellFormed) :
    ∃ k d, result = (d, .ok k) ∧ c.Takes k d ∧ k ≤ most ∧
      (k = most ∨ d.board.machine.halted = true) := by
  cases h with
  | @counted d k htakes hle hend => exact ⟨k, d, rfl, htakes, hle, hend⟩
  | @faulted d k fault htakes hlt hrunning hfault =>
    have hnone := (Board.wellFormed_step (htakes.wellFormed hc)).2
    rw [d.exists_board_step.2, hnone] at hfault
    cases hfault

/-- A run of a console to a limit takes steps of a running machine, at most as many as it may, and
returns their number unless one has a fault, which no step of a well-formed machine has. It takes
fewer only if the machine halts. The steps that it may take are within the limit unless the limit is
zero, the machine runs and nobody asks for the end. A run of the board is within the limit
always. -/
theorem run_within_limit (c : Console) (hlimit : 0 ≤ limit) (patience : Nat) :
    (∃ result, c.Ends (c.allowance limit) result ∧
      (c.run (some limit) patience).2 = result.2 ∧
      (c.run (some limit) patience).1.board.machine = result.1.board.machine) ∧
    (c.board.machine.WellFormed → ∃ k : Nat, (c.run (some limit) patience).2 = .ok k) ∧
    (c.allowance limit ≤ limit ↔
      1 ≤ limit ∨ c.board.machine.halted = true ∨ c.quit = true) ∧
    ∃ k : Nat, k ≤ limit ∧
      (∀ j < k, (c.board.after j).machine.halted = false ∧ (c.board.after j).step.2 = none) ∧
      ((c.board.run limit = (c.board.after k, .ok k) ∧
          (k = limit ∨ (c.board.after k).machine.halted = true)) ∨
        ∃ fault, c.board.run limit = (c.board.after (k + 1), .error fault) ∧
          (c.board.after k).step.2 = some fault ∧ k < limit) := by
  obtain ⟨result, hends, hcount, hmachine⟩ := c.run_ends hlimit patience
  refine ⟨⟨result, hends, hcount, hmachine⟩, fun hc => ?_, ?_, ?_⟩
  · obtain ⟨k, d, rfl, -⟩ := hends.exists_count hc
    exact ⟨k, hcount⟩
  · rw [← Bool.or_eq_true, allowance]
    split
    · next hstop => simp [hstop, hlimit]
    · next hgoes =>
      rw [or_iff_left hgoes]
      omega
  · obtain ⟨n, rfl⟩ := Int.eq_ofNat_of_zero_le hlimit
    obtain ⟨k, hle, hall, hend⟩ := c.board.runSteps_within 0 n
    rw [Nat.zero_add] at hend
    refine ⟨k, by omega, hall, ?_⟩
    rcases hend with ⟨hrun, hend⟩ | ⟨fault, hrun, hfault, hlt⟩
    · exact .inl ⟨hrun, hend.imp_left (congrArg Nat.cast)⟩
    · exact .inr ⟨fault, hrun, hfault, by omega⟩

/-- A console that is told to take no steps takes one. -/
theorem run_zero (hc : c.board.machine.WellFormed) (hrunning : c.board.machine.halted = false)
    (hquit : c.quit = false) (patience : Nat) : (c.run (some 0) patience).2 = .ok 1 := by
  obtain ⟨result, hends, hcount, -⟩ := c.run_ends (Int.le_refl 0) patience
  obtain ⟨k, d, rfl, htakes, hle, hend⟩ := hends.exists_count hc
  have hone : c.allowance 0 = 1 := by
    rw [allowance, hrunning, hquit]
    rfl
  rw [hone] at hle hend
  have hk : k ≠ 0 := by
    intro hk
    rw [htakes.machine_eq hk, hrunning] at hend
    exact hend.elim (by omega) nofun
  rw [hcount, show k = 1 by omega]

/-- The machine of a program that jumps to itself takes a step though the limit is zero. -/
theorem run_within_limit_jumpToItself : ∃ m₀,
    (Machine.powerOn 0).load jumpToItself programStart = .ok m₀ ∧
    let c : Console := { board := .untimed m₀, speed := 2 * batchesPerSecond }
    c.allowance 0 = 1 ∧ (0 : Int) ≤ 0 ∧
      (∃ result, c.Ends 1 result ∧ (c.run (some 0) 0).2 = result.2 ∧
        (c.run (some 0) 0).1.board.machine = result.1.board.machine) ∧
      ∃ k : Nat, (c.run (some 0) 0).2 = .ok k := by
  obtain ⟨m₀, hload, hm₀⟩ :=
    (Machine.wellFormed_powerOn 0).load (show jumpToItself.size ≤ programSize by decide)
  obtain ⟨memory, rfl⟩ := Machine.exists_load_powerOn hload
  obtain ⟨hends, hcount, -⟩ := run_within_limit
    { board := .untimed { Machine.powerOn 0 with memory }, speed := 2 * batchesPerSecond }
    (Int.le_refl 0) 0
  exact ⟨_, hload, rfl, Int.le_refl 0, hends, hcount hm₀⟩

/-- The number of steps that a run returns may be greater than its limit. -/
theorem run_beyond_limit :
    ¬ ∀ (c : Console) (limit : Int) (patience k : Nat), 0 ≤ limit →
      (c.run (some limit) patience).2 = .ok k → k ≤ limit := by
  intro hall
  have hone := run_zero (c := { board := .untimed (.powerOn 0), speed := defaultSpeed })
    (Machine.wellFormed_powerOn 0) rfl rfl 0
  exact absurd (hall _ 0 0 1 (Int.le_refl 0) hone) (by decide)

end Console

end SuperChip

import SuperChip.Machine.Step
import SuperChip.Proofs.Machine.Outcome

/-!
# What a step does

A step takes the instruction whose word lies at the program counter, or it takes none
(`step_cases`). What a sized machine is afterwards depends on the outcome of the instruction alone
(`take_eq`), and it is sized again (`Sized.step`).
-/

set_option autoImplicit false

namespace SuperChip.Machine

variable {m : Machine} {c : Config} {input : StepInput} {i : Instruction}

/-- The machine that the outcome of an instruction leaves: an instruction that aborts halts it. -/
def settle (m : Machine) : Except Stop Machine → Machine
  | .ok next => next.countStep
  | .error (.abort _) => { m with halted := true }.countStep
  | .error (.fault _) => m

/-- A tick leaves a machine sized. -/
theorem Sized.tick (h : m.Sized) (now : Int) : (m.tick now).Sized := by
  unfold Machine.tick
  dsimp only
  split
  · exact { h with }
  · exact { h with }

/-- Bringing the timers up to a tick leaves a machine sized. -/
theorem Sized.updateTimers (h : m.Sized) (c : Config) (now : Int) :
    (m.updateTimers c now).Sized := by
  unfold Machine.updateTimers
  split
  · exact h.tick now
  · exact h

/-- A sized machine takes a decoded instruction as its outcome says. -/
theorem take_eq (h : m.Sized) (hi : i.Fits) :
    m.take c input i =
      match (m.updateTimers c input.ticks).outcome c input.random i with
      | .ok next =>
        { machine := next.countStep
          executed := some i
          notices := if i.op == .invalid then
              [.executing m.pc i c.shiftsVy, .ignored i.word]
            else [.executing m.pc i c.shiftsVy] }
      | .error (.abort cause) =>
        { machine := { m.updateTimers c input.ticks with halted := true }.countStep
          executed := some i
          notices := [.executing m.pc i c.shiftsVy, .aborted cause,
            .registers (m.updateTimers c input.ticks).registerText] }
      | .error (.fault cause) =>
        { machine := m.updateTimers c input.ticks
          executed := some i
          notices := [.executing m.pc i c.shiftsVy]
          fault := some cause } := by
  unfold take
  dsimp only
  rw [execute_eq (h.updateTimers c input.ticks) hi]
  cases (m.updateTimers c input.ticks).outcome c input.random i with
  | ok next => rfl
  | error stop => cases stop <;> rfl

/-- What a sized machine is after an instruction is settled by the outcome. -/
theorem machine_take (h : m.Sized) (hi : i.Fits) : (m.take c input i).machine =
    (m.updateTimers c input.ticks).settle
      ((m.updateTimers c input.ticks).outcome c input.random i) := by
  rw [take_eq h hi]
  cases (m.updateTimers c input.ticks).outcome c input.random i with
  | ok next => rfl
  | error stop => cases stop <;> rfl

/-- Whether it stops or not, an instruction that is taken counts as executed. -/
theorem executed_take : (m.take c input i).executed = some i := by
  unfold take
  dsimp only
  split <;> rfl

/-- The instruction at an even address is the word of the two bytes there; an even address is never
the last one, so the low byte does not wrap around. -/
theorem current?_of_bytes {a : Nat} {high low : UInt8} (hpc : m.pc = a) (hlt : a + 1 < memorySize)
    (hhigh : m.memory[a]? = some high) (hlow : m.memory[a + 1]? = some low) :
    m.current? c = some (.decode (Bytes.word high low) c.shiftsVy) := by
  have hwrap : ((a : Int) + 1) % memorySize = (a + 1 : Nat) := by
    rw [Int.emod_eq_of_lt (by omega) (by omega)]
    rfl
  rw [current?, wordAt?, hpc, hwrap, Cells.at?_natCast, Cells.at?_natCast, hhigh, hlow]
  rfl

/-- Taking an instruction reports an abort only where the instruction aborts. -/
theorem aborted_mem_notices_take {cause : Abort} (hm : m.Sized) (hi : i.Fits)
    (h : .aborted cause ∈ (m.take c input i).notices) :
    (m.updateTimers c input.ticks).outcome c input.random i = .error (.abort cause) := by
  rw [take_eq hm hi] at h
  split at h
  · dsimp only at h
    split at h <;> simp at h
  · next cause' heq =>
    simp only [List.mem_cons, List.not_mem_nil, reduceCtorEq, MachineNotice.aborted.injEq, false_or,
      or_false] at h
    rw [heq, h]
  · simp at h

/-- What stands in memory is decoded, so its fields fit. -/
theorem fits_of_current? (h : m.current? c = some i) : i.Fits := by
  obtain ⟨w, -, rfl⟩ := Option.map_eq_some_iff.1 h
  exact Instruction.fits_decode _ _

/-- Past the end of memory a running machine halts. -/
theorem step_of_outside (hrunning : m.halted = false) (hout : memorySize ≤ m.pc) :
    m.step c input = { machine := { m with halted := true }, notices := [.leftMemory] } := by
  rw [step, if_neg (by simp [hrunning]), if_pos hout]

/-- A running machine inside memory takes the instruction there. -/
theorem step_of_current? (hrunning : m.halted = false) (hlt : m.pc < memorySize)
    (hi : m.current? c = some i) : m.step c input = m.take c input i := by
  rw [step, if_neg (by simp [hrunning]), if_neg (Int.not_le.mpr hlt), hi]

/-- A step that takes no instruction changes nothing, unless it leaves memory, which halts. -/
theorem step_cases (c : Config) (m : Machine) (input : StepInput) :
    (∃ i, m.halted = false ∧ m.pc < memorySize ∧ m.current? c = some i) ∨
      ((m.step c input).executed = none ∧
        (m.step c input).machine = { m with halted := m.halted || decide (memorySize ≤ m.pc) } ∧
        ∀ cause, .aborted cause ∉ (m.step c input).notices) := by
  unfold step
  by_cases hhalted : m.halted = true
  · have hsame : m = { m with halted := true } := by rw [← hhalted]
    simpa [hhalted] using hsame
  · by_cases hout : memorySize ≤ m.pc
    · simp [hhalted, hout]
    · cases hi : m.current? c with
      | some i => exact .inl ⟨i, by simpa using hhalted, Int.not_le.mp hout, rfl⟩
      | none =>
        have hsame : m = { m with halted := false } := by rw [← Bool.eq_false_iff.mpr hhalted]
        simpa [hhalted, hout] using hsame

/-- A step that executes an instruction takes it from a program counter in memory. -/
theorem step_of_executed (h : (m.step c input).executed = some i) :
    m.step c input = m.take c input i ∧ i.Fits ∧ m.pc < memorySize := by
  obtain ⟨j, hrunning, hlt, hj⟩ | ⟨hnone, -, -⟩ := step_cases c m input
  · have hstep : m.step c input = m.take c input j := step_of_current? hrunning hlt hj
    rw [hstep, executed_take] at h
    cases h
    exact ⟨hstep, fits_of_current? hj, hlt⟩
  · rw [h] at hnone
    cases hnone

/-- Two machines that stand at the same place and take its instruction alike step alike. -/
theorem step_alike {R : Machine → Machine → Prop} {n : Machine} (hhalted : n.halted = m.halted)
    (hpc : n.pc = m.pc) (hcurrent : m.pc < memorySize → n.current? c = m.current? c)
    (hstay : R n m) (hhalts : R { n with halted := true } { m with halted := true })
    (htake : ∀ i, i.Fits → ∃ machine, R machine (m.take c input i).machine ∧
      n.take c input i = { m.take c input i with machine }) :
    ∃ machine, R machine (m.step c input).machine ∧
      n.step c input = { m.step c input with machine } := by
  have hout : (memorySize : Int) ≤ n.pc ↔ (memorySize : Int) ≤ m.pc := by rw [hpc]
  simp only [step, hhalted, hout]
  split
  · exact ⟨n, hstay, rfl⟩
  · split
    · exact ⟨_, hhalts, rfl⟩
    · next hlt =>
      rw [hcurrent (Int.not_le.mp hlt)]
      cases hi : m.current? c with
      | none => exact ⟨n, hstay, rfl⟩
      | some i => exact htake i (fits_of_current? hi)

/-- A step leaves a sized machine sized. -/
theorem Sized.step (h : m.Sized) (c : Config) (input : StepInput) :
    (m.step c input).machine.Sized := by
  obtain ⟨i, hrunning, hlt, hi⟩ | ⟨-, hmachine, -⟩ := step_cases c m input
  · have htimed := h.updateTimers c input.ticks
    rw [step_of_current? hrunning hlt hi, machine_take h (fits_of_current? hi)]
    cases houtcome : (m.updateTimers c input.ticks).outcome c input.random i with
    | ok next => exact { htimed.outcome (fits_of_current? hi) houtcome with }
    | error stop =>
      cases stop with
      | abort cause => exact { htimed with }
      | fault cause => exact htimed
  · rw [hmachine]
    exact { h with }

end SuperChip.Machine

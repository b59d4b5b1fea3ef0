import SuperChip.Proofs.Machine.Control
import SuperChip.Proofs.Machine.Run

/-!
# What halts a machine

A running machine halts for three reasons: the program counter has left memory, the instruction ends
the program, or the instruction aborts. `Aborts` says which instructions do, from the registers, the
index and the stack alone. A step keeps whatever an instruction wrote before it aborts; but each of
them looks before it writes (`execute_eq`), so an abort leaves everything but the timers and the
count of steps as it was. The main statement is `step_halts_atomically`. It assumes nothing about
how the machine came to be where it is, only that it has all its parts.
-/

set_option autoImplicit false

namespace SuperChip.Machine

variable {m : Machine} {c : Config} {input : StepInput} {i : Instruction}

/-- An instruction cannot be taken: a return without a call, a jump or call to an odd address or out
of memory, a copy across the end of memory, or a copy of registers that have no flag. -/
def Aborts (m : Machine) (i : Instruction) : Prop :=
  match i.op with
  | .ret => m.stack = []
  | .jump | .call => i.address % 2 = 1
  | .jumpV0 => (i.address + m.reg 0) % 2 = 1 ∨ memorySize ≤ i.address + m.reg 0
  | .storeDecimal => memorySize < m.index + 3
  | .storeRegs | .readRegs => memorySize < m.index + i.vx.toNat + 1
  | .saveFlags | .restoreFlags => 8 ≤ i.vx
  | _ => False

/-- The machine after an abort at a tick: halted, with one more instruction counted and with the
timers brought up to the tick. -/
def aborted (c : Config) (m : Machine) (now : Int) : Machine :=
  let timed := m.updateTimers c now
  { m with
    halted := true
    steps := m.steps + 1
    delay := timed.delay
    sound := timed.sound
    latch := timed.latch
    ticks := timed.ticks }

/-- An instruction aborts exactly where it cannot be taken. -/
theorem outcome_eq_abort_iff (c : Config) (random : Int) :
    (∃ cause, m.outcome c random i = .error (.abort cause)) ↔ m.Aborts i := by
  unfold outcome Aborts
  cases hop : i.op
  case ret => cases m.stack <;> simp
  case jump | call =>
    dsimp only
    split
    · next heven => simp [heven]
    · next hne =>
      have hodd : i.address % 2 = 1 := by omega
      simpa using hodd
  case jumpV0 =>
    dsimp only
    split
    · next hodd => simpa using Or.inl (show (i.address + m.reg 0) % 2 = 1 by omega)
    · next heven =>
      split
      · next hout => simpa using Or.inr hout
      · next hin => simpa using ⟨by omega, by omega⟩
  case storeDecimal =>
    dsimp only
    split
    · next hout => simpa using hout
    · next hin =>
      cases bytesOf? (decimalDigits (m.reg i.vx)) <;> simpa using hin
  case storeRegs =>
    dsimp only
    split
    · next hout => simpa using hout
    · next hin =>
      cases bytesOf? (m.upTo i.vx) <;> simpa using hin
  case readRegs =>
    dsimp only
    split
    · next hout => simpa using hout
    · next hin => simpa using hin
  case saveFlags | restoreFlags =>
    have hcount : (flagCount : Int) = 8 := rfl
    dsimp only
    rw [hcount]
    split
    · next hout => simpa using hout
    · next hin => simpa using hin
  case awaitKey => cases m.keypad.takeLowest? <;> simp
  -- what is left is always taken
  all_goals simp

/-- What an instruction looks at before it is taken is not the timers. -/
theorem aborts_updateTimers (now : Int) : (m.updateTimers c now).Aborts i ↔ m.Aborts i := by
  obtain ⟨delay, sound, latch, ticks, htimers⟩ := exists_updateTimers c m now
  rw [htimers]
  rfl

/-- The end of the program halts the machine and goes on to the next instruction. -/
theorem outcome_of_exit {random : Int} (hop : i.op = .exit) :
    m.outcome c random i = .ok (next { m with halted := true }) := by
  simp only [outcome, hop]

/-- An instruction that is taken halts the machine if it ends the program, and not otherwise. -/
theorem halted_outcome_iff {next : Machine} {random : Int}
    (h : m.outcome c random i = .ok next) (hrunning : m.halted = false) :
    next.halted = true ↔ i.op = .exit := by
  constructor
  · intro hhalted
    rcases (outcome_moves h).2.2 with hsame | hop
    · rw [hhalted, hrunning] at hsame
      cases hsame
    · exact hop
  · intro hop
    rw [outcome_of_exit hop] at h
    cases h
    rfl

/-- A running machine that takes an instruction is halted if the instruction ends the program or
aborts, and not otherwise. -/
theorem halted_take_iff (hm : m.Sized) (hi : i.Fits) (hrunning : m.halted = false) :
    (m.take c input i).machine.halted = true ↔ i.op = .exit ∨ m.Aborts i := by
  rw [← aborts_updateTimers (c := c) input.ticks, ← outcome_eq_abort_iff c input.random,
    machine_take hm hi]
  obtain ⟨delay, sound, latch, ticks, htimers⟩ := exists_updateTimers c m input.ticks
  rw [htimers]
  cases hexec : outcome c input.random { m with delay, sound, latch, ticks } i with
  | ok next =>
    have hhalted := halted_outcome_iff hexec hrunning
    simpa [settle, countStep] using hhalted
  | error stop =>
    cases stop with
    | abort cause => simp [settle, countStep]
    | fault cause =>
      have hop : i.op ≠ .exit := by
        intro hop
        rw [outcome_of_exit hop] at hexec
        cases hexec
      simp [settle, hrunning, hop]

/-- A machine that an abort halts is the machine before, but for its timers and its count. -/
theorem countStep_updateTimers (now : Int) :
    countStep { m.updateTimers c now with halted := true } = m.aborted c now := by
  obtain ⟨delay, sound, latch, ticks, htimers⟩ := exists_updateTimers c m now
  simp only [aborted, htimers]
  rfl

/-- An instruction that aborts leaves everything as it was but the timers and the count of steps. -/
theorem take_of_aborts (hm : m.Sized) (hi : i.Fits) (h : m.Aborts i) : ∃ notices,
    m.take c input i = { machine := m.aborted c input.ticks, executed := some i, notices } := by
  obtain ⟨cause, hexec⟩ := (outcome_eq_abort_iff c input.random).mpr
    ((aborts_updateTimers input.ticks).mpr h)
  rw [take_eq hm hi, hexec]
  dsimp only
  rw [countStep_updateTimers]
  exact ⟨_, rfl⟩

/-- A step halts a running machine exactly if the program counter has left memory or the instruction
there ends the program or aborts. Where the counter has left memory, nothing but the mark of the
halt changes. Where the instruction aborts, the timers and the count of steps change besides. -/
theorem step_halts_atomically (hm : m.Sized) (c : Config) (input : StepInput)
    (hrunning : m.halted = false) :
    ((m.step c input).machine.halted = true ↔ memorySize ≤ m.pc ∨
      ∃ i, m.pc < memorySize ∧ m.current? c = some i ∧ (i.op = .exit ∨ m.Aborts i)) ∧
    (memorySize ≤ m.pc →
      m.step c input = { machine := { m with halted := true }, notices := [.leftMemory] }) ∧
    ∀ i, m.pc < memorySize → m.current? c = some i → m.Aborts i → ∃ notices, m.step c input =
      { machine := m.aborted c input.ticks, executed := some i, notices } := by
  refine ⟨?_, step_of_outside hrunning, ?_⟩
  · by_cases hout : memorySize ≤ m.pc
    · simp [step_of_outside hrunning hout, hout]
    · have hlt : m.pc < memorySize := Int.not_le.mp hout
      cases hi : m.current? c with
      | none => simp [step, hrunning, hout, hi]
      | some i =>
        rw [step_of_current? hrunning hlt hi, halted_take_iff hm (fits_of_current? hi) hrunning]
        simp [hout, hlt]
  · intro i hlt hi habort
    rw [step_of_current? hrunning hlt hi]
    exact take_of_aborts hm (fits_of_current? hi) habort

/-- A program that points at the last two bytes of memory and stores three digits there. -/
def storeAcrossEnd : Bytes := #[0xAF, 0xFE, 0xF0, 0x33]

/-- Its second step, five ticks after the first, halts the machine and stores nothing. -/
theorem step_halts_atomically_storeAcrossEnd :
    ∃ m₀ m₁, (powerOn 0).load storeAcrossEnd programStart = .ok m₀ ∧
      (m₀.step {} ⟨0, 0⟩).machine = m₁ ∧ m₁.halted = false ∧
      (m₁.step {} ⟨5, 0⟩).machine.halted = true ∧
      ∃ i notices, m₁.Aborts i ∧ m₁.step {} ⟨5, 0⟩ =
        { machine := m₁.aborted {} 5, executed := some i, notices } := by
  obtain ⟨m₀, hload, hm₀⟩ :=
    (wellFormed_powerOn 0).load (show storeAcrossEnd.size ≤ programSize by decide)
  have hholds := holds_load hload
  obtain ⟨memory, rfl⟩ := exists_load_powerOn hload
  have hsized : Sized { powerOn 0 with memory } := hm₀.sized
  have hkeeps : ∀ m : Machine, m.memory = memory → m.Holds storeAcrossEnd :=
    fun m hmemory => hholds.of_memory_eq hmemory
  have hpoint : ProgramText.instructionAt ⟨storeAcrossEnd, false⟩ 0 =
      { op := .loadIndex, address := 0xFFE } := by decide
  have hstore : ProgramText.instructionAt ⟨storeAcrossEnd, false⟩ 2 =
      { op := .storeDecimal, vx := 0 } := by decide
  have hfirst : (Machine.step {} ⟨0, 0⟩ { powerOn 0 with memory }).machine =
      { powerOn 0 with memory, index := 0xFFE, pc := 0x202, steps := 1 } := by
    rw [hholds.step_eq {} _ (o := 0) rfl rfl (by decide), hpoint,
      machine_take hsized (by decide)]
    rfl
  have hcurrent : Machine.current? {}
      { powerOn 0 with memory, index := 0xFFE, pc := 0x202, steps := 1 } =
      some { op := .storeDecimal, vx := 0 } := by
    rw [(hkeeps _ rfl).current?_eq {} (o := 2) rfl (by decide), hstore]
  have haborts : Machine.Aborts { powerOn 0 with memory, index := 0xFFE, pc := 0x202, steps := 1 }
      { op := .storeDecimal, vx := 0 } := show memorySize < 0xFFE + 3 by decide
  obtain ⟨hhalts, -, hatomic⟩ := step_halts_atomically
    (m := { powerOn 0 with memory, index := 0xFFE, pc := 0x202, steps := 1 }) { hsized with }
    {} ⟨5, 0⟩ rfl
  have hlt : (0x202 : Int) < memorySize := by decide
  obtain ⟨notices, hstep⟩ := hatomic _ hlt hcurrent haborts
  exact ⟨_, _, hload, hfirst, rfl, hhalts.mpr (.inr ⟨_, hlt, hcurrent, .inr haborts⟩), _, notices,
    haborts, hstep⟩

end SuperChip.Machine

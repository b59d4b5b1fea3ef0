import SuperChip.Proofs.Machine.DelayedDraws
import SuperChip.Proofs.Machine.Untouched

/-!
# The timers and the clock

A timer goes down with the clock and stops at zero. How many instructions are taken while it does,
and at which ticks they are taken, makes no difference: at the end of a run that does not set it, a
timer has lost the ticks that have passed since the start (`run_timers`). One step is `value_step`;
over a run the losses add up because each step starts at the tick at which the last one left the
timers.
-/

set_option autoImplicit false

namespace SuperChip

/-- One of the two timers. -/
inductive Timer where
  | delay
  | sound
  deriving DecidableEq, Repr

namespace Timer

/-- What a timer shows. -/
def value (t : Timer) (m : Machine) : Nat :=
  match t with
  | delay => m.delay
  | sound => m.sound

/-- The operation that sets a timer. -/
def setter : Timer → Op
  | delay => .writeDelay
  | sound => .writeSound

end Timer

namespace Machine

variable {c : Config} {m : Machine} {input : StepInput} {events : List Event} {t : Timer}

/-- No step of a run takes an instruction of an operation. -/
def NeverTakes (c : Config) (op : Op) : Machine → List Event → Prop :=
  EveryStep c fun m input => ∀ i, (m.step c input).executed = some i → i.op ≠ op

/-- A tick takes off a timer the ticks passed. -/
theorem value_tick (t : Timer) (now : Int) :
    t.value (m.tick now) = t.value m - (now - m.ticks).toNat := by
  rw [tick_eq]
  cases t <;> rfl

/-- What leaves a timer alone leaves what it shows. -/
theorem Untouched.value {op : Op} {next : Machine} (h : Untouched op m next) (hop : op ≠ t.setter) :
    t.value next = t.value m := by
  cases t with
  | delay => exact h.delay hop
  | sound => exact h.sound hop

/-- A step that does not set a timer takes off it the ticks by which it moves the timers on. -/
theorem value_step (hm : m.Sized) (htimer : c.enableTimer = true) (hnow : m.ticks ≤ input.ticks)
    (hset : ∀ i, (m.step c input).executed = some i → i.op ≠ t.setter) :
    m.ticks ≤ (m.step c input).machine.ticks ∧
      t.value (m.step c input).machine =
        t.value m - ((m.step c input).machine.ticks - m.ticks).toNat := by
  obtain ⟨i, hi, huntouched⟩ | ⟨-, halted, hmachine⟩ := step_untouched hm c input
  · rw [updateTimers, if_pos htimer] at huntouched
    have hticks : (m.step c input).machine.ticks = input.ticks := by
      rw [huntouched.ticks, tick_eq]
    rw [huntouched.value (hset i hi), value_tick, hticks]
    exact ⟨hnow, rfl⟩
  · rw [hmachine]
    have hsame : t.value { m with halted } = t.value m := by cases t <;> rfl
    simp [hsame]

/-- Over a run that does not set a timer, what the steps take off it adds up. -/
theorem value_handleAll (hm : m.Sized) (htimer : c.enableTimer = true)
    (hticks : (m.ticks :: readings events).Pairwise (· ≤ ·))
    (hset : m.NeverTakes c t.setter events) :
    m.ticks ≤ (m.handleAll c events).ticks ∧
      t.value (m.handleAll c events) =
        t.value m - ((m.handleAll c events).ticks - m.ticks).toNat := by
  induction events generalizing m with
  | nil => simp [handleAll]
  | cons e rest ih =>
    cases e with
    | press key =>
      have hsame : t.value (m.press key) = t.value m := by cases t <;> rfl
      exact hsame ▸ ih (m := m.press key) { hm with } hticks hset
    | release key =>
      have hsame : t.value (m.release key) = t.value m := by cases t <;> rfl
      exact hsame ▸ ih (m := m.release key) { hm with } hticks hset
    | step first =>
      obtain ⟨hfirst, hrest⟩ := hset
      have hnow : m.ticks ≤ first.ticks := List.rel_of_pairwise_cons hticks List.mem_cons_self
      obtain ⟨hle, hvalue⟩ := value_step hm htimer hnow hfirst
      obtain ⟨hle', hvalue'⟩ :=
        ih (hm.step c first) (pairwise_readings_step htimer hm hticks) hrest
      change m.ticks ≤ ((m.step c first).machine.handleAll c rest).ticks ∧
        t.value ((m.step c first).machine.handleAll c rest) =
          t.value m - (((m.step c first).machine.handleAll c rest).ticks - m.ticks).toNat
      rw [hvalue', hvalue]
      omega

/-- At the end of a run that does not set it, a timer shows what it showed at the start less the
ticks passed, or zero. So two runs between the same ticks leave a timer the same, whatever machines
they are of and however many steps each takes. -/
theorem run_timers (t : Timer) (hm : m.Sized) (htimer : c.enableTimer = true)
    (hticks : (m.ticks :: readings events).Pairwise (· ≤ ·))
    (hset : m.NeverTakes c t.setter events) :
    (t.value (m.handleAll c events) : Int) =
        max 0 (t.value m - ((m.handleAll c events).ticks - m.ticks)) ∧
      ∀ (d : Config) (n : Machine) (others : List Event), n.Sized → d.enableTimer = true →
        (n.ticks :: readings others).Pairwise (· ≤ ·) → n.NeverTakes d t.setter others →
        t.value n = t.value m → n.ticks = m.ticks →
        (n.handleAll d others).ticks = (m.handleAll c events).ticks →
        t.value (n.handleAll d others) = t.value (m.handleAll c events) := by
  obtain ⟨hle, hvalue⟩ := value_handleAll hm htimer hticks hset
  constructor
  · rw [hvalue]
    omega
  · intro d n others hn htimer' hticks' hset' hstart hfrom hto
    obtain ⟨-, hvalue'⟩ := value_handleAll hn htimer' hticks' hset'
    rw [hvalue', hvalue, hstart, hfrom, hto]

/-- A program that reads the delay timer over and over. -/
def pollDelay : Bytes := #[0xF1, 0x07, 0x12, 0x00]

/-- A machine is in the loop of a program that reads the delay timer. -/
structure Polls (m : Machine) : Prop where
  sized : m.Sized
  holds : m.Holds pollDelay
  running : m.halted = false
  place : m.pc = 0x200 ∨ m.pc = 0x202

/-- The loop goes on, and no step sets the timer. -/
theorem Polls.step (h : m.Polls) (input : StepInput) :
    (m.step {} input).machine.Polls ∧ (m.step {} input).machine.ticks = input.ticks ∧
      ∀ i, (m.step {} input).executed = some i → i.op ≠ .writeDelay := by
  have hread : ProgramText.instructionAt ⟨pollDelay, false⟩ 0 = { op := .readDelay, vx := 1 } := by
    decide
  have hback : ProgramText.instructionAt ⟨pollDelay, false⟩ 2 = { op := .jump, address := 0x200 } :=
    by decide
  have hnext := h.sized.step {} input
  rcases h.place with hpc | hpc
  · have hstep := h.holds.step_eq {} input (o := 0) h.running hpc (by decide)
    rw [hread] at hstep
    rw [hstep, machine_take h.sized (by decide), updateTimers, if_pos rfl, tick_eq] at hnext
    rw [hstep, machine_take h.sized (by decide), executed_take, updateTimers, if_pos rfl, tick_eq]
    refine ⟨⟨hnext, h.holds.of_memory_eq rfl, h.running, .inr ?_⟩, rfl, ?_⟩
    · show m.pc + 2 = 0x202
      rw [hpc]
      rfl
    · intro i hi
      cases hi
      decide
  · have hstep := h.holds.step_eq {} input (o := 2) h.running hpc (by decide)
    rw [hback] at hstep
    rw [hstep, machine_take h.sized (by decide), updateTimers, if_pos rfl, tick_eq] at hnext
    rw [hstep, machine_take h.sized (by decide), executed_take, updateTimers, if_pos rfl, tick_eq]
    refine ⟨⟨hnext, h.holds.of_memory_eq rfl, h.running, .inl rfl⟩, rfl, ?_⟩
    intro i hi
    cases hi
    decide

/-- From tick 10 to tick 12 the delay timer goes from 3 to 1, in three steps as in one. -/
theorem run_timers_pollDelay :
    ∃ m : Machine, m.Polls ∧ m.delay = 3 ∧ m.ticks = 10 ∧
      let events : List Event := [.step ⟨10, 0⟩, .press 4, .step ⟨12, 0⟩, .step ⟨12, 0⟩]
      m.NeverTakes {} .writeDelay events ∧ m.NeverTakes {} .writeDelay [.step ⟨12, 0⟩] ∧
        ((m.handleAll {} events).delay : Int) = max 0 (3 - (12 - 10)) ∧
        (m.handleAll {} [.step ⟨12, 0⟩]).delay = (m.handleAll {} events).delay := by
  obtain ⟨m₀, hload, hm₀⟩ : ∃ m₀, (powerOn 10).load pollDelay programStart = .ok m₀ ∧
      m₀.WellFormed := (wellFormed_powerOn 10).load (by decide)
  have hholds := holds_load hload
  obtain ⟨memory, rfl⟩ := exists_load_powerOn hload
  let m : Machine := { powerOn 10 with memory, delay := 3 }
  have hm : m.Polls := ⟨{ hm₀.sized with }, hholds.of_memory_eq rfl, rfl, .inl rfl⟩
  obtain ⟨h₁, -, hset₁⟩ := hm.step ⟨10, 0⟩
  have hpressed : ((m.step {} ⟨10, 0⟩).machine.press 4).Polls :=
    ⟨{ h₁.sized with }, h₁.holds.of_memory_eq rfl, h₁.running, h₁.place⟩
  obtain ⟨h₂, -, hset₂⟩ := hpressed.step ⟨12, 0⟩
  obtain ⟨-, hticks₃, hset₃⟩ := h₂.step ⟨12, 0⟩
  obtain ⟨-, honce, hset⟩ := hm.step ⟨12, 0⟩
  have hrun : (m.ticks :: readings [.step ⟨10, 0⟩, .press 4, .step ⟨12, 0⟩, .step ⟨12, 0⟩]).Pairwise
      (· ≤ ·) := show [10, 10, 12, (12 : Int)].Pairwise (· ≤ ·) by decide
  have hshort : (m.ticks :: readings [.step ⟨12, 0⟩]).Pairwise (· ≤ ·) :=
    show [10, (12 : Int)].Pairwise (· ≤ ·) by decide
  obtain ⟨hvalue, hother⟩ := run_timers .delay hm.sized rfl hrun ⟨hset₁, hset₂, hset₃, trivial⟩
  refine ⟨m, hm, rfl, rfl, ⟨hset₁, hset₂, hset₃, trivial⟩, ⟨hset, trivial⟩, ?_, ?_⟩
  · have hend :
        (m.handleAll {} [.step ⟨10, 0⟩, .press 4, .step ⟨12, 0⟩, .step ⟨12, 0⟩]).ticks = 12 :=
      hticks₃
    rw [hend] at hvalue
    exact hvalue
  · exact hother {} m _ hm.sized rfl hshort ⟨hset, trivial⟩ rfl rfl (honce.trans hticks₃.symm)

end Machine
end SuperChip

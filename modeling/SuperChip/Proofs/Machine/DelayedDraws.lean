import SuperChip.Proofs.Machine.Control
import SuperChip.Proofs.Machine.Loading
import SuperChip.Proofs.Machine.Run
import SuperChip.Proofs.Machine.Step

/-!
# Runs with delayed draws

Where draws are delayed, a draw or scroll takes several steps: at first it only waits, and a later
step at the same address lets it take effect. A machine without delays that takes only the steps
that do not wait, at the same ticks, goes through the same states (`run_delayed_agree`). Between
such steps the delayed machine is ahead in one thing only: it has brought its timers up to the ticks
at which it waited. The invariant is `Follows`; one step is `Follows.stay` or `Follows.move`, and a
run follows by induction on its events.
-/

set_option autoImplicit false

namespace SuperChip.Machine

variable {c : Config} {m n : Machine} {input : StepInput} {i : Instruction}

/-- Whether a step waits: its instruction draws or scrolls, and the gate stays closed once the
timers are brought up to the present tick. -/
def waits (c : Config) (m : Machine) (input : StepInput) : Bool :=
  !m.halted && decide (m.pc < memorySize) && (m.current? c).any (·.op.isGated) &&
    !((m.updateTimers c input.ticks).gate c).1

/-- The events without the steps that wait. -/
def performed (c : Config) (m : Machine) : List Event → List Event
  | [] => []
  | .step input :: rest =>
    let behind := performed c (m.step c input).machine rest
    if m.waits c input then behind else .step input :: behind
  | e :: rest => e :: performed c (m.handle c e) rest

/-- The ticks that are read at the steps of a run. -/
def readings : List Event → List Int
  | [] => []
  | .step input :: rest => input.ticks :: readings rest
  | _ :: rest => readings rest

/-- The random numbers that a run draws. -/
def drawn (c : Config) (m : Machine) : List Event → List Int
  | [] => []
  | .step input :: rest =>
    let behind := drawn c (m.step c input).machine rest
    if (m.step c input).executed.any (·.op == .random) then input.random :: behind else behind
  | e :: rest => drawn c (m.handle c e) rest

/-- The configuration without delays. -/
def undelayed (c : Config) : Config := { c with delayDraws := false }

/-- A step that waits is not among those performed. -/
theorem performed_of_waits {rest : List Event} (h : m.waits c input = true) :
    performed c m (.step input :: rest) = performed c (m.step c input).machine rest :=
  if_pos h

/-- A step that does not wait is performed. -/
theorem performed_of_not_waits {rest : List Event} (h : m.waits c input = false) :
    performed c m (.step input :: rest) =
      .step input :: performed c (m.step c input).machine rest := by
  simp only [performed, h]
  rfl

/-! ## Agreement -/

/-- Agreement is symmetric. -/
theorem Agree.symm (h : m.Agree n) : n.Agree m := by
  obtain ⟨latch, waiting, steps, rfl⟩ := h
  exact ⟨n.latch, n.waiting, n.steps, rfl⟩

/-- Agreement is transitive. -/
theorem Agree.trans {k : Machine} (hmn : m.Agree n) (hnk : n.Agree k) : m.Agree k := by
  obtain ⟨latch, waiting, steps, rfl⟩ := hmn
  obtain ⟨_, _, _, rfl⟩ := hnk
  exact ⟨latch, waiting, steps, rfl⟩

/-- A machine that agrees with a sized one is sized. -/
theorem Agree.sized (h : m.Agree n) (hn : n.Sized) : m.Sized := by
  obtain ⟨latch, waiting, steps, rfl⟩ := h
  exact { hn with }

/-- A tick keeps machines in agreement. -/
theorem Agree.tick (h : m.Agree n) (now : Int) : (m.tick now).Agree (n.tick now) := by
  obtain ⟨latch, waiting, steps, rfl⟩ := h
  exact ⟨_, waiting, steps, by rw [tick_eq, tick_eq]; rfl⟩

/-- A tick at the present tick changes no more than the marks of a wait. -/
theorem tick_ticks_agree (m : Machine) : (m.tick m.ticks).Agree m :=
  ⟨m.latch, m.waiting, m.steps, by simp [tick_eq, remark]⟩

/-- The outcomes of one instruction on two machines agree, in the machines that they leave too. -/
theorem settle_remark_agree (latch waiting : Bool) (steps : Nat) (outcome : Except Stop Machine) :
    ((m.remark latch waiting steps).settle (outcome.map (·.remark latch waiting steps))).Agree
      (m.settle outcome) := by
  cases outcome with
  | ok next => exact ⟨latch, waiting, steps + 1, rfl⟩
  | error stop =>
    cases stop with
    | abort cause => exact ⟨latch, waiting, steps + 1, rfl⟩
    | fault cause => exact ⟨latch, waiting, steps, rfl⟩

/-- A draw or scroll that takes effect leaves the mark of a wait to the gate. -/
theorem waiting_effect (i : Instruction) (m : Machine) : (effect i m).waiting = m.waiting := by
  obtain ⟨display, registers, needsRefresh, heffect⟩ := exists_effect i m
  rw [heffect]

/-- A draw or scroll behind an open gate takes effect. -/
theorem machine_take_of_isGated (hm : m.Sized) (hi : i.Fits) (hgated : i.op.isGated = true)
    (hopen : ((m.updateTimers c input.ticks).gate c).1 = true) :
    (m.take c input i).machine =
      (effect i ((m.updateTimers c input.ticks).gate c).2).next.countStep := by
  rw [machine_take hm hi, outcome_of_isGated _ _ hgated, gated_eq, if_pos hopen]
  rfl

/-- An instruction that neither draws nor scrolls leaves the marks of a wait as they were. -/
theorem marks_take (hm : m.Sized) (hi : i.Fits) (hop : i.op.isGated = false) :
    (m.take c input i).machine.waiting = (m.updateTimers c input.ticks).waiting ∧
      (m.take c input i).machine.latch = (m.updateTimers c input.ticks).latch := by
  rw [machine_take hm hi]
  generalize m.updateTimers c input.ticks = k
  -- replacing its marks by the marks it has changes nothing
  have hexecute : k.outcome c input.random i =
      (k.outcome c input.random i).map (·.remark k.latch k.waiting k.steps) :=
    outcome_remark k.latch k.waiting k.steps c c.delayDraws input.random hop
  rw [hexecute]
  cases k.outcome c input.random i with
  | ok next => exact ⟨rfl, rfl⟩
  | error stop => cases stop <;> exact ⟨rfl, rfl⟩

/-- A step that waits brings the timers up, begins or keeps a wait for a tick, and does nothing
else. -/
theorem step_of_waits (hm : m.Sized) (h : m.waits c input = true) :
    m.halted = false ∧ m.pc < memorySize ∧
      (∃ i, m.current? c = some i ∧ i.op.isGated = true ∧ (m.step c input).executed = some i) ∧
      (m.step c input).machine =
        (m.updateTimers c input.ticks).remark false true (m.steps + 1) := by
  simp only [waits, Bool.and_eq_true, Bool.not_eq_true', decide_eq_true_eq] at h
  obtain ⟨⟨⟨hrunning, hlt⟩, hany⟩, hclosed⟩ := h
  obtain ⟨i, hi, hgated⟩ : ∃ i, m.current? c = some i ∧ i.op.isGated = true := by
    simpa [Option.any_eq_true] using hany
  obtain ⟨delay, sound, latch, ticks, htimers⟩ := exists_updateTimers c m input.ticks
  rw [step_of_current? hrunning hlt hi]
  refine ⟨hrunning, hlt, ⟨i, hi, hgated, executed_take⟩, ?_⟩
  rw [machine_take hm (fits_of_current? hi), outcome_of_isGated c _ hgated, gated_eq, hclosed,
    gate_of_closed hclosed, htimers]
  rfl

/-! ## The invariant -/

/-- A machine that waits is at a draw or scroll. -/
def AtGate (c : Config) (m : Machine) : Prop :=
  m.waiting = true → m.halted = false ∧ m.pc < memorySize ∧
    ∃ i, m.current? c = some i ∧ i.op.isGated = true

/-- A machine that does not wait is at no gate. -/
theorem AtGate.of_not_waiting (h : m.waiting = false) : AtGate c m := by
  intro hwaiting
  rw [h] at hwaiting
  cases hwaiting

/-- After a step that waits the machine is still at its draw or scroll. -/
theorem AtGate.of_waits (hm : m.Sized) (h : m.waits c input = true) :
    AtGate c (m.step c input).machine := by
  intro _
  obtain ⟨hrunning, hlt, ⟨i, hi, hgated, -⟩, hmachine⟩ := step_of_waits hm h
  obtain ⟨delay, sound, latch, ticks, htimers⟩ := exists_updateTimers c m input.ticks
  rw [hmachine, htimers]
  exact ⟨hrunning, hlt, i, hi, hgated⟩

/-- The machine `m` waits at a draw or scroll, or it agrees with `n`, on which no step waits. While
it waits it agrees with `n` but for the timers, which it has brought up further. -/
structure Follows (c : Config) (m n : Machine) : Prop where
  agree : m.Agree (n.tick m.ticks)
  ticks_le : n.ticks ≤ m.ticks
  ticks_eq : m.waiting = false → n.ticks = m.ticks
  atGate : AtGate c m
  sized : n.Sized

/-- A machine follows one that it agrees with. -/
theorem Follows.of_agree (h : m.Agree n) (hn : n.Sized) (hwaiting : m.waiting = false) :
    Follows c m n := by
  have hticks : m.ticks = n.ticks := by
    obtain ⟨latch, waiting, steps, rfl⟩ := h
    rfl
  constructor
  case agree => rw [hticks]; exact h.trans (tick_ticks_agree n).symm
  case ticks_le => exact Int.le_of_eq hticks.symm
  case ticks_eq => exact fun _ => hticks.symm
  case atGate => exact .of_not_waiting hwaiting
  case sized => exact hn

/-- The machine that follows a sized one is sized. -/
theorem Follows.sized_left (h : Follows c m n) : m.Sized :=
  h.agree.sized (h.sized.tick m.ticks)

/-- A machine that does not wait agrees with the one it follows. -/
theorem Follows.agree_of_not_waiting (h : Follows c m n) (hwaiting : m.waiting = false) :
    m.Agree n := by
  have hagree := h.agree
  rw [← h.ticks_eq hwaiting] at hagree
  exact hagree.trans (tick_ticks_agree n)

/-- The next tick brings both to the same timers. -/
theorem Follows.tick (h : Follows c m n) {now : Int} (hnow : m.ticks ≤ now) :
    (m.tick now).Agree (n.tick now) :=
  (h.agree.tick now).trans (tick_tick h.ticks_le hnow)

/-- Both come to the same instruction. -/
theorem Follows.fetch (h : Follows c m n) : n.halted = m.halted ∧ n.pc = m.pc ∧
    n.current? (undelayed c) = m.current? c := by
  obtain ⟨latch, waiting, steps, heq⟩ := h.agree
  rw [tick_eq] at heq
  rw [heq]
  exact ⟨rfl, rfl, rfl⟩

/-- A key event on both keypads keeps one machine following the other. -/
theorem Follows.keys (h : Follows c m n) (f : Keypad → Keypad) :
    Follows c { m with keypad := f m.keypad } { n with keypad := f n.keypad } := by
  have hagree : Agree { m with keypad := f m.keypad }
      { n.tick m.ticks with keypad := f (n.tick m.ticks).keypad } := by
    obtain ⟨latch, waiting, steps, heq⟩ := h.agree
    generalize n.tick m.ticks = k at heq ⊢
    subst heq
    exact ⟨latch, waiting, steps, rfl⟩
  rw [tick_eq] at hagree
  exact { h with
    agree := by rw [tick_eq]; exact hagree
    sized := { h.sized with } }

/-! ## Steps -/

section Step

variable (hdelay : c.delayDraws = true) (htimer : c.enableTimer = true)
include hdelay htimer

omit hdelay in
/-- The other machine need not move while this one waits. -/
theorem Follows.stay (h : Follows c m n) (hnow : m.ticks ≤ input.ticks)
    (hwaits : m.waits c input = true) :
    Follows c (m.step c input).machine n ∧
      ∃ i, (m.step c input).executed = some i ∧ i.op.isGated = true := by
  obtain ⟨-, -, ⟨i, -, hgated, hexecuted⟩, hmachine⟩ := step_of_waits h.sized_left hwaits
  rw [updateTimers, if_pos htimer] at hmachine
  have hticks : (m.step c input).machine.ticks = input.ticks := by rw [hmachine, tick_eq]; rfl
  refine ⟨?_, i, hexecuted, hgated⟩
  constructor
  case agree =>
    have hagree : (m.step c input).machine.Agree (m.tick input.ticks) :=
      ⟨false, true, m.steps + 1, hmachine⟩
    rw [hticks]
    exact hagree.trans (h.tick hnow)
  case ticks_le =>
    rw [hticks]
    exact Int.le_trans h.ticks_le hnow
  case ticks_eq =>
    rw [hmachine]
    nofun
  case atGate => exact .of_waits h.sized_left hwaits
  case sized => exact h.sized

/-- An instruction that does not wait does the same on both machines. -/
theorem Follows.take (h : Follows c m n) (hi : i.Fits) (hnow : m.ticks ≤ input.ticks)
    (hopen : i.op.isGated = true → ((m.updateTimers c input.ticks).gate c).1 = true)
    (hwaiting : i.op.isGated = false → m.waiting = false) :
    (m.take c input i).machine.Agree (n.take (undelayed c) input i).machine ∧
      (m.take c input i).machine.waiting = false := by
  have hm : m.updateTimers c input.ticks = m.tick input.ticks := if_pos htimer
  have hn : n.updateTimers (undelayed c) input.ticks = n.tick input.ticks := if_pos htimer
  obtain ⟨latch, waiting, steps, htick⟩ := h.tick hnow
  cases hgated : i.op.isGated with
  | true =>
    have hgate := machine_take_of_isGated h.sized_left hi hgated (hopen hgated)
    have hfree : (n.take (undelayed c) input i).machine =
        (effect i (n.updateTimers (undelayed c) input.ticks)).next.countStep :=
      machine_take_of_isGated h.sized hi hgated rfl
    obtain ⟨-, -, hmarks⟩ := gate_of_open hdelay (hopen hgated)
    constructor
    · rw [hgate, hfree, hmarks, hm, hn, htick, effect_remark, effect_remark]
      exact ⟨_, _, _, rfl⟩
    · rw [hgate, hmarks]
      exact waiting_effect _ _
  | false =>
    constructor
    · rw [machine_take h.sized_left hi, machine_take h.sized hi, hm, hn, htick,
        outcome_remark latch waiting steps c (undelayed c).delayDraws input.random hgated]
      exact settle_remark_agree latch waiting steps _
    · rw [(marks_take h.sized_left hi hgated).1, hm, tick_eq]
      exact hwaiting hgated

/-- A step that does not wait ends the wait and does what the other machine does. -/
theorem Follows.move (h : Follows c m n) (hnow : m.ticks ≤ input.ticks)
    (hwaits : m.waits c input = false) :
    Follows c (m.step c input).machine (n.step (undelayed c) input).machine ∧
      (m.step c input).machine.waiting = false ∧
      (n.step (undelayed c) input).executed = (m.step c input).executed := by
  obtain ⟨hhalted, hpc, hcurrent⟩ := h.fetch
  obtain ⟨i, hrunning, hlt, hi⟩ | ⟨hnone, hmachine, -⟩ := step_cases c m input
  · have hnot : i.op.isGated = false → m.waiting = false := by
      intro hgated
      cases hwaiting : m.waiting with
      | false => rfl
      | true =>
        obtain ⟨-, -, j, hj, hjgated⟩ := h.atGate hwaiting
        simp_all
    have hopen : i.op.isGated = true → ((m.updateTimers c input.ticks).gate c).1 = true := by
      intro hgated
      simpa [waits, hrunning, hlt, hi, hgated] using hwaits
    have htake := h.take hdelay htimer (fits_of_current? hi) hnow hopen hnot
    rw [step_of_current? hrunning hlt hi, step_of_current? (hhalted.trans hrunning) (hpc ▸ hlt)
      (hcurrent.trans hi)]
    have hn := (h.sized.step (undelayed c) input)
    rw [step_of_current? (hhalted.trans hrunning) (hpc ▸ hlt) (hcurrent.trans hi)] at hn
    exact ⟨.of_agree htake.1 hn htake.2, htake.2, executed_take.trans executed_take.symm⟩
  · have hnot : m.waiting = false := by
      cases hwaiting : m.waiting with
      | false => rfl
      | true =>
        obtain ⟨hrunning, hlt, i, hi, -⟩ := h.atGate hwaiting
        rw [step_of_current? hrunning hlt hi, executed_take] at hnone
        contradiction
    obtain ⟨latch, waiting, steps, heq⟩ := h.agree_of_not_waiting hnot
    obtain ⟨i, hrunning, hlt, hi⟩ | ⟨hnone', hmachine', -⟩ := step_cases (undelayed c) n input
    · rw [step_of_current? (hhalted.symm.trans hrunning) (hpc ▸ hlt) (hcurrent.symm.trans hi),
        executed_take] at hnone
      contradiction
    · have hnext : (m.step c input).machine.Agree (n.step (undelayed c) input).machine := by
        rw [hmachine, hmachine', heq]
        exact ⟨latch, waiting, steps, rfl⟩
      have hover : (m.step c input).machine.waiting = false := by
        rw [hmachine]
        exact hnot
      exact ⟨.of_agree hnext (h.sized.step _ _) hover, hover, hnone'.trans hnone.symm⟩

omit hdelay in
/-- A step leaves the timers at the present tick, or where they are. -/
theorem ticks_step_le (hm : m.Sized) (hnow : m.ticks ≤ input.ticks) :
    (m.step c input).machine.ticks ≤ input.ticks := by
  obtain ⟨i, hrunning, hlt, hi⟩ | ⟨-, hmachine, -⟩ := step_cases c m input
  · have hnow : (m.updateTimers c input.ticks).ticks = input.ticks := by
      rw [updateTimers, if_pos htimer, tick_eq]
    rw [step_of_current? hrunning hlt hi, machine_take hm (fits_of_current? hi)]
    cases hexec : (m.updateTimers c input.ticks).outcome c input.random i with
    | ok next => exact Int.le_of_eq ((outcome_moves hexec).2.1.trans hnow)
    | error stop => cases stop <;> exact Int.le_of_eq hnow
  · rw [hmachine]
    exact hnow

omit hdelay in
/-- The clock does not go back behind a step either. -/
theorem pairwise_readings_step {rest : List Event} (hm : m.Sized)
    (hticks : (m.ticks :: readings (.step input :: rest)).Pairwise (· ≤ ·)) :
    ((m.step c input).machine.ticks :: readings rest).Pairwise (· ≤ ·) := by
  obtain ⟨hnow, hrest⟩ := List.pairwise_cons.mp hticks
  obtain ⟨hbehind, hsorted⟩ := List.pairwise_cons.mp hrest
  refine List.pairwise_cons.mpr ⟨fun t ht => ?_, hsorted⟩
  exact Int.le_trans (ticks_step_le htimer hm (hnow _ List.mem_cons_self)) (hbehind t ht)

omit hdelay in
/-- The clock does not go back behind a run either. -/
theorem pairwise_readings_handleAll {events behind : List Event} (hm : m.Sized)
    (hticks : (m.ticks :: readings (events ++ behind)).Pairwise (· ≤ ·)) :
    ((m.handleAll c events).ticks :: readings behind).Pairwise (· ≤ ·) := by
  induction events generalizing m with
  | nil => exact hticks
  | cons e rest ih =>
    cases e with
    | press key => exact ih (m := m.press key) { hm with } hticks
    | release key => exact ih (m := m.release key) { hm with } hticks
    | step input => exact ih (hm.step c input) (pairwise_readings_step htimer hm hticks)

/-- At the end of a run whose last step does not wait, the machines agree. -/
theorem Follows.run (events : List Event) (h : Follows c m n)
    (hticks : (m.ticks :: readings (events ++ [.step input])).Pairwise (· ≤ ·))
    (hstep : (m.handleAll c events).waits c input = false) :
    (m.handleAll c (events ++ [.step input])).Agree
        (n.handleAll (undelayed c) (m.performed c (events ++ [.step input]))) ∧
      drawn (undelayed c) n (m.performed c (events ++ [.step input])) =
        drawn c m (events ++ [.step input]) := by
  induction events generalizing m n with
  | nil =>
    have hnow : m.ticks ≤ input.ticks := by simpa [readings] using hticks
    have hwaits : m.waits c input = false := hstep
    obtain ⟨hnext, hwaiting, hexecuted⟩ := h.move hdelay htimer hnow hwaits
    have hagree := hnext.agree_of_not_waiting hwaiting
    rw [List.nil_append, performed_of_not_waits hwaits]
    exact ⟨hagree, by simp only [drawn, performed, hexecuted]⟩
  | cons e rest ih =>
    cases e with
    | press key => exact ih (h.keys (·.press key)) hticks hstep
    | release key => exact ih (h.keys (·.release key)) hticks hstep
    | step first =>
      have hnow : m.ticks ≤ first.ticks := List.rel_of_pairwise_cons hticks List.mem_cons_self
      have hlater := pairwise_readings_step htimer h.sized_left hticks
      cases hwaits : m.waits c first with
      | true =>
        obtain ⟨hnext, i, hi, hgated⟩ := h.stay htimer hnow hwaits
        have hrandom : (i.op == .random) = false := by
          revert hgated
          cases i.op <;> decide
        obtain ⟨hagree, hdrawn⟩ := ih hnext hlater hstep
        rw [List.cons_append, performed_of_waits hwaits]
        exact ⟨hagree, by simpa [drawn, hi, hrandom] using hdrawn⟩
      | false =>
        obtain ⟨hnext, -, hexecuted⟩ := h.move hdelay htimer hnow hwaits
        obtain ⟨hagree, hdrawn⟩ := ih hnext hlater hstep
        rw [List.cons_append, performed_of_not_waits hwaits]
        exact ⟨hagree, by simp only [drawn, hexecuted, hdrawn]⟩

end Step

/-- Delaying draws shows at no step that does not wait. From a sized machine that does not wait,
with timers that run and a clock that does not go backwards, every run up to such a step ends in the
machine to which the same events lead without delays, once the waiting steps are left out. -/
theorem run_delayed_agree (hm : m.Sized) (hdelay : c.delayDraws = true)
    (htimer : c.enableTimer = true) (hwaiting : m.waiting = false) (events : List Event)
    (hticks : (m.ticks :: readings (events ++ [.step input])).Pairwise (· ≤ ·))
    (hstep : (m.handleAll c events).waits c input = false) :
    (m.handleAll c (events ++ [.step input])).Agree
        (m.handleAll (undelayed c) (m.performed c (events ++ [.step input]))) ∧
      drawn (undelayed c) m (m.performed c (events ++ [.step input])) =
        drawn c m (events ++ [.step input]) :=
  (Follows.of_agree ⟨m.latch, m.waiting, m.steps, rfl⟩ hm hwaiting).run hdelay htimer events hticks
    hstep

/-- A scroll that waits at tick 7 and takes effect at tick 9, after a key went down. -/
theorem run_delayed_agree_scroll :
    ∃ m₀, (powerOn 7).load #[0x00, 0xFB] programStart = .ok m₀ ∧ m₀.waiting = false ∧
      (m₀.handleAll {} [.step ⟨7, 1⟩, .press 3]).waits {} ⟨9, 2⟩ = false ∧
      m₀.performed {} [.step ⟨7, 1⟩, .press 3, .step ⟨9, 2⟩] = [.press 3, .step ⟨9, 2⟩] ∧
      (m₀.handleAll {} [.step ⟨7, 1⟩, .press 3, .step ⟨9, 2⟩]).Agree
        (m₀.handleAll (undelayed {})
          (m₀.performed {} [.step ⟨7, 1⟩, .press 3, .step ⟨9, 2⟩])) ∧
      drawn (undelayed {}) m₀ (m₀.performed {} [.step ⟨7, 1⟩, .press 3, .step ⟨9, 2⟩]) =
        drawn {} m₀ [.step ⟨7, 1⟩, .press 3, .step ⟨9, 2⟩] := by
  obtain ⟨m₀, hload, hm₀⟩ : ∃ m₀, (powerOn 7).load #[0x00, 0xFB] programStart = .ok m₀ ∧
      m₀.WellFormed := (wellFormed_powerOn 7).load (by decide)
  have hholds := holds_load hload
  obtain ⟨memory, rfl⟩ := exists_load_powerOn hload
  have hcurrent : ∀ m : Machine, m.memory = memory → m.pc = programStart →
      m.current? {} = some { op := .scrollRight } := by
    intro m hmemory hpc
    rw [(hholds.of_memory_eq hmemory).current?_eq {} (o := 0) hpc (by decide)]
    decide
  have hfirst : (Machine.step {} ⟨7, 1⟩ { powerOn 7 with memory }).machine =
      { powerOn 7 with memory, latch := false, waiting := true, steps := 1 } := by
    rw [step_of_current? rfl (show (programStart : Int) < memorySize by decide)
      (hcurrent _ rfl rfl), machine_take hm₀.sized (by decide)]
    rfl
  have hwaits : ({ powerOn 7 with memory } : Machine).waits {} ⟨7, 1⟩ = true := by
    rw [waits, hcurrent _ rfl rfl]
    rfl
  have hlast :
      (({ powerOn 7 with memory } : Machine).handleAll {} [.step ⟨7, 1⟩, .press 3]).waits {}
      ⟨9, 2⟩ = false := by
    simp only [handleAll, handle, List.foldl, hfirst]
    rw [waits, hcurrent _ rfl rfl]
    rfl
  have hticks : [7, 7, (9 : Int)].Pairwise (· ≤ ·) := by decide
  refine ⟨_, hload, rfl, hlast, ?_,
    run_delayed_agree hm₀.sized rfl rfl rfl [.step ⟨7, 1⟩, .press 3] hticks
    hlast⟩
  rw [performed_of_waits hwaits]
  exact congrArg _ (performed_of_not_waits hlast)

end SuperChip.Machine

import Mathlib.Data.List.Induction
import SuperChip.Proofs.Machine.DelayedDraws
import SuperChip.Proofs.Machine.Untouched

/-!
# At most one draw a tick

Where draws are delayed, a draw or scroll takes effect at a later tick than the one at which it was
held back, and so no two take effect at the same tick (`run_draws_once_a_tick`). What is kept along
a run is that the latch, once a draw was made or held back, is shut until the next tick: `ShutSince`
says at which tick that was. A draw that is made was armed by an earlier step, and waited from then
on.
-/

set_option autoImplicit false

namespace SuperChip.Machine

variable {c : Config} {m : Machine} {input : StepInput} {events : List Event} {tick : Int}

/-- Whether a step draws or scrolls: its instruction does, and it does not wait. -/
def draws (c : Config) (m : Machine) (input : StepInput) : Bool :=
  (m.step c input).executed.any (·.op.isGated) && !m.waits c input

/-- Whether a step begins a wait. -/
def arms (c : Config) (m : Machine) (input : StepInput) : Bool := m.waits c input && !m.waiting

/-- The ticks at which a run draws or scrolls. -/
def drawTicks (c : Config) (m : Machine) : List Event → List Int
  | [] => []
  | .step input :: rest =>
    let behind := drawTicks c (m.step c input).machine rest
    if m.draws c input then (m.step c input).machine.ticks :: behind else behind
  | e :: rest => drawTicks c (m.handle c e) rest

/-- In the run through the events `before` the step `arming`, behind the events `earlier`, begins a
wait, and every step after it waits. -/
structure Armed (c : Config) (m : Machine) (before earlier : List Event) (arming : StepInput)
    (between : List Event) : Prop where
  split : before = earlier ++ .step arming :: between
  arms : (m.handleAll c earlier).arms c arming = true
  waits : ((m.handleAll c earlier).step c arming).machine.EveryStep c
    (fun k input => k.waits c input = true) between

/-- The latch is shut until a tick after `tick`: no wait has found it open before. -/
structure ShutSince (tick : Int) (m : Machine) : Prop where
  ticks_le : tick ≤ m.ticks
  ticks_lt : m.waiting = true → m.latch = true → tick < m.ticks

/-- What a step does to the marks of a wait. -/
inductive StepMarks (c : Config) (m : Machine) (input : StepInput) (next : Machine) : Prop where
  | waits (hwaits : m.waits c input = true) (hdraws : m.draws c input = false)
      (hlatch : next.latch = false) (hticks : next.ticks = input.ticks)
  | draws (hwaits : m.waits c input = false) (hdraws : m.draws c input = true)
      (hwaiting : m.waiting = true) (hpassed : m.latch = true ∨ m.ticks < input.ticks)
      (hover : next.waiting = false) (hticks : next.ticks = input.ticks)
  | other (hwaits : m.waits c input = false) (hdraws : m.draws c input = false)
      (hwaiting : next.waiting = m.waiting)
      (hpassed : next.latch = true → m.latch = true ∨ m.ticks < next.ticks)
      (hticks : next.ticks = m.ticks ∨ next.ticks = input.ticks)

/-- A wait goes on through an event at which every step waits. -/
theorem Armed.concat {before earlier between : List Event} {arming : StepInput} {e : Event}
    (h : Armed c m before earlier arming between)
    (hlast : (m.handleAll c before).EveryStep c (fun k input => k.waits c input = true) [e]) :
    Armed c m (before ++ [e]) earlier arming (between ++ [e]) := by
  constructor
  case split => simp [h.split]
  case arms => exact h.arms
  case waits =>
    refine (everyStep_append _ _).mpr ⟨h.waits, ?_⟩
    rw [h.split, handleAll_append] at hlast
    exact hlast

/-! ## The gate along a run -/

/-- Where a step neither waits nor draws, no wait was going on. -/
theorem AtGate.waiting_eq_false (h : AtGate c m) (hwaits : m.waits c input = false)
    (hdraws : m.draws c input = false) : m.waiting = false := by
  cases hwaiting : m.waiting with
  | false => rfl
  | true =>
    obtain ⟨hrunning, hlt, i, hi, hgated⟩ := h hwaiting
    have hexecuted : (m.step c input).executed = some i := by
      rw [step_of_current? hrunning hlt hi, executed_take]
    simp [draws, hexecuted, hgated, hwaits] at hdraws

/-- A step that draws finds the gate open, and its draw or scroll takes effect. -/
theorem step_of_draws (hm : m.Sized) (h : m.draws c input = true) :
    ∃ i, i.op.isGated = true ∧ ((m.updateTimers c input.ticks).gate c).1 = true ∧
      (m.step c input).machine =
        (effect i ((m.updateTimers c input.ticks).gate c).2).next.countStep := by
  obtain ⟨hgated, hwaits⟩ := Bool.and_eq_true_iff.mp h
  obtain ⟨i, hrunning, hlt, hi⟩ | ⟨hnone, -⟩ := step_cases c m input
  · rw [step_of_current? hrunning hlt hi, executed_take] at hgated
    have hopen : ((m.updateTimers c input.ticks).gate c).1 = true := by
      have hgated : i.op.isGated = true := hgated
      simpa [waits, hrunning, hlt, hi, hgated] using hwaits
    refine ⟨i, hgated, hopen, ?_⟩
    rw [step_of_current? hrunning hlt hi]
    exact machine_take_of_isGated hm (fits_of_current? hi) hgated hopen
  · rw [hnone] at hgated
    cases hgated

section Step

variable (hdelay : c.delayDraws = true) (htimer : c.enableTimer = true)
include hdelay htimer

/-- A step waits, draws, or leaves the mark of a wait alone; only a tick opens the latch. -/
theorem step_marks (hm : m.Sized) (input : StepInput) :
    StepMarks c m input (m.step c input).machine := by
  have htick : m.updateTimers c input.ticks = m.tick input.ticks := if_pos htimer
  cases hwaits : m.waits c input with
  | true =>
    obtain ⟨-, -, -, hmachine⟩ := step_of_waits hm hwaits
    rw [hmachine, htick, tick_eq]
    exact .waits hwaits (by simp [draws, hwaits]) rfl rfl
  | false =>
    cases hdraws : m.draws c input with
    | true =>
      obtain ⟨i, -, hopen, hmachine⟩ := step_of_draws hm hdraws
      obtain ⟨hwaiting, hlatch, hmarks⟩ := gate_of_open hdelay hopen
      obtain ⟨display, registers, needsRefresh, heffect⟩ :=
        exists_effect i ((m.updateTimers c input.ticks).gate c).2
      rw [hmachine, heffect, hmarks]
      rw [htick, tick_eq] at hwaiting hlatch ⊢
      exact .draws hwaits hdraws hwaiting (by simpa using hlatch) rfl rfl
    | false =>
      obtain ⟨i, hrunning, hlt, hi⟩ | ⟨-, hmachine, -⟩ := step_cases c m input
      · have hstep : m.step c input = m.take c input i := step_of_current? hrunning hlt hi
        have hfree : i.op.isGated = false := by
          simpa [draws, hwaits, hstep, executed_take] using hdraws
        obtain ⟨hwaiting, hlatch⟩ : (m.take c input i).machine.waiting = _ ∧ _ = _ :=
          marks_take hm (fits_of_current? hi) hfree
        have hticks : (m.step c input).machine.ticks = input.ticks := by
          obtain ⟨j, -, huntouched⟩ | ⟨hnone, -⟩ := step_untouched hm c input
          · rw [huntouched.ticks, htick, tick_eq]
          · rw [hstep, executed_take] at hnone
            cases hnone
        rw [htick, tick_eq, ← hstep] at hwaiting hlatch
        refine .other hwaits hdraws hwaiting ?_ (.inr hticks)
        rw [hlatch, hticks]
        simp
      · rw [hmachine]
        exact .other hwaits hdraws rfl .inl (.inl rfl)

/-- A machine that waits stays at its draw or scroll. -/
theorem AtGate.handle (hm : m.Sized) (h : AtGate c m) (e : Event) : AtGate c (m.handle c e) := by
  cases e with
  | press key => exact h
  | release key => exact h
  | step input =>
    cases step_marks hdelay htimer hm input with
    | waits hwaits => exact .of_waits hm hwaits
    | draws _ _ _ _ hover => exact .of_not_waiting hover
    | other hwaits hdraws hsame =>
      exact .of_not_waiting (hsame.trans (h.waiting_eq_false hwaits hdraws))

/-- Along a run a machine that waits is at a draw or scroll. -/
theorem AtGate.handleAll (hm : m.Sized) (h : AtGate c m) : AtGate c (m.handleAll c events) := by
  induction events generalizing m with
  | nil => exact h
  | cons e rest ih => exact ih (hm.handle c e) (h.handle hdelay htimer hm e)

/-! ## The latch -/

/-- Behind a step that waits or draws the latch is shut. -/
theorem shutSince_step (hm : m.Sized)
    (h : m.waits c input = true ∨ m.draws c input = true) :
    (m.step c input).machine.ticks = input.ticks ∧
      ShutSince input.ticks (m.step c input).machine := by
  cases step_marks hdelay htimer hm input with
  | waits _ _ hlatch hticks =>
    exact ⟨hticks, Int.le_of_eq hticks.symm, fun _ hopen => by simp [hlatch] at hopen⟩
  | draws _ _ _ _ hover hticks =>
    exact ⟨hticks, Int.le_of_eq hticks.symm, fun hwaiting => by simp [hover] at hwaiting⟩
  | other hwaits hdraws => simp [hwaits, hdraws] at h

/-- A latch stays shut, and a step that draws comes at a later tick. -/
theorem ShutSince.step (h : ShutSince tick m) (hm : m.Sized) (hnow : m.ticks ≤ input.ticks) :
    ShutSince tick (m.step c input).machine ∧
      (m.draws c input = true → tick < (m.step c input).machine.ticks) := by
  have hle := h.ticks_le
  cases step_marks hdelay htimer hm input with
  | waits _ hdraws hlatch hticks =>
    exact ⟨⟨by omega, fun _ hopen => by simp [hlatch] at hopen⟩, by simp [hdraws]⟩
  | draws _ _ hwaiting hpassed hover hticks =>
    refine ⟨⟨by omega, fun hnext => by simp [hover] at hnext⟩, fun _ => ?_⟩
    rcases hpassed with hlatch | hlater
    · have hlt := h.ticks_lt hwaiting hlatch
      omega
    · omega
  | other _ hdraws hwaiting hpassed hticks =>
    refine ⟨⟨by omega, fun hnext hopen => ?_⟩, by simp [hdraws]⟩
    rcases hpassed hopen with hlatch | hlater
    · have hlt := h.ticks_lt (hwaiting ▸ hnext) hlatch
      omega
    · omega

/-- Along a run a latch stays shut until a tick. -/
theorem ShutSince.handleAll {behind : List Event} (h : ShutSince tick m) (hm : m.Sized)
    (hticks : (m.ticks :: readings (events ++ behind)).Pairwise (· ≤ ·)) :
    ShutSince tick (m.handleAll c events) := by
  induction events generalizing m with
  | nil => exact h
  | cons e rest ih =>
    cases e with
    | press key => exact ih (m := m.press key) ⟨h.ticks_le, h.ticks_lt⟩ { hm with } hticks
    | release key => exact ih (m := m.release key) ⟨h.ticks_le, h.ticks_lt⟩ { hm with } hticks
    | step input =>
      have hnow : m.ticks ≤ input.ticks := List.rel_of_pairwise_cons hticks List.mem_cons_self
      exact ih (h.step hdelay htimer hm hnow).1 (hm.step c input)
        (pairwise_readings_step htimer hm hticks)

/-- Once the latch is shut, draws come at later ticks only. -/
theorem ShutSince.lt_drawTicks (h : ShutSince tick m) (hm : m.Sized)
    (hticks : (m.ticks :: readings events).Pairwise (· ≤ ·)) :
    ∀ t ∈ m.drawTicks c events, tick < t := by
  induction events generalizing m with
  | nil => simp [drawTicks]
  | cons e rest ih =>
    cases e with
    | press key => exact ih (m := m.press key) ⟨h.ticks_le, h.ticks_lt⟩ { hm with } hticks
    | release key => exact ih (m := m.release key) ⟨h.ticks_le, h.ticks_lt⟩ { hm with } hticks
    | step input =>
      have hnow : m.ticks ≤ input.ticks := List.rel_of_pairwise_cons hticks List.mem_cons_self
      obtain ⟨hshut, hlater⟩ := h.step hdelay htimer hm hnow
      have hbehind := ih hshut (hm.step c input) (pairwise_readings_step htimer hm hticks)
      intro t ht
      rw [drawTicks] at ht
      split at ht
      · next hdraws =>
        rcases List.mem_cons.mp ht with rfl | ht
        · exact hlater hdraws
        · exact hbehind t ht
      · exact hbehind t ht

/-- The ticks at which a run draws or scrolls are strictly increasing. -/
theorem pairwise_drawTicks (hm : m.Sized) (hticks : (m.ticks :: readings events).Pairwise (· ≤ ·)) :
    (m.drawTicks c events).Pairwise (· < ·) := by
  induction events generalizing m with
  | nil => exact .nil
  | cons e rest ih =>
    cases e with
    | press key => exact ih (m := m.press key) { hm with } hticks
    | release key => exact ih (m := m.release key) { hm with } hticks
    | step input =>
      have hsorted := pairwise_readings_step htimer hm hticks
      have hnext := hm.step c input
      rw [drawTicks]
      split
      · next hdraws =>
        obtain ⟨hnow, hshut⟩ := shutSince_step hdelay htimer hm (.inr hdraws)
        exact List.pairwise_cons.mpr
          ⟨hnow ▸ hshut.lt_drawTicks hdelay htimer hnext hsorted, ih hnext hsorted⟩
      · exact ih hnext hsorted

/-! ## Waits -/

/-- A wait was begun by an earlier step, and every step since has waited. -/
theorem exists_armed (hm : m.Sized) (hstart : m.waiting = false)
    (hwaiting : (m.handleAll c events).waiting = true) :
    ∃ earlier arming between, Armed c m events earlier arming between := by
  induction events using List.reverseRecOn with
  | nil =>
    rw [show m.handleAll c [] = m from rfl, hstart] at hwaiting
    cases hwaiting
  | append_singleton before e ih =>
    have hgate : AtGate c (m.handleAll c before) :=
      (AtGate.of_not_waiting hstart).handleAll hdelay htimer hm
    rw [handleAll_append] at hwaiting
    cases e with
    | press key =>
      obtain ⟨earlier, arming, between, harmed⟩ := ih hwaiting
      exact ⟨_, _, _, harmed.concat trivial⟩
    | release key =>
      obtain ⟨earlier, arming, between, harmed⟩ := ih hwaiting
      exact ⟨_, _, _, harmed.concat trivial⟩
    | step input =>
      change ((m.handleAll c before).step c input).machine.waiting = true at hwaiting
      cases step_marks hdelay htimer (hm.handleAll c before) input with
      | waits hwaits =>
        cases hbefore : (m.handleAll c before).waiting with
        | true =>
          obtain ⟨earlier, arming, between, harmed⟩ := ih hbefore
          exact ⟨_, _, _, harmed.concat ⟨hwaits, trivial⟩⟩
        | false =>
          exact ⟨before, input, [], rfl, by simp [arms, hwaits, hbefore], trivial⟩
      | draws _ _ _ _ hover => simp [hover] at hwaiting
      | other hwaits hdraws hsame =>
        rw [hsame, hgate.waiting_eq_false hwaits hdraws] at hwaiting
        cases hwaiting

/-- A wait that was begun ends in a draw or scroll at a later tick. -/
theorem Armed.ticks_lt {before earlier between behind : List Event} {arming : StepInput}
    (h : Armed c m before earlier arming between) (hm : m.Sized)
    (hticks : (m.ticks :: readings (before ++ .step input :: behind)).Pairwise (· ≤ ·))
    (hdraws : (m.handleAll c before).draws c input = true) :
    ((m.handleAll c earlier).step c arming).machine.ticks <
      ((m.handleAll c before).step c input).machine.ticks := by
  obtain ⟨hsplit, harms, -⟩ := h
  have hwaits : (m.handleAll c earlier).waits c arming = true := (Bool.and_eq_true_iff.mp harms).1
  have hearlier := hm.handleAll c earlier
  obtain ⟨harming, hshut⟩ := shutSince_step hdelay htimer hearlier (.inl hwaits)
  have hlast := pairwise_readings_handleAll htimer hm hticks
  have hnow : (m.handleAll c before).ticks ≤ input.ticks :=
    List.rel_of_pairwise_cons hlast List.mem_cons_self
  -- from the step that began the wait on, the latch is shut
  have hbefore : m.handleAll c before =
      ((m.handleAll c earlier).step c arming).machine.handleAll c between := by
    rw [hsplit, handleAll_append]
    rfl
  have hafter : ShutSince arming.ticks (m.handleAll c before) := by
    rw [hsplit, List.append_assoc] at hticks
    rw [hbefore]
    exact hshut.handleAll hdelay htimer (hearlier.step c arming)
      (pairwise_readings_step htimer hearlier (pairwise_readings_handleAll htimer hm hticks))
  rw [harming]
  exact (hafter.step hdelay htimer (hm.handleAll c before) hnow).2 hdraws

end Step

/-- Where draws are delayed, a run makes at most one draw or scroll a tick. From a sized machine
that does not wait, with timers that run and a clock that does not go backwards, the ticks at which
a run draws or scrolls are strictly increasing. Each draw was armed at an earlier tick, by a step
from which on every step waited for it; and a step that waits moves the timers and the marks of the
wait only. -/
theorem run_draws_once_a_tick (hm : m.Sized) (hdelay : c.delayDraws = true)
    (htimer : c.enableTimer = true) (hwaiting : m.waiting = false)
    (hticks : (m.ticks :: readings events).Pairwise (· ≤ ·)) :
    (m.drawTicks c events).Pairwise (· < ·) ∧
      (∀ before input behind, events = before ++ .step input :: behind →
        (m.handleAll c before).draws c input = true →
        ∃ earlier arming between, Armed c m before earlier arming between ∧
          ((m.handleAll c earlier).step c arming).machine.ticks <
            ((m.handleAll c before).step c input).machine.ticks) ∧
      ∀ (k : Machine) (input : StepInput), k.Sized → k.waits c input = true →
        ∃ delay sound latch waiting ticks steps, (k.step c input).machine =
          { k with delay, sound, latch, waiting, ticks, steps } := by
  refine ⟨pairwise_drawTicks hdelay htimer hm hticks, ?_, ?_⟩
  · rintro before input behind rfl hdraws
    have harmed : (m.handleAll c before).waiting = true := by
      cases step_marks hdelay htimer (hm.handleAll c before) input with
      | draws _ _ hwaiting => exact hwaiting
      | waits _ hnot => simp [hdraws] at hnot
      | other _ hnot => simp [hdraws] at hnot
    obtain ⟨earlier, arming, between, h⟩ := exists_armed hdelay htimer hm hwaiting harmed
    exact ⟨earlier, arming, between, h, h.ticks_lt hdelay htimer hm hticks hdraws⟩
  · intro k input hk hwaits
    obtain ⟨-, -, -, hmachine⟩ := step_of_waits hk hwaits
    obtain ⟨delay, sound, latch, ticks, htimers⟩ := exists_updateTimers c k input.ticks
    rw [hmachine, htimers]
    exact ⟨delay, sound, false, true, ticks, k.steps + 1, rfl⟩

/-- A program that scrolls twice. -/
def scrollTwice : Bytes := #[0x00, 0xFB, 0x00, 0xFB]

/-- A machine is at a scroll of the program. -/
structure AtScroll (m : Machine) : Prop where
  holds : m.Holds scrollTwice
  running : m.halted = false
  place : m.pc = 0x200 ∨ m.pc = 0x202

/-- At a scroll a step waits or scrolls as the gate says. -/
theorem AtScroll.step (h : m.AtScroll) (input : StepInput) :
    (m.step {} input).machine = (m.take {} input { op := .scrollRight }).machine ∧
      m.waits {} input = !((m.updateTimers {} input.ticks).gate {}).1 ∧
      m.draws {} input = ((m.updateTimers {} input.ticks).gate {}).1 := by
  obtain ⟨hlt, hcurrent⟩ : m.pc < memorySize ∧ m.current? {} = some { op := .scrollRight } := by
    rcases h.place with hpc | hpc
    · rw [h.holds.current?_eq {} (o := 0) hpc (by decide), hpc]
      decide
    · rw [h.holds.current?_eq {} (o := 2) hpc (by decide), hpc]
      decide
  have hstep : m.step {} input = m.take {} input { op := .scrollRight } :=
    step_of_current? h.running hlt hcurrent
  have hwaits : m.waits {} input = !((m.updateTimers {} input.ticks).gate {}).1 := by
    rw [waits, h.running, hcurrent, decide_eq_true hlt]
    rfl
  refine ⟨by rw [hstep], hwaits, ?_⟩
  rw [draws, hwaits, hstep, executed_take, Bool.not_not]
  rfl

/-- Of two scrolls the first is armed at tick 7 and made at tick 9. The second is armed at that tick
too, and made at tick 11. -/
theorem run_draws_once_a_tick_scrollTwice :
    ∃ m, (powerOn 7).load scrollTwice programStart = .ok m ∧ m.waiting = false ∧
      let before : List Event := [.step ⟨7, 0⟩, .press 3, .step ⟨9, 0⟩, .step ⟨9, 0⟩]
      let events := before ++ [.step ⟨11, 0⟩]
      m.drawTicks {} events = [9, 11] ∧ (m.drawTicks {} events).Pairwise (· < ·) ∧
        (m.handleAll {} before).draws {} ⟨11, 0⟩ = true ∧
        (∃ earlier arming between, Armed {} m before earlier arming between ∧
          ((m.handleAll {} earlier).step {} arming).machine.ticks <
            ((m.handleAll {} before).step {} ⟨11, 0⟩).machine.ticks) ∧
        m.waits {} ⟨7, 0⟩ = true ∧
        ∃ delay sound latch waiting ticks steps, (m.step {} ⟨7, 0⟩).machine =
          { m with delay, sound, latch, waiting, ticks, steps } := by
  obtain ⟨m, hload, hm⟩ : ∃ m, (powerOn 7).load scrollTwice programStart = .ok m ∧
      m.WellFormed := (wellFormed_powerOn 7).load (by decide)
  have hholds := holds_load hload
  obtain ⟨memory, rfl⟩ := exists_load_powerOn hload
  let m₀ : Machine := { powerOn 7 with memory }
  have hm₀ : m₀.Sized := hm.sized
  have htake (m : Machine) (h : m.Sized) (input : StepInput) :
      (m.take {} input { op := .scrollRight }).machine = (m.updateTimers {} input.ticks).settle
        ((m.updateTimers {} input.ticks).outcome {} input.random { op := .scrollRight }) :=
    machine_take h (by decide)
  obtain ⟨hstep₀, hwaits₀, hdraws₀⟩ := AtScroll.step (m := m₀) ⟨hholds, rfl, .inl rfl⟩ ⟨7, 0⟩
  let m₁ : Machine := { m₀ with latch := false, waiting := true, steps := 1 }
  replace hstep₀ : (m₀.step {} ⟨7, 0⟩).machine = m₁ := by
    rw [hstep₀, htake m₀ hm₀]
    rfl
  have hm₁ : (m₁.press 3).Sized := ⟨hm₀.memory, hm₀.registers, hm₀.flags⟩
  obtain ⟨hstep₁, -, hdraws₁⟩ :=
    AtScroll.step (m := m₁.press 3) ⟨hholds.of_memory_eq rfl, rfl, .inl rfl⟩ ⟨9, 0⟩
  let m₂ : Machine := { m₁.press 3 with
    display := m₀.display.scrollRight sidewaysStep, needsRefresh := true
    pc := 0x202, ticks := 9, latch := true, waiting := false, steps := 2 }
  replace hstep₁ : ((m₁.press 3).step {} ⟨9, 0⟩).machine = m₂ := by
    rw [hstep₁, htake _ hm₁]
    rfl
  have hm₂ : m₂.Sized := ⟨hm₀.memory, hm₀.registers, hm₀.flags⟩
  obtain ⟨hstep₂, -, hdraws₂⟩ :=
    AtScroll.step (m := m₂) ⟨hholds.of_memory_eq rfl, rfl, .inr rfl⟩ ⟨9, 0⟩
  let m₃ : Machine := { m₂ with latch := false, waiting := true, steps := 3 }
  replace hstep₂ : (m₂.step {} ⟨9, 0⟩).machine = m₃ := by
    rw [hstep₂, htake m₂ hm₂]
    rfl
  have hm₃ : m₃.Sized := ⟨hm₀.memory, hm₀.registers, hm₀.flags⟩
  obtain ⟨hstep₃, -, hdraws₃⟩ :=
    AtScroll.step (m := m₃) ⟨hholds.of_memory_eq rfl, rfl, .inr rfl⟩ ⟨11, 0⟩
  have hticks₃ : (m₃.step {} ⟨11, 0⟩).machine.ticks = 11 := by
    rw [hstep₃, htake m₃ hm₃]
    rfl
  replace hdraws₀ : m₀.draws {} ⟨7, 0⟩ = false := hdraws₀
  replace hdraws₁ : (m₁.press 3).draws {} ⟨9, 0⟩ = true := hdraws₁
  replace hdraws₂ : m₂.draws {} ⟨9, 0⟩ = false := hdraws₂
  replace hdraws₃ : m₃.draws {} ⟨11, 0⟩ = true := hdraws₃
  let before : List Event := [.step ⟨7, 0⟩, .press 3, .step ⟨9, 0⟩, .step ⟨9, 0⟩]
  have hbefore : m₀.handleAll {} before = m₃ := by
    simp only [before, handleAll, List.foldl, handle, hstep₀, hstep₁, hstep₂]
  have hdrawn : (m₀.handleAll {} before).draws {} ⟨11, 0⟩ = true := by
    rw [hbefore]
    exact hdraws₃
  have hdrawTicks : m₀.drawTicks {} (before ++ [.step ⟨11, 0⟩]) = [9, 11] := by
    simp [before, drawTicks, handle, hstep₀, hstep₁, hstep₂, hticks₃, hdraws₀, hdraws₁, hdraws₂,
      hdraws₃]
    rfl
  have hticks : (m₀.ticks :: readings (before ++ [.step ⟨11, 0⟩])).Pairwise (· ≤ ·) :=
    show [7, 7, 9, 9, (11 : Int)].Pairwise (· ≤ ·) by decide
  obtain ⟨hsorted, harmed, hwait⟩ := run_draws_once_a_tick (c := {}) hm₀ rfl rfl rfl hticks
  exact ⟨m₀, hload, rfl, hdrawTicks, hsorted, hdrawn, harmed before _ [] rfl hdrawn, hwaits₀,
    hwait m₀ _ hm₀ hwaits₀⟩

end SuperChip.Machine

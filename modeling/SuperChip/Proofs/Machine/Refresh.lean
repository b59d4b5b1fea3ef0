import SuperChip.Proofs.Machine.Board
import SuperChip.Proofs.Machine.Untouched

/-!
# The refresh mark

A machine asks for a refresh, and whoever shows its display may take the mark away at any time: a
step does the same with the mark and without (`step_withRefresh`). The mark it leaves may differ,
and nothing else does. A step that changes the display leaves the mark (`noticed_step`). Where the
timers are off a step does not read the clock either, so that a board takes the same step whatever
the time is (`step_retouched`).
-/

set_option autoImplicit false

namespace SuperChip

namespace Machine

variable {m : Machine}

/-- The machine with a refresh due or not. -/
def withRefresh (m : Machine) (due : Bool) : Machine := { m with needsRefresh := due }

/-- A draw or scroll that takes effect asks for a refresh, whether or not one is due. -/
theorem effect_withRefresh (i : Instruction) (due : Bool) :
    effect i (m.withRefresh due) = (effect i m).withRefresh true := by
  unfold effect
  split <;> rfl

/-- The gate asks for no refresh mark. -/
theorem gate_withRefresh (c : Config) (due : Bool) :
    (m.withRefresh due).gate c = ((m.gate c).1, (m.gate c).2.withRefresh due) := by
  dsimp only [gate, withRefresh]
  split
  · rfl
  · split
    · split <;> rfl
    · rfl

/-- A draw or scroll does the same whether or not a refresh is due. -/
theorem gated_withRefresh (c : Config) (i : Instruction) (due : Bool) :
    ∃ left, (m.withRefresh due).gated c (effect i) = (m.gated c (effect i)).withRefresh left := by
  simp only [gated_eq, gate_withRefresh, effect_withRefresh]
  cases (m.gate c).1 with
  | true => exact ⟨true, rfl⟩
  | false => exact ⟨due, rfl⟩

/-- An instruction has the same outcome whether or not a refresh is due. -/
theorem outcome_withRefresh (c : Config) (random : Int) (i : Instruction) (due : Bool) :
    ∃ left, (m.withRefresh due).outcome c random i =
      (m.outcome c random i).map (·.withRefresh left) := by
  cases hgated : i.op.isGated with
  | true =>
    obtain ⟨left, hleft⟩ := gated_withRefresh (m := m) c i due
    refine ⟨left, ?_⟩
    rw [outcome_of_isGated c random hgated, outcome_of_isGated c random hgated, hleft]
    rfl
  | false =>
    refine ⟨i.op.refreshes || due, ?_⟩
    refine (outcome_marked m.latch m.waiting due m.steps c c.delayDraws random hgated).trans ?_
    change (m.outcome c random i).map _ = _
    cases hexec : m.outcome c random i with
    | error stop => rfl
    | ok next =>
      rw [eq_marked_of_outcome hgated hexec]
      rfl

/-- The timers do not depend on the refresh mark. -/
theorem updateTimers_withRefresh (c : Config) (now : Int) (due : Bool) :
    (m.withRefresh due).updateTimers c now = (m.updateTimers c now).withRefresh due := by
  unfold updateTimers
  split
  · rw [tick_eq, tick_eq]
    rfl
  · rfl

/-- Taking an instruction does the same whether or not a refresh is due. -/
theorem take_withRefresh (hm : m.Sized) {i : Instruction} (hi : i.Fits) (c : Config)
    (input : StepInput)
    (due : Bool) : ∃ left, (m.withRefresh due).take c input i =
      { m.take c input i with machine := (m.take c input i).machine.withRefresh left } := by
  obtain ⟨left, hexec⟩ :=
    outcome_withRefresh (m := m.updateTimers c input.ticks) c input.random i due
  have hdue : (m.withRefresh due).Sized := { hm with }
  rw [take_eq hm hi, take_eq hdue hi, updateTimers_withRefresh, hexec]
  cases (m.updateTimers c input.ticks).outcome c input.random i with
  | ok next => exact ⟨left, rfl⟩
  | error stop => cases stop <;> exact ⟨due, rfl⟩

/-- A step does the same whether or not a refresh is due, but for the mark that it leaves. -/
theorem step_withRefresh (hm : m.Sized) (c : Config) (input : StepInput) (due : Bool) :
    ∃ left, (m.withRefresh due).step c input =
      { m.step c input with machine := (m.step c input).machine.withRefresh left } := by
  have htake : ∀ i : Instruction, i.Fits → ∃ machine,
      (∃ left, machine = (m.take c input i).machine.withRefresh left) ∧
        (m.withRefresh due).take c input i = { m.take c input i with machine } := by
    intro i hi
    obtain ⟨left, hleft⟩ := take_withRefresh hm hi c input due
    exact ⟨_, ⟨left, rfl⟩, hleft⟩
  obtain ⟨machine, ⟨left, rfl⟩, hstep⟩ := step_alike (m := m) (n := m.withRefresh due)
    (R := fun a b => ∃ left, a = b.withRefresh left) rfl rfl (fun _ => rfl) ⟨due, rfl⟩ ⟨due, rfl⟩
    htake
  exact ⟨left, hstep⟩

/-- On the way to the machine `next` the display has not changed unnoticed: a refresh is due, or the
display and the mark are those of the machine `m`. -/
def Noticed (m next : Machine) : Prop :=
  next.needsRefresh = true ∨ next.display = m.display ∧ next.needsRefresh = m.needsRefresh

/-- A draw or scroll that takes effect asks for a refresh. -/
theorem needsRefresh_effect (i : Instruction) (m : Machine) :
    (effect i m).needsRefresh = true := by
  unfold effect
  split <;> rfl

/-- A draw or scroll changes the display noticed, or not at all. -/
theorem noticed_gated (c : Config) (i : Instruction) : m.Noticed (m.gated c (effect i)) := by
  rw [gated_eq]
  split
  · exact .inl (needsRefresh_effect i _)
  · obtain ⟨latch, waiting, hgate⟩ := exists_gate c m
    rw [hgate]
    exact .inr ⟨rfl, rfl⟩

/-- Whatever an instruction does to the display, it asks for a refresh with it. -/
theorem noticed_outcome {c : Config} {random : Int} {i : Instruction} {next : Machine}
    (h : m.outcome c random i = .ok next) : m.Noticed next := by
  cases hgated : i.op.isGated with
  | true =>
    rw [outcome_of_isGated c random hgated] at h
    cases h
    exact noticed_gated c i
  | false =>
    have hmark : next.needsRefresh = (i.op.refreshes || m.needsRefresh) :=
      congrArg Machine.needsRefresh (eq_marked_of_outcome hgated h)
    cases hrefreshes : i.op.refreshes with
    | true =>
      rw [hrefreshes] at hmark
      exact .inl hmark
    | false =>
      have hclear : i.op ≠ .clear := by
        intro hop
        rw [hop] at hrefreshes
        cases hrefreshes
      rw [hrefreshes] at hmark
      exact .inr ⟨(outcome_untouched h).display hgated hclear, hmark⟩

/-- No step changes the display unnoticed. -/
theorem noticed_step (hm : m.Sized) (c : Config) (input : StepInput) :
    m.Noticed (m.step c input).machine := by
  obtain ⟨i, hrunning, hlt, hi⟩ | ⟨-, hmachine, -⟩ := step_cases c m input
  · obtain ⟨delay, sound, latch, ticks, htimers⟩ := exists_updateTimers c m input.ticks
    rw [step_of_current? hrunning hlt hi, machine_take hm (fits_of_current? hi)]
    cases hexec : (m.updateTimers c input.ticks).outcome c input.random i with
    | ok next =>
      have hnoticed := noticed_outcome hexec
      rw [htimers] at hnoticed
      exact hnoticed
    | error stop =>
      rw [htimers]
      cases stop <;> exact .inr ⟨rfl, rfl⟩
  · rw [hmachine]
    exact .inr ⟨rfl, rfl⟩

end Machine

namespace Board

variable {b : Board}

/-- The board at another time, with a refresh due or not. -/
def retouched (b : Board) (due : Bool) (clock : Clock) : Board :=
  { b with machine := b.machine.withRefresh due, clock }

/-- Where the timers are off a step does not depend on the time, nor on whether a refresh is due. -/
theorem step_retouched (hm : b.machine.Sized) (htimer : b.config.enableTimer = false) (due : Bool)
    (clock : Clock) :
    ∃ left, (b.retouched due clock).step = (b.step.1.retouched left clock, b.step.2) := by
  obtain ⟨config, m, now, random, journal⟩ := b
  obtain ⟨left, hstep⟩ := Machine.step_withRefresh hm config ⟨0, random.peek⟩ due
  refine ⟨left, ?_⟩
  dsimp only at htimer
  simp only [retouched, step, htimer]
  simp [hstep]

end Board

end SuperChip

import SuperChip.Proofs.Machine.Control
import SuperChip.Proofs.Machine.Step

/-!
# What an instruction leaves alone

Each part of a machine but its registers, index and control is written by a few operations only:
memory by the two that store, the display by draws, scrolls and clearing, a timer or the keypad by
one operation each. `outcome_untouched` says so for every operation at once, and `step_untouched`
for a step, which brings the timers up before its instruction.
-/

set_option autoImplicit false

namespace SuperChip.Machine

variable {m next : Machine} {c : Config} {input : StepInput} {i : Instruction}

/-- What an operation does not write is in the machine `next` as it was in the machine `m`. -/
structure Untouched (op : Op) (m next : Machine) : Prop where
  memory : op ≠ .storeDecimal → op ≠ .storeRegs → next.memory = m.memory
  display : op.isGated = false → op ≠ .clear → next.display = m.display
  flags : op ≠ .saveFlags → next.flags = m.flags
  delay : op ≠ .writeDelay → next.delay = m.delay
  sound : op ≠ .writeSound → next.sound = m.sound
  keypad : op ≠ .awaitKey → next.keypad = m.keypad
  ticks : next.ticks = m.ticks

/-- A machine that stays as it is has nothing written. -/
theorem Untouched.refl (op : Op) (m : Machine) : Untouched op m m :=
  ⟨fun _ _ => rfl, fun _ _ => rfl, fun _ => rfl, fun _ => rfl, fun _ => rfl, fun _ => rfl, rfl⟩

/-- A draw or scroll writes what it may write only, whether it takes effect or waits. -/
theorem untouched_gated (c : Config) (hgated : i.op.isGated = true) :
    Untouched i.op m (m.gated c (effect i)) := by
  obtain ⟨latch, waiting, hgate⟩ := exists_gate c m
  obtain ⟨display, registers, needsRefresh, heffect⟩ :=
    exists_effect i { m with latch, waiting }
  have hdisplay : i.op.isGated = false → i.op ≠ .clear → display = m.display := by
    intro hfree
    rw [hgated] at hfree
    cases hfree
  rw [gated_eq, hgate, heffect]
  split
  · exact { Untouched.refl i.op m with display := hdisplay }
  · exact { Untouched.refl i.op m with }

/-- An instruction that does not abort writes only what its operation writes. -/
theorem outcome_untouched {random : Int} (h : m.outcome c random i = .ok next) :
    Untouched i.op m next := by
  cases hgated : i.op.isGated with
  | true =>
    rw [outcome_of_isGated c random hgated] at h
    cases h
    exact untouched_gated c hgated
  | false =>
    unfold outcome at h
    cases hop : i.op
    case draw | scrollDown | scrollRight | scrollLeft =>
      rw [hop] at hgated
      cases hgated
    all_goals
      simp only [hop] at h
    -- the operations that write one of the parts
    case clear =>
      cases h
      exact { Untouched.refl .clear m with display := fun _ hne => absurd rfl hne }
    case writeDelay =>
      cases h
      exact { Untouched.refl .writeDelay m with delay := fun hne => absurd rfl hne }
    case writeSound =>
      cases h
      exact { Untouched.refl .writeSound m with sound := fun hne => absurd rfl hne }
    case awaitKey =>
      split at h <;> cases h
      · exact .refl .awaitKey _
      · exact { Untouched.refl .awaitKey m with keypad := fun hne => absurd rfl hne }
    case saveFlags =>
      split at h <;> cases h
      exact { Untouched.refl .saveFlags m with flags := fun hne => absurd rfl hne }
    case storeDecimal =>
      split at h
      · cases h
      · split at h <;> cases h
        exact { Untouched.refl .storeDecimal m with memory := fun hne _ => absurd rfl hne }
    case storeRegs =>
      split at h
      · cases h
      · split at h
        · cases h
        · next bytes hbytes =>
          obtain ⟨index, hadvance⟩ :=
            exists_advance c { m with memory := m.memory.overwrite m.index bytes } i.vx
          rw [hadvance] at h
          cases h
          exact { Untouched.refl .storeRegs m with memory := fun _ hne => absurd rfl hne }
    -- the others write registers, the index, control or marks only
    case readRegs =>
      split at h
      · cases h
      · obtain ⟨index, hadvance⟩ := exists_advance c (m.setFirst i.vx
          ((m.memory.extract m.index (m.index + i.vx.toNat + 1)).map UInt8.toNat)) i.vx
        rw [hadvance] at h
        cases h
        exact { Untouched.refl .readRegs m with }
    case restoreFlags =>
      split at h <;> cases h
      exact { Untouched.refl .restoreFlags m with }
    case jumpV0 =>
      split at h
      · cases h
      · split at h <;> cases h
        exact { Untouched.refl .jumpV0 m with }
    case ret | jump | call =>
      split at h <;> cases h
      exact { Untouched.refl _ m with }
    all_goals
      cases h
      exact { Untouched.refl _ m with }

/-- A step brings the timers up and then writes what its instruction writes, or takes no instruction
and at most halts. -/
theorem step_untouched (hm : m.Sized) (c : Config) (input : StepInput) :
    (∃ i, (m.step c input).executed = some i ∧
      Untouched i.op (m.updateTimers c input.ticks) (m.step c input).machine) ∨
    ((m.step c input).executed = none ∧
      ∃ halted, (m.step c input).machine = { m with halted }) := by
  obtain ⟨i, hrunning, hlt, hi⟩ | ⟨hnone, hmachine, -⟩ := step_cases c m input
  · left
    refine ⟨i, by rw [step_of_current? hrunning hlt hi, executed_take], ?_⟩
    rw [step_of_current? hrunning hlt hi, machine_take hm (fits_of_current? hi)]
    generalize m.updateTimers c input.ticks = k
    cases hexec : k.outcome c input.random i with
    | ok next => exact { outcome_untouched hexec with }
    | error stop => cases stop <;> exact { Untouched.refl i.op k with }
  · exact .inr ⟨hnone, _, hmachine⟩

end SuperChip.Machine

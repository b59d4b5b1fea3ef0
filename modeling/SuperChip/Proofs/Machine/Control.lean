import SuperChip.Listing.Path
import SuperChip.Proofs.Machine.Waiting

/-!
# How control goes on

An instruction that does not abort leaves the program counter where it is, or moves it to the next
instruction, past a skipped one, to the address of a jump or call, or behind the call it returns
from (`outcome_moves`). Of all these only EXIT halts the machine. Only a jump or call aborts because
of an odd address (`outcome_misaligned`).
-/

set_option autoImplicit false

namespace SuperChip

/-- Whether an abort is about an odd address. -/
def Abort.isMisaligned : Abort → Bool
  | .misalignedJump _ | .misalignedCall _ => true
  | _ => false

namespace Machine

variable {m next : Machine} {i : Instruction}

/-- How control goes on from the machine `m` to the machine `next` behind an instruction. -/
inductive Moves (i : Instruction) (m next : Machine) : Prop where
  | stay (hpc : next.pc = m.pc) (hstack : next.stack = m.stack)
  | next (hpc : next.pc = m.pc + 2) (hstack : next.stack = m.stack)
      (hgo : i.op.endsPath = false ∨ next.halted = true)
  | skip (hskip : i.op.isSkip = true) (hpc : next.pc = m.pc + 4) (hstack : next.stack = m.stack)
  | jump (hop : i.op = .jump) (hpc : next.pc = i.address) (hstack : next.stack = m.stack)
  | call (hop : i.op = .call) (hpc : next.pc = i.address) (hstack : next.stack = m.pc :: m.stack)
  | ret (caller : Int) (hop : i.op = .ret) (hpc : next.pc = caller + 2)
      (hstack : m.stack = caller :: next.stack)
  | jumpV0 (hop : i.op = .jumpV0) (hstack : next.stack = m.stack)

/-- Bringing the timers up changes the timers, the latch and the ticks only. -/
theorem exists_updateTimers (c : Config) (m : Machine) (now : Int) : ∃ delay sound latch ticks,
    m.updateTimers c now = { m with delay, sound, latch, ticks } := by
  unfold updateTimers
  split
  · rw [tick_eq]
    exact ⟨_, _, _, _, rfl⟩
  · exact ⟨m.delay, m.sound, m.latch, m.ticks, rfl⟩

/-- A draw or scroll changes the display, the flag register and the refresh that is due only. -/
theorem exists_effect (i : Instruction) (m : Machine) : ∃ display registers needsRefresh,
    effect i m = { m with display, registers, needsRefresh } := by
  unfold effect
  split <;> exact ⟨_, _, _, rfl⟩

/-- Moving the index on changes the index only. -/
theorem exists_advance (c : Config) (m : Machine) (x : Int) :
    ∃ index, m.advance c x = { m with index } := by
  unfold advance
  split
  · exact ⟨_, rfl⟩
  · exact ⟨m.index, rfl⟩

/-- A skip goes to the next instruction or past it. -/
theorem moves_skipIf (hskip : i.op.isSkip = true) (hgo : i.op.endsPath = false)
    (condition : Bool) : Moves i m (m.skipIf condition) := by
  cases condition with
  | true => exact .skip hskip rfl rfl
  | false => exact .next rfl rfl (.inl hgo)

/-- A draw or scroll stays or goes on to the next instruction. -/
theorem moves_gated (c : Config) (hgo : i.op.endsPath = false) :
    Moves i m (m.gated c (effect i)) ∧ (m.gated c (effect i)).ticks = m.ticks ∧
      (m.gated c (effect i)).halted = m.halted := by
  obtain ⟨latch, waiting, hgate⟩ := exists_gate c m
  obtain ⟨display, registers, needsRefresh, heffect⟩ :=
    exists_effect i { m with latch, waiting }
  rw [gated_eq, hgate, heffect]
  split
  · exact ⟨.next rfl rfl (.inl hgo), rfl, rfl⟩
  · exact ⟨.stay rfl rfl, rfl, rfl⟩

/-- An instruction that does not abort moves control, and does nothing to the clock. Only EXIT halts
the machine. -/
theorem outcome_moves {c : Config} {random : Int} (h : m.outcome c random i = .ok next) :
    Moves i m next ∧ next.ticks = m.ticks ∧ (next.halted = m.halted ∨ i.op = .exit) := by
  cases hgated : i.op.isGated with
  | true =>
    rw [outcome_of_isGated c random hgated] at h
    cases h
    have hgo : i.op.endsPath = false := by revert hgated; cases i.op <;> decide
    obtain ⟨hmoves, hticks, hhalted⟩ := moves_gated (m := m) c hgo
    exact ⟨hmoves, hticks, .inl hhalted⟩
  | false =>
    unfold outcome at h
    cases hop : i.op
    case draw | scrollDown | scrollRight | scrollLeft =>
      rw [hop] at hgated
      cases hgated
    all_goals
      simp only [hop] at h
    case ret =>
      cases hstack : m.stack with
      | nil => simp [hstack] at h
      | cons caller rest =>
        simp only [hstack] at h
        cases h
        exact ⟨.ret caller hop rfl hstack, rfl, .inl rfl⟩
    case jump =>
      split at h <;> cases h
      exact ⟨.jump hop rfl rfl, rfl, .inl rfl⟩
    case call =>
      split at h <;> cases h
      exact ⟨.call hop rfl rfl, rfl, .inl rfl⟩
    case jumpV0 =>
      split at h
      · cases h
      · split at h <;> cases h
        exact ⟨.jumpV0 hop rfl, rfl, .inl rfl⟩
    case exit =>
      cases h
      exact ⟨.next rfl rfl (.inr rfl), rfl, .inr rfl⟩
    -- what is left never ends a path
    all_goals have hgo : i.op.endsPath = false := by rw [hop]; rfl
    case skipEqByte | skipNeByte | skipEqReg | skipNeReg | skipPressed | skipReleased =>
      cases h
      exact ⟨moves_skipIf (by rw [hop]; rfl) hgo _, rfl, .inl rfl⟩
    case awaitKey =>
      split at h <;> cases h
      · exact ⟨.stay rfl rfl, rfl, .inl rfl⟩
      · exact ⟨.next rfl rfl (.inl hgo), rfl, .inl rfl⟩
    case storeDecimal =>
      split at h
      · cases h
      · split at h <;> cases h
        exact ⟨.next rfl rfl (.inl hgo), rfl, .inl rfl⟩
    case storeRegs =>
      split at h
      · cases h
      · split at h
        · cases h
        · next bytes hbytes =>
          obtain ⟨index, hadvance⟩ :=
            exists_advance c { m with memory := m.memory.overwrite m.index bytes } i.vx
          rw [hadvance] at h
          cases h
          exact ⟨.next rfl rfl (.inl hgo), rfl, .inl rfl⟩
    case readRegs =>
      split at h
      · cases h
      · obtain ⟨index, hadvance⟩ := exists_advance c (m.setFirst i.vx
          ((m.memory.extract m.index (m.index + i.vx.toNat + 1)).map UInt8.toNat)) i.vx
        rw [hadvance] at h
        cases h
        exact ⟨.next rfl rfl (.inl hgo), rfl, .inl rfl⟩
    case saveFlags =>
      split at h <;> cases h
      exact ⟨.next rfl rfl (.inl hgo), rfl, .inl rfl⟩
    case restoreFlags =>
      split at h <;> cases h
      exact ⟨.next rfl rfl (.inl hgo), rfl, .inl rfl⟩
    all_goals
      cases h
      exact ⟨.next rfl rfl (.inl hgo), rfl, .inl rfl⟩

/-- Only control that goes to an odd address, by `JP V0` or by its own address, is misaligned. -/
theorem outcome_misaligned {c : Config} {random : Int} {cause : Abort}
    (h : m.outcome c random i = .error (.abort cause)) (hcause : cause.isMisaligned = true) :
    i.op = .jumpV0 ∨ (i.op.startsPath = true ∧ i.address % 2 ≠ 0) := by
  unfold outcome at h
  cases hop : i.op
  all_goals
    simp only [hop] at h
  case jumpV0 => exact .inl rfl
  case jump | call =>
    split at h
    · cases h
    · next hodd => exact .inr ⟨rfl, hodd⟩
  -- every other abort has another cause
  case ret | readRegs | saveFlags | restoreFlags =>
    split at h <;> cases h
    cases hcause
  case storeDecimal | storeRegs =>
    split at h
    · cases h
      cases hcause
    · split at h <;> cases h
  case awaitKey => split at h <;> cases h
  all_goals cases h

end Machine
end SuperChip

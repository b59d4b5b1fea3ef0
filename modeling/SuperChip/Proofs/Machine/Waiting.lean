import SuperChip.Proofs.Machine.Step

/-!
# Waiting for a tick

A draw or scroll asks the gate before it takes effect (`outcome_of_isGated`), and nothing but the
gate looks at the marks of a wait: every other instruction does the same whatever these marks are,
whether draws are delayed or not, however many steps were counted, and whether or not a refresh is
due (`outcome_marked`). Timers that are brought up to one tick after another end where one update
would have left them (`tick_tick`).
-/

set_option autoImplicit false

namespace SuperChip

/-- Whether an operation waits for a tick where draws are delayed. -/
def Op.isGated : Op → Bool
  | .draw | .scrollDown | .scrollRight | .scrollLeft => true
  | _ => false

/-- Whether an operation asks for a refresh at once. -/
def Op.refreshes : Op → Bool
  | .clear | .lowRes | .highRes => true
  | _ => false

namespace Machine

variable {m n : Machine}

/-- The machine with other marks of a wait and another count of steps. -/
def remark (m : Machine) (latch waiting : Bool) (steps : Nat) : Machine :=
  { m with latch, waiting, steps }

/-- The machine with other marks: of a wait, of a refresh that is due, and of the steps counted. -/
def marked (m : Machine) (latch waiting needsRefresh : Bool) (steps : Nat) : Machine :=
  { m with latch, waiting, needsRefresh, steps }

/-- What a draw or scroll does once it takes effect. -/
def effect (i : Instruction) (m : Machine) : Machine :=
  match i.op with
  | .scrollDown => m.present (m.display.scrollDown i.nibble.toNat)
  | .scrollRight => m.present (m.display.scrollRight sidewaysStep)
  | .scrollLeft => m.present (m.display.scrollLeft sidewaysStep)
  | _ => m.drawSprite (m.reg i.vx) (m.reg i.vy) i.nibble.toNat

/-- Two machines are the same but for the marks of a wait and the count of steps. -/
def Agree (m n : Machine) : Prop := ∃ latch waiting steps, m = n.remark latch waiting steps

/-! ## Marks -/

section Marked

variable (latch waiting needsRefresh : Bool) (steps : Nat)

/-- Marks do not change a register. -/
@[simp] theorem reg_marked (x : Int) :
    (m.marked latch waiting needsRefresh steps).reg x = m.reg x := rfl

/-- Marks do not change the first registers. -/
@[simp] theorem upTo_marked (x : Int) :
    (m.marked latch waiting needsRefresh steps).upTo x = m.upTo x := rfl

/-- Marks do not change the index. -/
@[simp] theorem index_marked : (m.marked latch waiting needsRefresh steps).index = m.index := rfl

/-- Marks do not change the stack. -/
@[simp] theorem stack_marked : (m.marked latch waiting needsRefresh steps).stack = m.stack := rfl

/-- Marks do not change the keypad. -/
@[simp] theorem keypad_marked : (m.marked latch waiting needsRefresh steps).keypad = m.keypad := rfl

/-- The first registers may be set before or after the marks. -/
theorem setFirst_marked (x : Int) (values : Cells Nat) :
    (m.marked latch waiting needsRefresh steps).setFirst x values =
      (m.setFirst x values).marked latch waiting needsRefresh steps := rfl

/-- The index may be moved on before or after the marks. -/
theorem advance_marked (c : Config) (x : Int) :
    (m.marked latch waiting needsRefresh steps).advance c x =
      (m.advance c x).marked latch waiting needsRefresh steps := by
  unfold advance
  split <;> rfl

/-- An instruction that neither draws nor scrolls has the same outcome whatever the marks are, and
whether draws are delayed or not. The marks stay, but for a refresh that it asks for. -/
theorem outcome_marked (c : Config) (delayDraws : Bool) (random : Int) {i : Instruction}
    (h : i.op.isGated = false) :
    (m.marked latch waiting needsRefresh steps).outcome c random i =
      (m.outcome { c with delayDraws } random i).map
        (·.marked latch waiting (i.op.refreshes || needsRefresh) steps) := by
  unfold outcome
  cases hop : i.op
  case draw | scrollDown | scrollRight | scrollLeft =>
    rw [hop] at h
    cases h
  -- where the outcome depends on the machine, both machines give the same answer
  case ret =>
    dsimp only [stack_marked]
    cases m.stack <;> rfl
  case awaitKey =>
    dsimp only [keypad_marked]
    cases m.keypad.takeLowest? <;> rfl
  case jumpV0 =>
    dsimp only [reg_marked]
    split
    · rfl
    · split <;> rfl
  case storeDecimal =>
    dsimp only [index_marked, reg_marked]
    split
    · next hout => exact if_pos hout
    · next hfits =>
      refine (if_neg hfits).trans ?_
      cases bytesOf? (decimalDigits (m.reg i.vx)) <;> rfl
  case storeRegs =>
    dsimp only [index_marked, upTo_marked]
    split
    · next hout => exact if_pos hout
    · next hfits =>
      refine (if_neg hfits).trans ?_
      cases bytesOf? (m.upTo i.vx) with
      | none => rfl
      | some bytes =>
        exact congrArg (fun m => Except.ok (next m)) (advance_marked latch waiting needsRefresh
          steps c i.vx (m := { m with memory := m.memory.overwrite m.index bytes }))
  case readRegs =>
    simp only [setFirst_marked, advance_marked]
    dsimp only [index_marked]
    split
    · next hout => exact if_pos hout
    · next hfits => exact if_neg hfits
  case restoreFlags =>
    simp only [setFirst_marked]
    split <;> rfl
  case jump | call | saveFlags =>
    dsimp only
    split <;> rfl
  all_goals rfl

end Marked

/-- An instruction that neither draws nor scrolls leaves the marks as they are, but for a refresh
that it asks for. -/
theorem eq_marked_of_outcome {c : Config} {random : Int} {i : Instruction}
    (hgated : i.op.isGated = false) (h : m.outcome c random i = .ok n) :
    n = n.marked m.latch m.waiting (i.op.refreshes || m.needsRefresh) m.steps := by
  have hown :=
    outcome_marked (m := m) m.latch m.waiting m.needsRefresh m.steps c c.delayDraws random
    hgated
  rw [show m.marked m.latch m.waiting m.needsRefresh m.steps = m from rfl, h] at hown
  exact Except.ok.inj hown

/-! ## The marks of a wait -/

section Remark

variable (latch waiting : Bool) (steps : Nat)

/-- The marks of a wait do not change a register. -/
@[simp] theorem reg_remark (x : Int) : (m.remark latch waiting steps).reg x = m.reg x := rfl

/-- A draw or scroll does the same whatever the marks of a wait are. -/
theorem effect_remark (i : Instruction) :
    effect i (m.remark latch waiting steps) = (effect i m).remark latch waiting steps := by
  unfold effect
  split <;> rfl

/-- An instruction that neither draws nor scrolls has the same outcome whatever the marks of a wait
are, and whether draws are delayed or not. -/
theorem outcome_remark (c : Config) (delayDraws : Bool) (random : Int) {i : Instruction}
    (h : i.op.isGated = false) :
    (m.remark latch waiting steps).outcome c random i =
      (m.outcome { c with delayDraws } random i).map (·.remark latch waiting steps) := by
  refine (outcome_marked latch waiting m.needsRefresh steps c delayDraws random h).trans ?_
  cases hexec : m.outcome { c with delayDraws } random i with
  | error stop => rfl
  | ok next =>
    -- a refresh that the instruction asks for is in the outcome already
    have hmarks := eq_marked_of_outcome h hexec
    rw [hmarks]
    rfl

end Remark

/-! ## Ticks -/

/-- The timers go down by the ticks passed; the latch closes on a tick. -/
theorem tick_eq (m : Machine) (now : Int) :
    m.tick now = { m with
      ticks := now
      delay := m.delay - (now - m.ticks).toNat
      sound := m.sound - (now - m.ticks).toNat
      latch := m.latch || decide (m.ticks < now) } := by
  unfold tick
  by_cases h : now - m.ticks ≤ 0
  · have hlatch : ¬m.ticks < now := by omega
    have hzero : (now - m.ticks).toNat = 0 := by omega
    simp [h, hlatch, hzero]
  · have hlatch : m.ticks < now := by omega
    simp [h, hlatch]

/-- Timers that are brought up to a tick and then to a later one might have been brought up to the
later one at once. -/
theorem tick_tick {early late : Int} (h : m.ticks ≤ early) (hlate : early ≤ late) :
    ((m.tick early).tick late).Agree (m.tick late) := by
  have htimer : ∀ t, t - (early - m.ticks).toNat - (late - early).toNat =
      t - (late - m.ticks).toNat := by omega
  exact ⟨((m.tick early).tick late).latch, m.waiting, m.steps, by
    simp only [tick_eq, htimer, remark]⟩

/-! ## The gate -/

/-- A draw or scroll takes effect when the gate opens, and until then stays where it is. -/
theorem gated_eq (c : Config) (effect : Machine → Machine) :
    m.gated c effect = if (m.gate c).1 then (effect (m.gate c).2).next else (m.gate c).2 := by
  unfold gated
  obtain ⟨_ | _, _⟩ := m.gate c <;> rfl

/-- Where draws are delayed, the gate opens to a machine that has waited for a tick, and otherwise
the machine waits for one. -/
theorem gate_delayed {c : Config} (h : c.delayDraws = true) :
    m.gate c = if m.waiting && m.latch then (true, m.remark true false m.steps)
      else (false, m.remark false true m.steps) := by
  unfold gate
  rw [h]
  cases hwaiting : m.waiting with
  | false => rfl
  | true =>
    cases hlatch : m.latch with
    | true => rfl
    | false =>
      have hmarks : m = m.remark false true m.steps := calc
        m = m.remark m.latch m.waiting m.steps := rfl
        _ = m.remark false true m.steps := by rw [hlatch, hwaiting]
      exact congrArg (Prod.mk false) hmarks

/-- Behind a gate that stays closed a machine waits, and no tick has passed. -/
theorem gate_of_closed {c : Config} (h : (m.gate c).1 = false) :
    (m.gate c).2 = m.remark false true m.steps := by
  cases hdelay : c.delayDraws with
  | false =>
    rw [gate, hdelay] at h
    cases h
  | true =>
    rw [gate_delayed hdelay] at h ⊢
    split at h
    · cases h
    · next hshut => rw [if_neg hshut]

/-- Where draws are delayed, the gate opens to a machine that waits when a tick has passed, and the
wait is over. -/
theorem gate_of_open {c : Config} (hdelay : c.delayDraws = true) (h : (m.gate c).1 = true) :
    m.waiting = true ∧ m.latch = true ∧ (m.gate c).2 = m.remark true false m.steps := by
  rw [gate_delayed hdelay] at h ⊢
  split at h
  · next hpassed =>
    obtain ⟨hwaiting, hlatch⟩ := Bool.and_eq_true_iff.mp hpassed
    exact ⟨hwaiting, hlatch, by rw [if_pos hpassed]⟩
  · cases h

/-- A draw or scroll asks the gate, and never aborts. -/
theorem outcome_of_isGated (c : Config) (random : Int) {i : Instruction}
    (h : i.op.isGated = true) : m.outcome c random i = .ok (m.gated c (effect i)) := by
  obtain ⟨latch, waiting, hgate⟩ := exists_gate c m
  have hx : (m.gate c).2.reg i.vx = m.reg i.vx := by rw [hgate]; rfl
  have hy : (m.gate c).2.reg i.vy = m.reg i.vy := by rw [hgate]; rfl
  unfold outcome
  cases hop : i.op
  case scrollDown | scrollRight | scrollLeft => simp only [gated_eq, effect, hop]
  case draw => simp only [gated_eq, effect, hop, hx, hy]
  all_goals
    rw [hop] at h
    cases h

end Machine
end SuperChip

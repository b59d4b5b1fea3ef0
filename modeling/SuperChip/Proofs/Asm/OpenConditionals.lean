import SuperChip.Asm.Conditional
import SuperChip.Labels

/-!
# Open conditionals as a stack

Each open conditional is a frame: its lines are taken, or they wait for an `ELSE`, or they are over
until the `ENDIF`. A line is selected if all frames are active. The assembler keeps three numbers in
place of the stack. They are enough (`Tracks.move`) because of the frames that are not active only
the outermost can change: those inside it were opened where lines are skipped, and are done.
-/

set_option autoImplicit false

namespace SuperChip.Conditional

/-- An open conditional. -/
inductive Frame where
  /-- Its lines are taken. -/
  | active
  /-- Its lines are skipped up to its `ELSE`. -/
  | waiting
  /-- Its lines are skipped up to its `ENDIF`. -/
  | done
  deriving DecidableEq, Repr

/-- What opens, turns or closes a conditional. -/
inductive Directive where
  /-- Opens a conditional on a name that is to be defined or, for `false`, not to be. -/
  | test (name : String) (defined : Bool)
  | turn
  | close
  deriving DecidableEq, Repr

/-- A line is selected if all frames are active. -/
def selected (frames : List Frame) : Bool := frames.all (· = .active)

/-- The frame after its `ELSE`. -/
def Frame.turn : Frame → Frame
  | .active => .done
  | .waiting => .active
  | .done => .done

/-- The frames after a directive, the innermost first. -/
def Directive.apply (labels : Labels) (frames : List Frame) : Directive → List Frame
  | .test name defined =>
    if selected frames then
      (if labels.contains name = defined then .active else .waiting) :: frames
    else .done :: frames
  | .turn =>
    match frames with
    | [] => []
    | frame :: rest => frame.turn :: rest
  | .close => frames.tail

/-- The three numbers after a directive. -/
def Directive.move (labels : Labels) (c : Conditional) : Directive → Conditional
  | .test name defined => c.enter (labels.contains name == defined)
  | .turn => c.swap
  | .close => c.leave

/-- The numbers that stand for frames. Above a frame that is not active there are only frames that
are done, which the numbers count but do not tell apart. -/
inductive Tracks : List Frame → Conditional → Prop where
  | nil : Tracks [] {}
  | active {frames : List Frame} {n : Nat} (h : Tracks frames ⟨n, 0, 0⟩) :
      Tracks (.active :: frames) ⟨n + 1, 0, 0⟩
  | waiting {frames : List Frame} {n : Nat} (h : Tracks frames ⟨n, 0, 0⟩) :
      Tracks (.waiting :: frames) ⟨n + 1, n + 1, 0⟩
  | done {frames : List Frame} {n : Nat} (h : Tracks frames ⟨n, 0, 0⟩) :
      Tracks (.done :: frames) ⟨n + 1, 0, n + 1⟩
  | skipped {frames : List Frame} {c : Conditional} (h : Tracks frames c)
      (hskips : c.active = false) : Tracks (.done :: frames) { c with depth := c.depth + 1 }

namespace Tracks

variable {frames : List Frame} {c : Conditional}

/-- There are as many frames as open conditionals. -/
theorem length_eq (h : Tracks frames c) : frames.length = c.depth := by
  induction h <;> simp_all

/-- A line is selected exactly if it is active. -/
theorem selected_eq (h : Tracks frames c) : selected frames = c.active := by
  induction h with
  | nil => rfl
  | active h ih => simpa [selected, Conditional.active] using ih
  | waiting h ih => simp [selected, Conditional.active]
  | done h ih => simp [selected, Conditional.active]
  | skipped h hskips ih => simpa [selected, Conditional.active] using hskips

/-- Both counters of skipped conditionals are at most the depth. -/
theorem le_depth (h : Tracks frames c) : c.skipElse ≤ c.depth ∧ c.skipEndif ≤ c.depth := by
  induction h <;> simp_all
  omega

/-- On an active line nothing is skipped. -/
theorem eq_of_active (h : c.active = true) : c = ⟨c.depth, 0, 0⟩ := by
  obtain ⟨depth, skipElse, skipEndif⟩ := c
  simpa [Conditional.active] using h

/-- A test opens a frame, as it opens a conditional. -/
theorem enter (h : Tracks frames c) (labels : Labels) (name : String) (defined : Bool) :
    Tracks ((Directive.test name defined).apply labels frames)
      (c.enter (labels.contains name == defined)) := by
  rw [Directive.apply, h.selected_eq]
  cases hactive : c.active with
  | true =>
    rw [eq_of_active hactive] at h ⊢
    by_cases hname : labels.contains name = defined
    · simpa [Conditional.enter, Conditional.active, hname] using h.active
    · simpa [Conditional.enter, Conditional.active, hname] using h.waiting
  | false => simpa [Conditional.enter, hactive] using h.skipped hactive

/-- An alternative turns the innermost frame, as it turns the innermost conditional. -/
theorem swap (h : Tracks frames c) (labels : Labels) :
    Tracks (Directive.turn.apply labels frames) c.swap := by
  cases h with
  | nil => exact .nil
  | active h =>
    simpa [Directive.apply, Frame.turn, Conditional.swap, Conditional.active] using h.done
  | waiting h => simpa [Directive.apply, Frame.turn, Conditional.swap] using h.active
  | done h => simpa [Directive.apply, Frame.turn, Conditional.swap, Conditional.active] using h.done
  | @skipped frames c h hskips =>
    -- the level that skips is an outer one, so that the `ELSE` is not its own
    have hle := h.le_depth
    have hne : ¬c.depth + 1 = c.skipElse := by omega
    have hskips' : Conditional.active { c with depth := c.depth + 1 } = false := hskips
    simpa [Directive.apply, Frame.turn, Conditional.swap, hne, hskips'] using h.skipped hskips

/-- An end closes the innermost frame, as it closes the innermost conditional. -/
theorem leave (h : Tracks frames c) (labels : Labels) :
    Tracks (Directive.close.apply labels frames) c.leave := by
  cases h with
  | nil => exact .nil
  | active h => simpa [Directive.apply, Conditional.leave] using h
  | waiting h => simpa [Directive.apply, Conditional.leave] using h
  | done h => simpa [Directive.apply, Conditional.leave] using h
  | @skipped frames c h hskips =>
    have hle := h.le_depth
    have hneElse : ¬c.depth + 1 = c.skipElse := by omega
    have hneEndif : ¬c.depth + 1 = c.skipEndif := by omega
    simpa [Directive.apply, Conditional.leave, hneElse, hneEndif] using h

/-- The numbers stand for the frames after a directive as they did before it. -/
theorem move (h : Tracks frames c) (labels : Labels) (d : Directive) :
    Tracks (d.apply labels frames) (d.move labels c) := by
  cases d with
  | test name defined => exact h.enter labels name defined
  | turn => exact h.swap labels
  | close => exact h.leave labels

end Tracks

end SuperChip.Conditional

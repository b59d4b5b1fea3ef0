import SuperChip.Proofs.Machine.Sprite
import SuperChip.Proofs.Machine.Waiting

/-!
# Scrolling

A scroll moves all pixels by the same way. What leaves the display is lost, and what comes in from
outside is dark. So two scrolls that come one after the other move a pixel by both ways together,
unless the first of them takes it off the display (`pixel_apply_apply`). From that follow the laws
of scrolls in a row (`scroll_translates`).
-/

set_option autoImplicit false

namespace SuperChip

/-! ## Places -/

/-- The place lies on the display. -/
def OnDisplay (x y : Int) : Prop := (0 ≤ x ∧ x < displayWidth) ∧ 0 ≤ y ∧ y < displayHeight

instance (x y : Int) : Decidable (OnDisplay x y) := inferInstanceAs (Decidable (_ ∧ _))

namespace Display

variable {d e : Display} {x y : Int}

/-- Whether the pixel at a place is lit. Off the display none is. -/
def pixel (d : Display) (x y : Int) : Bool := decide (OnDisplay x y) && d.lit x.toNat y.toNat

/-- Off the display no pixel is lit. -/
theorem pixel_of_off (h : ¬OnDisplay x y) : d.pixel x y = false := by simp [pixel, h]

/-- A place that is not negative has the pixel of the display there. -/
theorem pixel_natCast (d : Display) (x y : Nat) : d.pixel x y = d.lit x y := by
  by_cases hon : x < displayWidth ∧ y < displayHeight
  · simp [pixel, OnDisplay, hon]
  · have hdark : d.lit x y = false := Bool.eq_false_iff.mpr fun hlit => hon (lt_of_lit hlit)
    simp [pixel, hdark]

/-- Displays with the same pixels at all places are the same. -/
theorem eq_of_pixel (h : ∀ x y, d.pixel x y = e.pixel x y) : d = e := by
  refine eq_of_lit fun x _ y _ => ?_
  simpa only [pixel_natCast] using h x y

end Display

/-! ## Scrolls -/

/-- The scrolls: down by up to fifteen rows, or to one side by four columns. -/
inductive Scroll where
  | down (rows : Fin 16)
  | right
  | left
  deriving DecidableEq, Repr

namespace Scroll

/-- The opcode of a scroll. -/
def word : Scroll → Int
  | down rows => 0x00C0 + rows.val
  | right => 0x00FB
  | left => 0x00FC

/-- How far a scroll moves a pixel to the right. -/
def across : Scroll → Int
  | down _ => 0
  | right => 4
  | left => -4

/-- How far a scroll moves a pixel down. -/
def below : Scroll → Int
  | down rows => rows.val
  | right | left => 0

/-- The display after a scroll. -/
def apply (s : Scroll) (d : Display) : Display :=
  match s with
  | down rows => d.scrollDown rows
  | right => d.scrollRight Machine.sidewaysStep
  | left => d.scrollLeft Machine.sidewaysStep

variable (s t : Scroll) (d : Display)

/-- A scroll down moves no pixel to a side. -/
@[simp] theorem across_down (rows : Fin 16) : (down rows).across = 0 := rfl

/-- A scroll down moves each pixel by the rows it names. -/
@[simp] theorem below_down (rows : Fin 16) : (down rows).below = rows.val := rfl

/-- Each pixel comes from where the scroll moves it away. -/
theorem lit_apply {x y : Nat} (hx : x < displayWidth) (hy : y < displayHeight) :
    (s.apply d).lit x y = d.pixel (x - s.across) (y - s.below) := by
  cases s with
  | down rows =>
    rw [apply, Display.lit_scrollDown d rows x hy, across_down, below_down, Int.sub_zero]
    by_cases hrows : rows.val ≤ y
    · rw [← Int.ofNat_sub hrows, Display.pixel_natCast]
      simp [hrows]
    · have hoff : ¬OnDisplay x (y - rows.val) := by
        unfold OnDisplay
        omega
      simp [hrows, Display.pixel_of_off hoff]
  | right =>
    rw [apply, Display.lit_scrollRight d _ y hx, across, below, Int.sub_zero, Machine.sidewaysStep]
    by_cases hcolumns : 4 ≤ x
    · rw [show (x : Int) - 4 = (x - 4 : Nat) by omega, Display.pixel_natCast]
      simp [hcolumns]
    · have hoff : ¬OnDisplay (x - 4) y := by
        unfold OnDisplay
        omega
      simp [hcolumns, Display.pixel_of_off hoff]
  | left =>
    rw [apply, Display.lit_scrollLeft, across, below, Int.sub_zero, Machine.sidewaysStep,
      Int.sub_neg, ← Display.pixel_natCast]
    rfl

/-- A scroll moves each pixel, as long as it stays on the display. -/
theorem pixel_apply (x y : Int) :
    (s.apply d).pixel x y =
      (decide (OnDisplay x y) && d.pixel (x - s.across) (y - s.below)) := by
  by_cases hon : OnDisplay x y
  · have hx : (x.toNat : Int) = x := Int.toNat_of_nonneg hon.1.1
    have hy : (y.toNat : Int) = y := Int.toNat_of_nonneg hon.2.1
    have hlt : x.toNat < displayWidth ∧ y.toNat < displayHeight := by
      unfold OnDisplay at hon
      omega
    rw [Display.pixel, lit_apply s d hlt.1 hlt.2, hx, hy]
  · simp [Display.pixel_of_off, hon]

/-- Two scrolls move each pixel by both ways, as long as it stays on the display in between too. -/
theorem pixel_apply_apply (x y : Int) :
    (t.apply (s.apply d)).pixel x y =
      (decide (OnDisplay x y) && decide (OnDisplay (x - t.across) (y - t.below)) &&
        d.pixel (x - (s.across + t.across)) (y - (s.below + t.below))) := by
  have hacross : x - t.across - s.across = x - (s.across + t.across) := by omega
  have hbelow : y - t.below - s.below = y - (s.below + t.below) := by omega
  rw [pixel_apply, pixel_apply, hacross, hbelow, Bool.and_assoc]

/-- A scroll to a side and one down may come in either order. -/
theorem apply_down_comm (a : Fin 16) (hside : s.below = 0) :
    s.apply ((down a).apply d) = (down a).apply (s.apply d) := by
  refine Display.eq_of_pixel fun x y => ?_
  rw [pixel_apply_apply, pixel_apply_apply]
  simp only [across_down, below_down, hside, Int.add_zero, Int.zero_add, Int.sub_zero]
  by_cases hsource : OnDisplay (x - s.across) (y - a)
  · by_cases hon : OnDisplay x y
    · -- both corners between the two places are on the display, whichever way comes first
      have hfirst : OnDisplay (x - s.across) y := ⟨hsource.1, hon.2⟩
      have hsecond : OnDisplay x (y - a) := ⟨hon.1, hsource.2⟩
      simp only [hfirst, hsecond]
    · simp [hon]
  · simp [Display.pixel_of_off hsource]

/-- Two scrolls down move each pixel by the sum of their rows. -/
theorem pixel_down_down (a b : Fin 16) (x y : Int) :
    ((down b).apply ((down a).apply d)).pixel x y =
      (decide (OnDisplay x y) && d.pixel x (y - (a + b))) := by
  rw [pixel_apply_apply]
  simp only [across_down, below_down, Int.add_zero, Int.sub_zero]
  by_cases hsource : OnDisplay x (y - (a + b))
  · by_cases hon : OnDisplay x y
    · have hbetween : OnDisplay x (y - b) := by
        unfold OnDisplay at *
        omega
      simp [hbetween]
    · simp [hon]
  · simp [Display.pixel_of_off hsource]

/-- A scroll to the right and back loses the last four columns. -/
theorem lit_left_right (x y : Nat) :
    (left.apply (right.apply d)).lit x y = (decide (x < 124) && d.lit x y) := by
  rw [← Display.pixel_natCast, ← Display.pixel_natCast, pixel_apply_apply]
  simp only [across, below, Int.add_zero, Int.sub_zero, Int.add_right_neg, Int.sub_neg]
  by_cases hon : OnDisplay x y
  · have hbetween : OnDisplay (x + 4) y ↔ x < 124 := by
      unfold OnDisplay displayWidth displayHeight at *
      omega
    simp [hon, hbetween]
  · simp [hon, Display.pixel_of_off hon]

/-- The opcodes of the scrolls down are decoded as such. -/
theorem decode_down (rows : Fin 16) (shiftsVy : Bool) :
    Instruction.decode (down rows).word shiftsVy = { op := .scrollDown, nibble := rows.val } := by
  revert rows shiftsVy
  decide

/-- A scroll is a draw or scroll that changes the display and nothing else. -/
theorem execute_word (c : Config) (random : Int) (m : Machine) :
    Machine.execute c random (.decode s.word c.shiftsVy) m =
      m.ofOutcome (.ok (m.gated c fun m => m.present (s.apply m.display))) := by
  cases s with
  | down rows =>
    rw [decode_down]
    exact Machine.gated_present (·.scrollDown rows)
  | right =>
    have hdecode : Instruction.decode right.word c.shiftsVy = { op := .scrollRight } := by
      cases c.shiftsVy <;> rfl
    rw [hdecode]
    exact Machine.gated_present (·.scrollRight Machine.sidewaysStep)
  | left =>
    have hdecode : Instruction.decode left.word c.shiftsVy = { op := .scrollLeft } := by
      cases c.shiftsVy <;> rfl
    rw [hdecode]
    exact Machine.gated_present (·.scrollLeft Machine.sidewaysStep)

/-- An opcode of a scroll draws the scrolled display, unless the machine waits for a tick. -/
theorem display_execute_word (c : Config) (random : Int) (m : Machine) :
    ∃ pc after, Machine.execute c random (.decode s.word c.shiftsVy) m = .ok pc after ∧
      after.display = if (m.gate c).1 then s.apply m.display else m.display := by
  obtain ⟨latch, waiting, hmarks⟩ := Machine.exists_gate c m
  refine ⟨_, _, s.execute_word c random m, ?_⟩
  change (m.gated c fun m => m.present (s.apply m.display)).display = _
  rw [Machine.gated_eq, hmarks]
  split <;> rfl

end Scroll

/-- A scroll that takes effect is a translation that is cut off at the edges: it moves each pixel
down by the rows it names or to a side by four columns, and a pixel that comes from outside is dark.
So two scrolls down are one by the sum of their rows, a scroll down may come before or after one to
a side, and a scroll to the right and back restores every column but the last four, which are
dark. -/
theorem scroll_translates (c : Config) (random : Int) (m : Machine) :
    (∀ s : Scroll, ∃ pc after,
      Machine.execute c random (.decode s.word c.shiftsVy) m = .ok pc after ∧
        after.display = if (m.gate c).1 then s.apply m.display else m.display) ∧
      ∀ d : Display,
        (∀ (s : Scroll) (x y : Int), (s.apply d).pixel x y =
          (decide (OnDisplay x y) && d.pixel (x - s.across) (y - s.below))) ∧
        (∀ (a b : Fin 16) (x y : Int), ((Scroll.down b).apply ((Scroll.down a).apply d)).pixel x y =
          (decide (OnDisplay x y) && d.pixel x (y - (a + b)))) ∧
        (∀ a : Fin 16, Scroll.right.apply ((Scroll.down a).apply d) =
          (Scroll.down a).apply (Scroll.right.apply d)) ∧
        (∀ a : Fin 16, Scroll.left.apply ((Scroll.down a).apply d) =
          (Scroll.down a).apply (Scroll.left.apply d)) ∧
        ∀ x y, (Scroll.left.apply (Scroll.right.apply d)).lit x y =
          (decide (x < 124) && d.lit x y) := by
  refine ⟨fun s => s.display_execute_word c random m, fun d => ⟨?_, ?_, ?_, ?_, ?_⟩⟩
  · exact fun s => s.pixel_apply d
  · exact Scroll.pixel_down_down d
  · exact fun a => Scroll.right.apply_down_comm d a rfl
  · exact fun a => Scroll.left.apply_down_comm d a rfl
  · exact Scroll.lit_left_right d

end SuperChip

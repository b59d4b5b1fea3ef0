/-!
# The display

128 by 64 pixels, each lit or not. A row is a word of 128 bits whose most significant bit is the
leftmost pixel, so that shifting a row moves its pixels and loses those past the edge. Drawing
adds a sprite by exclusive or; a collision is a lit pixel that goes out.
-/

set_option autoImplicit false

namespace SuperChip

/-- The number of columns. -/
def displayWidth : Nat := 128

/-- The number of rows. -/
def displayHeight : Nat := 64

/-- The pixels of a row, the leftmost in the most significant bit. -/
abbrev PixelRow := BitVec displayWidth

/-- The rows, the uppermost first. -/
structure Display where
  rows : Vector PixelRow displayHeight
  deriving DecidableEq

namespace Display

instance : Inhabited Display := ⟨⟨Vector.replicate displayHeight 0⟩⟩

/-- No pixel lit. -/
def blank : Display := ⟨Vector.replicate displayHeight 0⟩

/-- The row at `y`; rows off the display are dark. -/
def row (d : Display) (y : Nat) : PixelRow := d.rows.getD y 0

/-- Whether the pixel in column `x` of row `y` is lit; pixels off the display are not. -/
def lit (d : Display) (x y : Nat) : Bool := (d.row y).getMsbD x

/-- The display with row `y` replaced; rows off the display are lost. -/
def setRow (d : Display) (y : Nat) (r : PixelRow) : Display := ⟨d.rows.setIfInBounds y r⟩

/-- The display whose row `y` is `f y`. -/
def ofRows (f : Nat → PixelRow) : Display := ⟨Vector.ofFn fun y => f y.val⟩

/-- Rows off the display are dark. -/
theorem row_eq_zero (d : Display) {y : Nat} (h : displayHeight ≤ y) : d.row y = 0 := by
  simp [row, Vector.getD, Nat.not_lt.2 h]

/-- A row of a display given by its rows. -/
theorem row_ofRows (f : Nat → PixelRow) {y : Nat} (h : y < displayHeight) :
    (ofRows f).row y = f y := by
  simp [ofRows, row, Vector.getD, h]

/-- Replacing a row of the display changes that row and no other. -/
theorem row_setRow (d : Display) (y z : Nat) (r : PixelRow) :
    (d.setRow y r).row z = if y = z ∧ z < displayHeight then r else d.row z := by
  by_cases hz : z < displayHeight
  · by_cases h : y = z <;> simp [setRow, row, Vector.getD, hz, h]
  · simp [row_eq_zero _ (Nat.not_lt.1 hz), hz]

/-- Every row moved down by `n`. -/
def scrollDown (d : Display) (n : Nat) : Display :=
  ofRows fun y => if y < n then 0 else d.row (y - n)

/-- Every column moved to the right by `n`. -/
def scrollRight (d : Display) (n : Nat) : Display := ofRows fun y => d.row y >>> n

/-- Every column moved to the left by `n`. -/
def scrollLeft (d : Display) (n : Nat) : Display := ofRows fun y => d.row y <<< n

/-- A pixel comes from `n` rows above, if there is one. -/
theorem lit_scrollDown (d : Display) (n x : Nat) {y : Nat} (h : y < displayHeight) :
    (d.scrollDown n).lit x y = (decide (n ≤ y) && d.lit x (y - n)) := by
  rw [lit, scrollDown, row_ofRows _ h]
  by_cases hn : n ≤ y
  · simp [hn, Nat.not_lt.2 hn, lit]
  · simp [hn, Nat.not_le.1 hn]

/-- A pixel comes from `n` columns to the left, if there is one. -/
theorem lit_scrollRight (d : Display) (n y : Nat) {x : Nat} (h : x < displayWidth) :
    (d.scrollRight n).lit x y = (decide (n ≤ x) && d.lit (x - n) y) := by
  by_cases hy : y < displayHeight
  · rw [lit, scrollRight, row_ofRows _ hy, BitVec.getMsbD_ushiftRight]
    by_cases hn : n ≤ x <;> simp [h, hn, lit]
  · simp [lit, row_eq_zero _ (Nat.not_lt.1 hy)]

/-- A pixel comes from `n` columns to the right; there are none lit off the display. -/
theorem lit_scrollLeft (d : Display) (n x y : Nat) :
    (d.scrollLeft n).lit x y = d.lit (x + n) y := by
  by_cases hy : y < displayHeight
  · rw [lit, scrollLeft, row_ofRows _ hy, BitVec.getMsbD_shiftLeft, lit, Nat.add_comm]
  · simp [lit, row_eq_zero _ (Nat.not_lt.1 hy)]

/-- A sprite row of `width` pixels, its left edge in column `x`; pixels past the right edge are
lost. -/
def spriteRow (width x bits : Nat) : PixelRow :=
  BitVec.ofNat displayWidth bits <<< (displayWidth - width) >>> x

/-- The display with one more pixel lit. -/
def light (d : Display) (x y : Nat) : Display := d.setRow y (d.row y ||| spriteRow 1 x 1)

/-- Adds rows of pixels from row `y` down by exclusive or. Rows past the bottom are lost. The second
value tells whether a lit pixel went out, here or before as `hit` says. -/
def drawRows (d : Display) (hit : Bool) (y : Nat) : List PixelRow → Display × Bool
  | [] => (d, hit)
  | r :: rest =>
    let old := d.row y
    drawRows (d.setRow y (old ^^^ r)) (hit || old &&& r != 0) (y + 1) rest

/-- Draws the rows of a sprite, `width` pixels wide, with its upper left corner at column `x` of
row `y`. -/
def draw (d : Display) (x y width : Nat) (sprite : List Nat) : Display × Bool :=
  d.drawRows false y (sprite.map (spriteRow width x))

/-- Whether no pixel of a row is lit. -/
def isDark (d : Display) (y : Nat) : Bool := d.row y == 0

end Display

end SuperChip

import SuperChip.Machine.Display

/-!
# Frames

A frame shows the display enlarged: each pixel as a square of the scale, in low resolution the upper
left quarter with squares twice as large, so that frames of both resolutions have one size.
-/

set_option autoImplicit false

namespace SuperChip

/-- A colour by its red, green and blue. -/
structure Color where
  red : UInt8
  green : UInt8
  blue : UInt8
  deriving DecidableEq, Repr

namespace Color

/-- The colour of a lit pixel. -/
def white : Color := ⟨255, 255, 255⟩

/-- The colour of a dark pixel. -/
def black : Color := ⟨0, 0, 0⟩

end Color

/-- A picture: rows of pixels, each white or black. -/
structure Frame where
  width : Nat
  height : Nat
  rows : List (List Bool)
  deriving DecidableEq, Repr

namespace Frame

/-- A negative scale has no frame. -/
inductive Error where
  | negativeScale
  deriving DecidableEq, Repr

/-- The wording of the refusal. -/
def Error.message : Error → String
  | .negativeScale => "negative dimensions are not allowed"

/-- The colour that shows whether a pixel is lit. -/
def color (lit : Bool) : Color := if lit then .white else .black

/-- The colour in column `x` of row `y`, if the picture is that large. -/
def colorAt? (f : Frame) (x y : Nat) : Option Color :=
  ((f.rows[y]?).bind (·[x]?)).map color

/-- Each element `n` times in a row. -/
def stretch {α : Type} (n : Nat) (xs : List α) : List α := xs.flatMap (List.replicate n)

/-- The columns that a resolution shows. -/
def shownColumns (highRes : Bool) : Nat := if highRes then displayWidth else displayWidth / 2

/-- The rows that a resolution shows. -/
def shownRows (highRes : Bool) : Nat := if highRes then displayHeight else displayHeight / 2

/-- The side of the square that shows a pixel. -/
def factor (highRes : Bool) (scale : Nat) : Nat := if highRes then scale else 2 * scale

/-- The frame of a display. -/
def ofDisplay (d : Display) (highRes : Bool) (scale : Int) : Except Error Frame :=
  if scale < 0 then .error .negativeScale
  else
    let n := factor highRes scale.toNat
    let row := fun y => stretch n ((List.range (shownColumns highRes)).map fun x => d.lit x y)
    .ok {
      width := n * shownColumns highRes
      height := n * shownRows highRes
      rows := stretch n ((List.range (shownRows highRes)).map row) }

end Frame

end SuperChip

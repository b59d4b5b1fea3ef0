/-!
# The keymap

Which key of a keyboard stands for each key of the keypad: a block of four by four keys.
-/

set_option autoImplicit false

namespace SuperChip

/-- The keys of the keypad, in order, and their names on the keyboard. -/
def keymap : List (Nat × String) :=
  [(0x0, "x"), (0x1, "1"), (0x2, "2"), (0x3, "3"), (0x4, "q"), (0x5, "w"), (0x6, "e"), (0x7, "a"),
   (0x8, "s"), (0x9, "d"), (0xA, "z"), (0xB, "c"), (0xC, "4"), (0xD, "r"), (0xE, "f"), (0xF, "v")]

end SuperChip

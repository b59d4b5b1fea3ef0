/-!
# The keypad

Sixteen keys held down or not, as the bits of one number: bit `k` is set while key `k` is down. Any
number names a key, modulo sixteen.
-/

set_option autoImplicit false

namespace SuperChip

/-- The place of the lowest set bit of a number, counted from zero; for zero it is zero. -/
def trailingZeros (n : Nat) : Nat :=
  if n = 0 ∨ n % 2 = 1 then 0 else trailingZeros (n / 2) + 1
termination_by n
decreasing_by omega

/-- The place of the lowest set bit, counted from zero; zero has none, which is given as -1. -/
def lowestSetBit (n : Int) : Int :=
  if n = 0 then -1 else trailingZeros n.natAbs

/-- The keys that are down. -/
structure Keypad where
  bits : Nat := 0
  deriving DecidableEq, Repr, Inhabited

namespace Keypad

/-- The key that a number names. -/
def key (n : Int) : Nat := (n % 16).toNat

/-- Whether key `n` is down. -/
def isDown (k : Keypad) (n : Int) : Bool := k.bits.testBit (key n)

/-- The keypad with key `n` down. -/
def press (k : Keypad) (n : Int) : Keypad := ⟨k.bits ||| 1 <<< key n⟩

/-- The keypad without the bit at place `i`. -/
def clearBit (k : Keypad) (i : Nat) : Keypad :=
  if k.bits.testBit i then ⟨k.bits ^^^ 1 <<< i⟩ else k

/-- The keypad with key `n` up. -/
def release (k : Keypad) (n : Int) : Keypad := k.clearBit (key n)

/-- Exactly the bit that is cleared goes out. -/
theorem testBit_clearBit (k : Keypad) (i j : Nat) :
    (k.clearBit i).bits.testBit j = (k.bits.testBit j && i != j) := by
  unfold clearBit
  by_cases h : i = j
  · subst h
    split <;> simp_all [Nat.one_shiftLeft, Nat.testBit_xor]
  · split <;> simp [Nat.one_shiftLeft, Nat.testBit_xor, h]

/-- The lowest key that is down, and the keypad without it. -/
def takeLowest? (k : Keypad) : Option (Nat × Keypad) :=
  if k.bits = 0 then none
  else some (trailingZeros k.bits, k.clearBit (trailingZeros k.bits))

end Keypad

end SuperChip

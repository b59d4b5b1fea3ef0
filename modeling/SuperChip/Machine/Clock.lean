/-!
# Time and chance

A clock tells the seconds passed as a double. Between two readings it moves on in any way, which the
clock of a program that is tried out may fix in advance: by a steady amount, for instance. A random
source gives the numbers of a list over and over.
-/

set_option autoImplicit false

namespace SuperChip

/-- A clock. -/
structure Clock where
  /-- What the next reading tells, in seconds. -/
  now : Float
  /-- The time after a reading, from the number of readings before it and the time it told. -/
  passing : Nat → Float → Float := fun _ told => told
  /-- How many readings were made. -/
  readings : Nat := 0
  deriving Inhabited

namespace Clock

/-- Seconds from a number of 1024ths. -/
def seconds (n : Int) : Float := Float.ofInt n / 1024

/-- A clock that each reading moves on by the same amount. -/
def steady (now step : Float) : Clock := { now, passing := fun _ told => told + step }

/-- A reading, and the clock after it. -/
def read (c : Clock) : Float × Clock :=
  (c.now, { c with now := c.passing c.readings c.now, readings := c.readings + 1 })

/-- The clock set to a time. -/
def set (c : Clock) (now : Float) : Clock := { c with now }

/-- The clock after a pause. -/
def sleep (c : Clock) (duration : Float) : Clock := { c with now := c.now + duration }

/-- The whole part of a finite double: its significand, shifted by its exponent, toward zero. -/
def truncate (x : Float) : Int :=
  let bits := x.toBits.toNat
  let exponent := (bits >>> 52) % (1 <<< 11)
  let fraction := bits % (1 <<< 52)
  let significand := if exponent = 0 then fraction else (1 <<< 52) + fraction
  let magnitude : Nat :=
    if exponent < 1075 then significand >>> (1075 - max exponent 1)
    else significand <<< (exponent - 1075)
  if bits < 1 <<< 63 then magnitude else -magnitude

/-- The tick at a time, for a number of ticks in a second. -/
def tickAt (now : Float) (frequency : Int) : Int := truncate (now * Float.ofInt frequency)

end Clock

/-- A list of numbers and the place of the next one. -/
structure RandomSource where
  numbers : Array Int := #[]
  position : Nat := 0
  deriving Repr, Inhabited

namespace RandomSource

/-- The next number; an empty source gives zero. -/
def peek (r : RandomSource) : Int := r.numbers.getD (r.position % r.numbers.size) 0

/-- The source after a number was taken. -/
def advance (r : RandomSource) : RandomSource := { r with position := r.position + 1 }

end RandomSource

end SuperChip
